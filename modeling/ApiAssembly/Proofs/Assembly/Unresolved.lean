import ApiAssembly.Proofs.Assembly.InputWarnings
import ApiAssembly.Proofs.Document.KeepsTexts
import ApiAssembly.Proofs.Output.Names
import ApiAssembly.Proofs.Placeholder.Passes

/-!
# Proofs — Assembly — the tokens that are left in emitted documents

A text of an emitted document with a token in it is what a text of the document expanded to that
was there before, since reading brings in no token (`Expander.exists_of_mem_texts`).  So a token
that no layer knows is among those that the document leaves unresolved, and the report of the finish
has one warning for it, however many documents and texts keep it: no other warning is for a token
(`Assembler.tokenless_foldl_call`), and each is in the set of unresolved tokens once.  A token that
some layer knows is not in the set; it is left where all passes were made
(`Assembler.finish_reports_left_tokens`).
-/

namespace ApiAssembly

variable {σ τ : Type}

/-! ### The texts of a value with its texts replaced -/

theorem Json.exists_of_mem_texts_mapText {f : String → String} {j : Json} {t : String}
    (h : t ∈ (j.mapText f).texts) : ∃ s ∈ j.texts, t = unlessBlank f s := by
  induction j using Json.induct with
  | null | bool | num => exact absurd h List.not_mem_nil
  | str s => exact ⟨s, List.mem_cons_self, List.mem_singleton.mp h⟩
  | arr items ih =>
    rw [mapText, mapTextItems_eq_map, texts_arr, List.flatMap_map] at h
    obtain ⟨x, hx, ht⟩ := List.mem_flatMap.mp h
    obtain ⟨s, hs, rfl⟩ := ih x hx ht
    rw [texts_arr]
    exact ⟨s, List.mem_flatMap_of_mem hx hs, rfl⟩
  | obj fields ih =>
    rw [mapText, texts_obj, mapTextFields_eq_map] at h
    obtain ⟨e, he, ht⟩ := List.mem_flatMap.mp h
    obtain ⟨⟨k, x⟩, hx, rfl⟩ := List.mem_map.mp (Keyed.mem_of_mem_ofList he)
    rw [texts_obj]
    rcases List.mem_cons.mp ht with rfl | ht
    · exact ⟨k, List.mem_flatMap_of_mem hx List.mem_cons_self, rfl⟩
    · obtain ⟨s, hs, rfl⟩ := ih _ hx ht
      exact ⟨s, List.mem_flatMap_of_mem hx (List.mem_cons_of_mem _ hs), rfl⟩

namespace Expander

variable {e : Expander} {t text : String}

/-- Expanding a text leaves the tokens of the expanded text unresolved that have no value. -/
theorem mem_unresolved_iff :
    t ∈ e.unresolved text ↔
      t ∈ Placeholder.tokens (e.expandChars text.toList) ∧ e.value? t = none := by
  rw [unresolved]
  cases hopens : Placeholder.opensToken text.toList with
  | true => simp [leftIn]
  | false => simp [e.expandChars_of_not_opens hopens, Placeholder.tokens_of_not_opens hopens]

theorem mem_unresolvedIn_iff {j : Json} :
    t ∈ e.unresolvedIn j ↔ ∃ s ∈ j.texts, t ∈ e.unresolved s := by
  rw [unresolvedIn, List.mem_flatMap]
  refine exists_congr fun s => ⟨fun h => ⟨List.mem_of_mem_filter h.1, h.2⟩, fun h => ⟨?_, h.2⟩⟩
  -- A blank text has no token.
  have hblank : blankText s = false := by
    cases hs : blankText s with
    | false => rfl
    | true =>
      have hdollar : '$' ∉ s.toList := fun hm => absurd (List.all_eq_true.mp hs _ hm) (by decide)
      have hopens := Placeholder.opensToken_of_no_dollar hdollar
      have ht := h.2
      rw [unresolved, hopens] at ht
      exact absurd ht List.not_mem_nil
  exact List.mem_filter.mpr ⟨h.1, by rw [hblank]; rfl⟩

/-- A text with a token, of a document that was resolved, is what a text of it expanded to. -/
theorem exists_of_mem_texts {d r : Document} (h : e.resolveDocument d = .ok r)
    (htext : text ∈ r.toJson.texts) (ht : t ∈ Placeholder.tokens text.toList) :
    ∃ s ∈ d.toJson.texts, text = e.expand s := by
  rcases Document.mem_texts_of_ofJson h htext with htext | hopens
  · obtain ⟨s, hs, rfl⟩ := Json.exists_of_mem_texts_mapText htext
    exact ⟨s, hs, by rw [e.unlessBlank_expand]⟩
  · rw [Placeholder.tokens_of_not_opens hopens] at ht
    exact absurd ht List.not_mem_nil

end Expander

/-! ### The tokens that a delivery counts in -/

theorem Context.resolved_of_prepare_eq_ok {c : Context} {n : Nat} {o : OutputDocument}
    {x : Prepared} (h : c.prepare n o = .ok x) :
    c.expander.resolveDocument (c.arrange o.document) = .ok x.output.document ∧
      x.rendered.contents = c.format.render x.output.document ∧
      x.unresolved = c.expander.unresolvedIn (c.arrange o.document).toJson := by
  rw [prepare] at h
  dsimp only at h
  split at h
  case h_1 => cases h
  case h_2 hr =>
    obtain rfl := Except.ok.inj h
    exact ⟨hr, rfl, rfl⟩

namespace Delivery

@[simp] theorem unresolved_meet (d : Delivery σ) (x : Prepared) (s : σ)
    (answer : Except EmitFault String) :
    (d.meet x s answer).unresolved = d.unresolved ++ x.unresolved := by
  rcases answer with (_ | _) | _ <;> rfl

/-- Every output that is reached counts in its tokens. -/
theorem unresolved_run (em : Emitter σ) (d : Delivery σ)
    (xs : List (Except DocumentFault Prepared)) :
    (run em d xs).unresolved =
      d.unresolved ++ (reached em d.state xs).flatMap fun p => p.1.unresolved := by
  induction xs generalizing d with
  | nil => exact (List.append_nil _).symm
  | cons x xs ih =>
    cases x with
    | error f => exact (List.append_nil _).symm
    | ok x =>
      rcases h : em.emit d.state x.rendered with ⟨s, answer⟩
      rw [run_ok h, reached_ok h]
      split <;> simp [ih]

end Delivery

/-! ### Warnings for tokens -/

/-- None of the warnings is for a token. -/
def Tokenless (ws : List Warning) : Prop := ∀ t, .unresolvedPlaceholder t ∉ ws

namespace Tokenless

variable {ws ws' : List Warning}

theorem nil : Tokenless [] := fun _ => List.not_mem_nil

theorem append (h : Tokenless ws) (h' : Tokenless ws') : Tokenless (ws ++ ws') := fun t ht =>
  (List.mem_append.mp ht).elim (h t) (h' t)

end Tokenless

/-- A token is reported once when it is among the unresolved ones, and else not at all. -/
theorem count_unresolvedWarnings (tokens : List String) (t : String) :
    (unresolvedWarnings tokens).count (.unresolvedPlaceholder t) = if t ∈ tokens then 1 else 0 := by
  have hinj : Function.Injective Warning.unresolvedPlaceholder :=
    fun _ _ h => Warning.unresolvedPlaceholder.inj h
  rw [unresolvedWarnings, ((nodup_sortedTexts tokens).map hinj).count]
  simp only [List.mem_map_of_injective hinj, mem_sortedTexts]

/-- No warning that comes with a context is for a token. -/
theorem ContextInput.tokenless_build (files : FileTree) (input : ContextInput) :
    Tokenless (input.build files).2 := by
  intro t ht
  obtain ⟨path, hpath⟩ := exists_of_mem_build ht
  cases hpath

namespace Assembler

/-! ### The warnings that wait -/

theorem tokenless_nextBase (a : Assembler) (files : FileTree) (d : Document) :
    Tokenless (a.nextBase files d).2 := fun _ ht =>
  absurd (concernsDocuments_of_mem_nextBase ht) Bool.false_ne_true

theorem tokenless_recorded (a : Assembler) (base : Document) (em : Emitter σ) (s : σ) :
    Tokenless (a.recorded base em s) := by
  intro t ht
  rcases cases_of_mem_recorded ht with ⟨_, h⟩ | ⟨_, h⟩ | ⟨_, h⟩ <;> cases h

variable {a : Assembler}

theorem tokenless_take (h : Tokenless a.warnings) (i : Input) : Tokenless (a.take i).warnings := by
  cases i with
  | visit files d => exact h.append (a.tokenless_nextBase files d)
  | record e => exact h
  | recordAll es => exact h
  | register group d => exact h

/-- A finish takes the warnings along, or adds those of its outputs. -/
theorem tokenless_finish (h : Tokenless a.warnings) (em : Emitter σ) (s : σ) :
    Tokenless (a.finish em s).assembler.warnings := by
  by_cases hr : a.Ready
  · obtain ⟨base, -, hd⟩ := exists_finish_eq_deliver hr em s
    rw [hd]
    cases hf : (a.delivery base em s).fault with
    | none =>
      rw [deliver_of_no_fault hf]
      exact .nil
    | some fault =>
      rw [deliver_of_fault hf, warnings_delivery]
      exact h.append (a.tokenless_recorded base em s)
  · rw [finish_of_not_ready hr]
    exact h

/-- **No warning that waits is for a token**, whatever calls came. -/
theorem tokenless_foldl_call (h : Tokenless a.warnings) (cs : List (Call σ)) :
    Tokenless (cs.foldl call a).warnings := by
  induction cs generalizing a with
  | nil => exact h
  | cons k cs ih =>
    cases k with
    | input i => exact ih (tokenless_take h i)
    | finish em s => exact ih (tokenless_finish h em s)

/-! ### The report -/

variable {base : Document} {em : Emitter σ} {s : σ} {report : Report}

theorem unresolved_delivery (a : Assembler) (base : Document) (em : Emitter σ) (s : σ) :
    (a.delivery base em s).unresolved =
      (a.answers base em s).flatMap fun p => p.1.unresolved :=
  Delivery.unresolved_run em _ _

/-- A report has one warning for each token that an output of the finish leaves unresolved. -/
theorem count_warnings_deliver (ha : Tokenless a.warnings)
    (h : (a.deliver base em s).result = .ok report) (t : String) :
    report.warnings.count (.unresolvedPlaceholder t) =
      if t ∈ (a.answers base em s).flatMap (fun p => p.1.unresolved) then 1 else 0 := by
  have hothers : Tokenless (a.warnings ++ a.recorded base em s) :=
    ha.append (a.tokenless_recorded base em s)
  rw [deliver_of_no_fault (fault_delivery_of_report h)] at h
  obtain rfl := Except.ok.inj h
  rw [warnings_delivery, unresolved_delivery, List.count_append,
    List.count_eq_zero_of_not_mem (hothers t), Nat.zero_add, count_unresolvedWarnings]

theorem mem_unresolved_answers_iff (h : (a.deliver base em s).result = .ok report) {t : String} :
    t ∈ (a.answers base em s).flatMap (fun p => p.1.unresolved) ↔
      ∃ x, .ok x ∈ a.prepared base ∧ t ∈ x.unresolved := by
  rw [(prepared_eq_of_no_fault (fault_delivery_of_report h)).1, List.mem_flatMap]
  constructor
  · rintro ⟨p, hp, ht⟩
    exact ⟨p.1, List.mem_map_of_mem hp, ht⟩
  · rintro ⟨x, hx, ht⟩
    obtain ⟨p, hp, he⟩ := List.mem_map.mp hx
    obtain rfl := Except.ok.inj he
    exact ⟨p, hp, ht⟩

/-- A token that an output leaves unresolved has no value. -/
theorem value?_of_mem_unresolved {x : Prepared} (hx : .ok x ∈ a.prepared base) {t : String}
    (ht : t ∈ x.unresolved) : a.context.expander.value? t = none := by
  obtain ⟨o, -, ho⟩ := exists_of_mem_prepared hx
  rw [(Context.resolved_of_prepare_eq_ok ho).2.2, Expander.mem_unresolvedIn_iff] at ht
  obtain ⟨text, -, ht⟩ := ht
  exact (Expander.mem_unresolved_iff.mp ht).2

/-- A new assembler, with the warnings that came with its context. -/
def started (built : Context × List Warning) : Assembler :=
  { context := built.1, warnings := built.2 }

/-- **The tokens that are left in emitted documents.**  Whatever calls came before a finish with a
report, a token that is left in a text of an emitted document is reported once if no layer knows it.
If some layer knows it, then it is not reported, and the text is what a text of the document
expanded to in all the passes that there are. -/
theorem finish_reports_left_tokens {input : ContextInput} {files : FileTree}
    {cs : List (Call σ)} {a : Assembler} (ha : a = cs.foldl call (started (input.build files)))
    {em : Emitter τ} {s : τ} (hreport : (a.finish em s).result = .ok report)
    (hbase : a.base = some base) {x : Prepared} (hx : .ok x ∈ a.prepared base) {path : String}
    (hpath : x.emitted path ∈ report.outputs) {text t : String}
    (htext : text ∈ x.output.document.toJson.texts) (ht : t ∈ Placeholder.tokens text.toList) :
    let e := a.context.expander
    (e.value? t = none → report.warnings.count (.unresolvedPlaceholder t) = 1) ∧
    ((e.value? t).isSome → report.warnings.count (.unresolvedPlaceholder t) = 0 ∧
      ∃ o ∈ a.outputs base, ∃ original ∈ (a.context.arrange o.document).toJson.texts,
        text = e.expand original ∧
          e.Leads Expander.passLimit (e.replaceAliases original.toList) text.toList) := by
  intro e
  have hwaiting : Tokenless a.warnings :=
    ha ▸ tokenless_foldl_call (input.tokenless_build files) cs
  have hready : a.Ready := by
    by_contra hr
    rw [finish_of_not_ready hr] at hreport
    obtain rfl := Except.ok.inj hreport
    exact absurd hpath List.not_mem_nil
  rw [finish_of_ready hready hbase] at hreport
  obtain ⟨o, ho, hprepare⟩ := exists_of_mem_prepared hx
  obtain ⟨hresolved, -, hunresolved⟩ := Context.resolved_of_prepare_eq_ok hprepare
  obtain ⟨original, horiginal, rfl⟩ := Expander.exists_of_mem_texts hresolved htext ht
  rw [Expander.expand, String.toList_ofList] at ht
  rw [count_warnings_deliver hwaiting hreport]
  constructor
  · intro hnone
    refine if_pos ((mem_unresolved_answers_iff hreport).mpr ⟨x, hx, ?_⟩)
    rw [hunresolved, Expander.mem_unresolvedIn_iff]
    exact ⟨original, horiginal, Expander.mem_unresolved_iff.mpr ⟨ht, hnone⟩⟩
  · intro hsome
    refine ⟨if_neg fun hm => ?_, o, ho, original, horiginal, rfl, ?_⟩
    · obtain ⟨y, hy, hty⟩ := (mem_unresolved_answers_iff hreport).mp hm
      have hnone : e.value? t = none := value?_of_mem_unresolved hy hty
      rw [hnone] at hsome
      cases hsome
    · rw [Expander.expand, String.toList_ofList]
      exact Expander.leads_expandChars ⟨t, ht, hsome⟩

/-- A caller's value that is its own token. -/
def selfValued : ContextInput where
  system := [("self", "${self}")]

/-- A document with that token, and one that has no value. -/
def selfDocument : Document where
  info := some { title := "${missing}-${self}", version := "1.0" }

/-- A run with such a value and document. -/
def selfRun : Assembler :=
  [(.input (.visit {} selfDocument) : Call FileTree)].foldl call (started (selfValued.build {}))

def selfReport : Report where
  outputs := [{ key := {}, filename := "missing-self-1.0.yml", path := "missing-self-1.0.yml" }]
  warnings := [.unresolvedPlaceholder "missing"]

theorem finish_selfRun : (selfRun.finish Emitter.memory []).result = .ok selfReport := by
  decide +kernel

/-- Both tokens are left in the emitted document. -/
theorem exists_emitted_selfRun :
    ∃ x, .ok x ∈ selfRun.prepared selfDocument ∧
      x.emitted "missing-self-1.0.yml" ∈ selfReport.outputs ∧
      "${missing}-${self}" ∈ x.output.document.toJson.texts :=
  exists_prepared_of_any selfRun selfDocument
    (fun x => x.emitted "missing-self-1.0.yml" ∈ selfReport.outputs ∧
      "${missing}-${self}" ∈ x.output.document.toJson.texts)
    (by decide +kernel)

/-- The token without a value is reported. -/
theorem finish_reports_missing :
    (selfRun.finish Emitter.memory []).result = .ok selfReport ∧
      ∃ x, .ok x ∈ selfRun.prepared selfDocument ∧
        x.emitted "missing-self-1.0.yml" ∈ selfReport.outputs ∧
        "${missing}-${self}" ∈ x.output.document.toJson.texts ∧
        "missing" ∈ Placeholder.tokens "${missing}-${self}".toList ∧
        selfReport.warnings.count (.unresolvedPlaceholder "missing") = 1 := by
  obtain ⟨x, hx, hpath, htext⟩ := exists_emitted_selfRun
  have ht : "missing" ∈ Placeholder.tokens "${missing}-${self}".toList := by decide
  obtain ⟨hreported, -⟩ := finish_reports_left_tokens rfl finish_selfRun rfl hx hpath htext ht
  exact ⟨finish_selfRun, x, hx, hpath, htext, ht, hreported (by decide +kernel)⟩

/-- The token that stands for itself is left as well, and is not reported. -/
theorem finish_leaves_self :
    (selfRun.finish Emitter.memory []).result = .ok selfReport ∧
      ∃ x, .ok x ∈ selfRun.prepared selfDocument ∧
        x.emitted "missing-self-1.0.yml" ∈ selfReport.outputs ∧
        "${missing}-${self}" ∈ x.output.document.toJson.texts ∧
        "self" ∈ Placeholder.tokens "${missing}-${self}".toList ∧
        selfReport.warnings.count (.unresolvedPlaceholder "self") = 0 := by
  obtain ⟨x, hx, hpath, htext⟩ := exists_emitted_selfRun
  exact ⟨finish_selfRun, x, hx, hpath, htext, by decide, by decide⟩

end Assembler

end ApiAssembly
