import ApiAssembly.Proofs.Assembly.Unresolved
import ApiAssembly.Proofs.Output.Destinations

/-!
# Proofs — Assembly — every output is accounted for

An emitter that has a destination for everything answers the renderings of a finish one after
another (`Emitter.answersTo`), and a delivery comes to every output (`Delivery.reached_eq_zip`).
Each output then has a disposition by its answer alone: with a path it is in the report, and without
one there is a warning for its failure (`Delivery.emitted?`, `Delivery.failure?`).

What the emitter answers for one output does not change what it is handed for another
(`Assembler.outputs_accounted`).  A finish that ends in a fault can leave warnings for failures to a
later report; where none did, the report has those of its own outputs and no others
(`Assembler.failures_foldl_call`).
-/

namespace ApiAssembly

variable {σ τ : Type}

/-! ### The answers of an emitter -/

/-- What an emitter answers to renderings that it is handed one after another. -/
def Emitter.answersTo (em : Emitter σ) : σ → List Rendered → List (Except EmitFault String)
  | _, []      => []
  | s, r :: rs => (em.emit s r).2 :: em.answersTo (em.emit s r).1 rs

/-- There is one answer for each rendering. -/
theorem Emitter.length_answersTo (em : Emitter σ) (s : σ) (rs : List Rendered) :
    (em.answersTo s rs).length = rs.length := by
  induction rs generalizing s with
  | nil => rfl
  | cons r rs ih => exact congrArg (· + 1) (ih _)

/-- Each answer is one to a rendering, in some state. -/
theorem Emitter.exists_of_mem_answersTo {em : Emitter σ} {s : σ} {rs : List Rendered}
    {answer : Except EmitFault String} (h : answer ∈ em.answersTo s rs) :
    ∃ s', ∃ r ∈ rs, (em.emit s' r).2 = answer := by
  induction rs generalizing s with
  | nil => cases h
  | cons r rs ih =>
    rcases List.mem_cons.mp h with rfl | h
    · exact ⟨s, r, List.mem_cons_self, rfl⟩
    · obtain ⟨s', r', hr', hanswer⟩ := ih h
      exact ⟨s', r', List.mem_cons_of_mem _ hr', hanswer⟩

/-- Whether a warning is for an output that could not be written. -/
def Warning.isEmitFailed : Warning → Bool
  | .emitFailed _ => true
  | _             => false

/-- The warnings for outputs that could not be written. -/
def failures (ws : List Warning) : List Warning := ws.filter Warning.isEmitFailed

theorem failures_append (ws ws' : List Warning) :
    failures (ws ++ ws') = failures ws ++ failures ws' :=
  List.filter_append ..

theorem failures_eq_nil_iff {ws : List Warning} :
    failures ws = [] ↔ ∀ w ∈ ws, w.isEmitFailed = false := by
  simp [failures]

/-- Unresolved tokens are no failures of the emitter. -/
theorem failures_unresolvedWarnings (tokens : List String) :
    failures (unresolvedWarnings tokens) = [] :=
  failures_eq_nil_iff.mpr (List.forall_mem_map.mpr fun _ _ => rfl)

/-- Tokens in a file name are no failures of the emitter. -/
theorem failures_filenameWarnings (filename : String) :
    failures (FilenameRule.warnings filename) = [] := by
  rw [FilenameRule.warnings]
  split <;> rfl

theorem failures_strategyWarnings (c : Context) : failures c.strategyWarnings = [] := by
  rw [Context.strategyWarnings]
  split
  · split <;> rfl
  · rfl

/-! ### Deliveries that come to every output -/

namespace Delivery

variable {em : Emitter σ} {s : σ} {xs : List Prepared}

/-- The warning for the failure of an output with its answer: none, if it went to a path. -/
def failure? : Prepared × Except EmitFault String → Option Warning
  | (_, .ok _)    => none
  | (x, .error _) => some (.emitFailed x.rendered.filename)

/-- The failure of an output is told of once. -/
theorem failures_warningsFor {p : Prepared × Except EmitFault String} (h : ¬ Stops p.2) :
    failures (warningsFor p) = (failure? p).toList := by
  obtain ⟨x, answer⟩ := p
  rcases answer with (_ | _) | _
  · exact absurd trivial h
  · rw [warningsFor, failures_append, failures_filenameWarnings]
    rfl
  · rw [warningsFor, failures_filenameWarnings]
    · rfl
    · intro h
      cases h

theorem renderings_map_ok (xs : List Prepared) :
    renderings (xs.map .ok) = xs.map Prepared.rendered := by
  induction xs with
  | nil => rfl
  | cons x xs ih => exact congrArg (x.rendered :: ·) ih

/-- Without an answer to stop at, a delivery comes to every output. -/
theorem reached_eq_zip (h : ∀ answer ∈ em.answersTo s (xs.map Prepared.rendered), ¬ Stops answer) :
    reached em s (xs.map .ok) = xs.zip (em.answersTo s (xs.map Prepared.rendered)) := by
  induction xs generalizing s with
  | nil => rfl
  | cons x xs ih =>
    rw [List.map_cons, Emitter.answersTo, List.forall_mem_cons] at h
    rw [List.map_cons, List.map_cons, Emitter.answersTo, List.zip_cons_cons,
      reached_ok rfl, if_neg h.1, ih h.2]

/-- A delivery that no answer stops ends without a fault. -/
theorem fault_run_of_no_stop {d : Delivery σ} (hd : d.fault = none)
    (h : ∀ answer ∈ em.answersTo d.state (xs.map Prepared.rendered), ¬ Stops answer) :
    (run em d (xs.map .ok)).fault = none := by
  induction xs generalizing d with
  | nil => exact hd
  | cons x xs ih =>
    rw [List.map_cons, Emitter.answersTo, List.forall_mem_cons] at h
    rw [List.map_cons, run_ok rfl, if_neg h.1]
    refine ih ((fault_meet_of_not_stops h.1).trans hd) ?_
    rw [state_meet]
    exact h.2

end Delivery

/-! ### Finishes that come to every output -/

/-- Where each item has a result, there is a list of the results. -/
theorem Reading.exists_forall₂_of_isOk {ε α β : Type} {f : α → Except ε β} {as : List α}
    (h : ∀ a ∈ as, (f a).isOk) : ∃ bs, List.Forall₂ (fun a b => f a = .ok b) as bs := by
  induction as with
  | nil => exact ⟨[], .nil⟩
  | cons a as ih =>
    obtain ⟨hok, has⟩ := List.forall_mem_cons.mp h
    obtain ⟨bs, hbs⟩ := ih has
    cases ha : f a with
    | error e =>
      rw [ha] at hok
      cases hok
    | ok b => exact ⟨b :: bs, .cons ha hbs⟩

namespace Assembler

variable {a : Assembler} {base : Document} {xs : List Prepared}

/-- Without an answer to stop at, a finish comes to every output, and gets the answers in order. -/
theorem answers_eq_zip (hxs : List.Forall₂ (a.PreparesTo base) (a.outputs base) xs)
    {em : Emitter σ} {s : σ}
    (h : ∀ answer ∈ em.answersTo s (xs.map Prepared.rendered), ¬ Delivery.Stops answer) :
    a.answers base em s = xs.zip (em.answersTo s (xs.map Prepared.rendered)) := by
  rw [answers, forall₂_preparesTo_iff.mp hxs, Delivery.reached_eq_zip h]

theorem fault_delivery_of_no_stop (hxs : List.Forall₂ (a.PreparesTo base) (a.outputs base) xs)
    {em : Emitter σ} {s : σ}
    (h : ∀ answer ∈ em.answersTo s (xs.map Prepared.rendered), ¬ Delivery.Stops answer) :
    (a.delivery base em s).fault = none := by
  rw [delivery, forall₂_preparesTo_iff.mp hxs]
  exact Delivery.fault_run_of_no_stop rfl h

/-! ### The failures in a report -/

/-- No finish among some calls ends in a fault. -/
def Unfaulted : Assembler → List (Call σ) → Prop
  | _, []                 => True
  | a, .input i :: cs     => Unfaulted (a.take i) cs
  | a, .finish em s :: cs =>
    (∃ report, (a.finish em s).result = .ok report) ∧ Unfaulted (a.finish em s).assembler cs

theorem failures_take (a : Assembler) (i : Input) :
    failures (a.take i).warnings = failures a.warnings := by
  cases i with
  | visit files d =>
    have hnext : failures (a.nextBase files d).2 = [] := by
      refine failures_eq_nil_iff.mpr fun w hw => ?_
      have := concernsDocuments_of_mem_nextBase hw
      cases w <;> first | rfl | cases this
    rw [take, visit, failures_append, hnext, List.append_nil]
  | record e => rfl
  | recordAll es => rfl
  | register group d => rfl

/-- A finish that reports takes its failures with it. -/
theorem failures_finish_of_report {em : Emitter σ} {s : σ} {report : Report}
    (h : failures a.warnings = []) (hreport : (a.finish em s).result = .ok report) :
    failures (a.finish em s).assembler.warnings = [] := by
  by_cases hr : a.Ready
  · obtain ⟨base, -, hd⟩ := exists_finish_eq_deliver hr em s
    rw [hd] at hreport ⊢
    rw [deliver_of_no_fault (fault_delivery_of_report hreport)]
    rfl
  · rw [finish_of_not_ready hr]
    exact h

/-- Without a fault before it a report has no failures but those of its own outputs. -/
theorem failures_foldl_call (h : failures a.warnings = []) {cs : List (Call σ)}
    (hcs : Unfaulted a cs) : failures (cs.foldl call a).warnings = [] := by
  induction cs generalizing a with
  | nil => exact h
  | cons k cs ih =>
    cases k with
    | input i => exact ih ((failures_take a i).trans h) hcs
    | finish em s =>
      obtain ⟨⟨report, hreport⟩, hcs⟩ := hcs
      exact ih (failures_finish_of_report h hreport) hcs

theorem failures_started (files : FileTree) (input : ContextInput) :
    failures (started (input.build files)).warnings = [] := by
  refine failures_eq_nil_iff.mpr fun w hw => ?_
  obtain ⟨path, rfl⟩ := ContextInput.exists_of_mem_build hw
  rfl

/-- What is recorded of failures is what the answers say. -/
theorem failures_recorded {em : Emitter σ} {s : σ}
    (h : ∀ p ∈ a.answers base em s, ¬ Delivery.Stops p.2) :
    failures (a.recorded base em s) = (a.answers base em s).filterMap Delivery.failure? := by
  rw [recorded, failures_append, failures_strategyWarnings, List.nil_append]
  generalize a.answers base em s = ps at h
  induction ps with
  | nil => rfl
  | cons p ps ih =>
    obtain ⟨hp, hps⟩ := List.forall_mem_cons.mp h
    rw [List.flatMap_cons, failures_append, Delivery.failures_warningsFor hp, ih hps]
    cases hf : Delivery.failure? p <;> simp [hf]

/-- **Every output is accounted for.**  Whatever calls came before a finish all of whose outputs
can be prepared, an emitter with a destination for each is handed one rendering per output, in
order.  What it is handed does not go by what it answers.  The report has the outputs with a path,
in order, and one warning for the failure of each other output, in order; before these it has the
failures that a finish with a fault left. -/
theorem outputs_accounted {input : ContextInput} {files : FileTree} {cs : List (Call σ)}
    (ha : a = cs.foldl call (started (input.build files))) (hready : a.Ready)
    (hbase : a.base = some base)
    (hprepare : ∀ o ∈ a.outputs base, (a.context.prepare (a.outputs base).length o).isOk) :
    ∃ xs, List.Forall₂ (a.PreparesTo base) (a.outputs base) xs ∧
      ∀ {τ : Type} (em : Emitter τ) (s : τ),
        let answers := em.answersTo s (xs.map Prepared.rendered)
        (∀ filename, .error (.noDestination filename) ∉ answers) →
        answers.length = xs.length ∧
        a.handed em s = xs.map Prepared.rendered ∧
        (a.handed em s).map Rendered.key = (a.outputs base).map OutputDocument.key ∧
        ∃ report, (a.finish em s).result = .ok report ∧
          report.outputs = (xs.zip answers).filterMap Delivery.emitted? ∧
          failures report.warnings =
            failures a.warnings ++ (xs.zip answers).filterMap Delivery.failure? ∧
          (Unfaulted (started (input.build files)) cs →
            failures report.warnings = (xs.zip answers).filterMap Delivery.failure?) := by
  obtain ⟨xs, hxs⟩ := Reading.exists_forall₂_of_isOk hprepare
  refine ⟨xs, hxs, fun em s => ?_⟩
  intro answers hanswers
  have hlength : answers.length = xs.length :=
    (em.length_answersTo s _).trans (List.length_map _)
  have hgoes : ∀ answer ∈ answers, ¬ Delivery.Stops answer := by
    rintro ((filename | _) | path) hmem
    · exact absurd hmem (hanswers filename)
    · exact not_false
    · exact not_false
  have hzip : a.answers base em s = xs.zip answers := answers_eq_zip hxs hgoes
  have hfault : (a.delivery base em s).fault = none := fault_delivery_of_no_stop hxs hgoes
  have hfinish := (finish_of_ready hready hbase em s).trans (deliver_of_no_fault hfault)
  have hhanded : a.handed em s = xs.map Prepared.rendered := by
    rw [handed_eq_renderings hready hbase fun filename => ?_, forall₂_preparesTo_iff.mp hxs,
      Delivery.renderings_map_ok]
    rw [hfinish]
    intro h
    cases h
  have hfailures : failures (a.warnings ++ (a.delivery base em s).warnings ++
      unresolvedWarnings (a.delivery base em s).unresolved) =
        failures a.warnings ++ (xs.zip answers).filterMap Delivery.failure? := by
    rw [failures_append, failures_append, failures_unresolvedWarnings, List.append_nil,
      warnings_delivery, failures_recorded (prepared_eq_of_no_fault hfault).2, hzip]
  refine ⟨hlength, hhanded, ?_, _, congrArg Finish.result hfinish, ?_, hfailures, fun hcs => ?_⟩
  · rw [hhanded, List.map_map, keys_of_preparesTo hxs]
    rfl
  · rw [outputs_delivery, hzip]
  · have hwaiting : failures a.warnings = [] :=
      ha ▸ failures_foldl_call (failures_started files input) hcs
    rw [hfailures, hwaiting, List.nil_append]

/-- An emitter of files never lacks a destination where there is an output directory. -/
theorem not_mem_answersTo_files (target : Option String) (outDir : String) (t : FileTree)
    (rs : List Rendered) (filename : String) :
    .error (.noDestination filename) ∉ (Emitter.files target (some outDir)).answersTo t rs := by
  intro h
  obtain ⟨t', r, -, hanswer⟩ := Emitter.exists_of_mem_answersTo h
  exact Emitter.not_reaches_of_noDestination hanswer (.inr (.inr rfl))

/-- A run whose first output could not be written, with endpoints of two groups behind it. -/
def regroupedPets : List (Call FileTree) :=
  blockedRun ++
    [.input (.recordAll [{ url := "/a", groups := .ofList ["a"] },
      { url := "/b", groups := .ofList ["b"] }])]

/-- A file tree with a directory in the place of the output of one group. -/
def blockedGroup : FileTree :=
  { entries := [(["out"], .directory), (["out", "pets-1.0-a.yml"], .directory)] }

/-- The output of one group is in the report, and the failure of the other one; the failure of the
first finish was in its own report. -/
theorem outputs_accounted_regroupedPets :
    let a := regroupedPets.foldl call (started (({} : ContextInput).build {}))
    let em := Emitter.files none (some "out")
    ∃ xs report, List.Forall₂ (a.PreparesTo petsDocument) (a.outputs petsDocument) xs ∧
      a.handed em blockedGroup = xs.map Prepared.rendered ∧
      (a.handed em blockedGroup).map Rendered.key = [⟨some "a", none⟩, ⟨some "b", none⟩] ∧
      (a.finish em blockedGroup).result = .ok report ∧
      report.outputs = [{ key := ⟨some "b", none⟩, filename := "pets-1.0-b.yml",
                          path := "out/pets-1.0-b.yml" }] ∧
      failures report.warnings = [.emitFailed "pets-1.0-a.yml"] := by
  intro a em
  have hready : a.Ready := ⟨by decide +kernel, by decide +kernel, by decide +kernel⟩
  have hprepare : ∀ o ∈ a.outputs petsDocument,
      (a.context.prepare (a.outputs petsDocument).length o).isOk := by
    decide +kernel
  have hbase : a.base = some petsDocument := by
    obtain ⟨at?, ws, hfirst⟩ := ((started (({} : ContextInput).build {})).take
      (.visit {} petsDocument)).finish_inputs em blockedTree
    exact congrArg Assembler.base hfirst
  obtain ⟨xs, hxs, hall⟩ := outputs_accounted rfl hready hbase hprepare
  obtain ⟨-, hhanded, hkeys, report, hreport, -, -, -⟩ :=
    hall em blockedGroup (not_mem_answersTo_files none "out" blockedGroup _)
  have hresult : (a.finish em blockedGroup).result = .ok
      { outputs := [{ key := ⟨some "b", none⟩, filename := "pets-1.0-b.yml",
                      path := "out/pets-1.0-b.yml" }]
        warnings := [.emitFailed "pets-1.0-a.yml"] } := by
    decide +kernel
  obtain rfl := Except.ok.inj (hreport.symm.trans hresult)
  refine ⟨xs, _, hxs, hhanded, ?_, hresult, rfl, rfl⟩
  rw [hkeys]
  decide +kernel

end Assembler

end ApiAssembly
