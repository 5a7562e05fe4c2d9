import ApiAssembly.Proofs.Assembly.Handed
import ApiAssembly.Proofs.Partition.ByKey

/-!
# Proofs — Assembly — what a delivery leaves

A delivery comes to its outputs one by one and gets an answer for each (`reached`).  It goes on
behind a path and behind an output that cannot be written, and stops at an output that has no
destination (`run_ok`).  So all that it leaves can be read off the answers: the outputs in the
report are those with a path (`outputs_run`), the warnings are those of each name and of each
failure (`warnings_run`), and a delivery without a fault came to every output
(`eq_reached_of_no_fault`).

For a finish this gives the keys in its report: all outputs are in it exactly when none failed
(`all_emitted_iff`).
-/

namespace ApiAssembly

variable {σ : Type}

/-! ### The answers to outputs -/

namespace Delivery

/-- Whether a delivery stops at an answer. -/
def Stops : Except EmitFault String → Prop
  | .error (.noDestination _) => True
  | _                         => False

instance : DecidablePred Stops
  | .error (.noDestination _) => .isTrue trivial
  | .error .io                => .isFalse not_false
  | .ok _                     => .isFalse not_false

/-- The outputs that a delivery comes to, each with the answer that it gets. -/
def reached (em : Emitter σ) (s : σ) :
    List (Except DocumentFault Prepared) → List (Prepared × Except EmitFault String)
  | []            => []
  | .error _ :: _ => []
  | .ok x :: rest =>
    let (s, answer) := em.emit s x.rendered
    (x, answer) :: if Stops answer then [] else reached em s rest

/-- What the report says of an output with its answer: nothing, unless it went to a path. -/
def emitted? : Prepared × Except EmitFault String → Option EmittedOutput
  | (x, .ok path) => some (x.emitted path)
  | (_, .error _) => none

/-- The warnings for an output with its answer: for its name, and for its failure. -/
def warningsFor : Prepared × Except EmitFault String → List Warning
  | (x, .error .io) =>
    FilenameRule.warnings x.rendered.filename ++ [.emitFailed x.rendered.filename]
  | (x, _)          => FilenameRule.warnings x.rendered.filename

/-- A delivery after the answer to its next output. -/
def meet (d : Delivery σ) (x : Prepared) (s : σ) : Except EmitFault String → Delivery σ
  | .ok path                        =>
    { d.announce x with state := s, outputs := d.outputs ++ [x.emitted path] }
  | .error .io                      =>
    { d.announce x with
      state := s
      warnings := (d.announce x).warnings ++ [.emitFailed x.rendered.filename] }
  | .error (.noDestination filename) =>
    { d.announce x with state := s, fault := some (.noDestination filename) }

variable {em : Emitter σ} {d : Delivery σ} {x : Prepared} {s : σ}
  {answer : Except EmitFault String}

@[simp] theorem state_meet : (d.meet x s answer).state = s := by
  rcases answer with (_ | _) | _ <;> rfl

@[simp] theorem outputs_meet :
    (d.meet x s answer).outputs = d.outputs ++ (emitted? (x, answer)).toList := by
  rcases answer with (_ | _) | _ <;> simp [meet, announce, emitted?]

@[simp] theorem warnings_meet :
    (d.meet x s answer).warnings = d.warnings ++ warningsFor (x, answer) := by
  rcases answer with (_ | _) | _ <;> simp [meet, announce, warningsFor]

theorem fault_meet_of_stops (h : Stops answer) : (d.meet x s answer).fault ≠ none := by
  rcases answer with (_ | _) | _
  · exact Option.some_ne_none _
  · exact h.elim
  · exact h.elim

/-- One step of a delivery. -/
theorem run_ok (h : em.emit d.state x.rendered = (s, answer))
    (rest : List (Except DocumentFault Prepared)) :
    run em d (.ok x :: rest) =
      if Stops answer then d.meet x s answer else run em (d.meet x s answer) rest := by
  have h : em.emit (d.announce x).state x.rendered = (s, answer) := h
  rw [run]
  simp only [h]
  rcases answer with (_ | _) | _ <;> rfl

theorem reached_ok {s₀ : σ} (h : em.emit s₀ x.rendered = (s, answer))
    (rest : List (Except DocumentFault Prepared)) :
    reached em s₀ (.ok x :: rest) =
      (x, answer) :: if Stops answer then [] else reached em s rest := by
  simp only [reached, h]

/-- The report has the outputs with a path. -/
theorem outputs_run (em : Emitter σ) (d : Delivery σ) (xs : List (Except DocumentFault Prepared)) :
    (run em d xs).outputs = d.outputs ++ (reached em d.state xs).filterMap emitted? := by
  induction xs generalizing d with
  | nil => exact (List.append_nil _).symm
  | cons x xs ih =>
    cases x with
    | error f => exact (List.append_nil _).symm
    | ok x =>
      rcases h : em.emit d.state x.rendered with ⟨s, answer⟩
      rw [run_ok h, reached_ok h]
      split <;> cases he : emitted? (x, answer) <;> simp [ih, he]

/-- Every output that is reached leaves its warnings. -/
theorem warnings_run (em : Emitter σ) (d : Delivery σ)
    (xs : List (Except DocumentFault Prepared)) :
    (run em d xs).warnings = d.warnings ++ (reached em d.state xs).flatMap warningsFor := by
  induction xs generalizing d with
  | nil => exact (List.append_nil _).symm
  | cons x xs ih =>
    cases x with
    | error f => exact (List.append_nil _).symm
    | ok x =>
      rcases h : em.emit d.state x.rendered with ⟨s, answer⟩
      rw [run_ok h, reached_ok h]
      split <;> simp [ih]

/-- A delivery without a fault came to every output, and stopped at none. -/
theorem eq_reached_of_no_fault {xs : List (Except DocumentFault Prepared)}
    (h : (run em d xs).fault = none) :
    xs = (reached em d.state xs).map (fun p => .ok p.1) ∧
      ∀ p ∈ reached em d.state xs, ¬ Stops p.2 := by
  induction xs generalizing d with
  | nil => exact ⟨rfl, fun p hp => absurd hp List.not_mem_nil⟩
  | cons x xs ih =>
    cases x with
    | error f => exact absurd h (Option.some_ne_none _)
    | ok x =>
      rcases hx : em.emit d.state x.rendered with ⟨s, answer⟩
      rw [run_ok hx] at h
      rw [reached_ok hx]
      split at h
      case isTrue hs => exact absurd h (fault_meet_of_stops hs)
      case isFalse hs =>
        obtain ⟨hxs, hp⟩ := ih h
        rw [state_meet] at hxs hp
        rw [if_neg hs]
        exact ⟨congrArg (.ok x :: ·) hxs, List.forall_mem_cons.mpr ⟨hs, hp⟩⟩

end Delivery

/-! ### The answers to a finish -/

namespace Assembler

/-- The outputs that a delivery over a base document comes to, each with the answer that it gets. -/
def answers (a : Assembler) (base : Document) (em : Emitter σ) (s : σ) :
    List (Prepared × Except EmitFault String) :=
  Delivery.reached em s (a.prepared base)

/-- The warnings that a delivery over a base document records. -/
def recorded (a : Assembler) (base : Document) (em : Emitter σ) (s : σ) : List Warning :=
  a.context.strategyWarnings ++ (a.answers base em s).flatMap Delivery.warningsFor

variable {a : Assembler} {base : Document} {em : Emitter σ} {s : σ}

/-- What a delivery records is for the strategy, for the name of an output, or for its failure. -/
theorem cases_of_mem_recorded {w : Warning} (h : w ∈ a.recorded base em s) :
    (∃ name, w = .unknownNamingStrategy name) ∨ (∃ filename, w = .unresolvedFilename filename) ∨
      ∃ filename, w = .emitFailed filename := by
  have hname : ∀ filename, w ∈ FilenameRule.warnings filename →
      ∃ filename, w = .unresolvedFilename filename := by
    intro filename hw
    rw [FilenameRule.warnings] at hw
    split at hw
    · exact ⟨filename, List.mem_singleton.mp hw⟩
    · cases hw
  rcases List.mem_append.mp h with hstrategy | hanswers
  · rw [Context.strategyWarnings] at hstrategy
    split at hstrategy
    · split at hstrategy
      · exact .inl ⟨_, List.mem_singleton.mp hstrategy⟩
      · cases hstrategy
    · cases hstrategy
  · obtain ⟨p, -, hp⟩ := List.mem_flatMap.mp hanswers
    unfold Delivery.warningsFor at hp
    split at hp
    · rcases List.mem_append.mp hp with hp | hp
      · exact .inr (.inl (hname _ hp))
      · exact .inr (.inr ⟨_, List.mem_singleton.mp hp⟩)
    · exact .inr (.inl (hname _ hp))

theorem outputs_delivery (a : Assembler) (base : Document) (em : Emitter σ) (s : σ) :
    (a.delivery base em s).outputs = (a.answers base em s).filterMap Delivery.emitted? :=
  Delivery.outputs_run em _ _

theorem warnings_delivery (a : Assembler) (base : Document) (em : Emitter σ) (s : σ) :
    (a.delivery base em s).warnings = a.recorded base em s :=
  Delivery.warnings_run em _ _

/-- A finish that gives a report came to every output. -/
theorem prepared_eq_of_no_fault (h : (a.delivery base em s).fault = none) :
    a.prepared base = (a.answers base em s).map (fun p => .ok p.1) ∧
      ∀ p ∈ a.answers base em s, ¬ Delivery.Stops p.2 :=
  Delivery.eq_reached_of_no_fault h

/-- An output is ready to be emitted as that which it is prepared to. -/
def PreparesTo (a : Assembler) (base : Document) : OutputDocument → Prepared → Prop := fun o x =>
  a.context.prepare (a.outputs base).length o = .ok x

theorem forall₂_preparesTo_iff {xs : List Prepared} :
    List.Forall₂ (a.PreparesTo base) (a.outputs base) xs ↔ a.prepared base = xs.map .ok := by
  rw [prepared, ← List.forall₂_eq_eq_eq, List.forall₂_map_left_iff, List.forall₂_map_right_iff]
  rfl

theorem keys_of_preparesTo {xs : List Prepared}
    (h : List.Forall₂ (a.PreparesTo base) (a.outputs base) xs) :
    (a.outputs base).map OutputDocument.key = xs.map fun x => x.rendered.key := by
  rw [← List.forall₂_eq_eq_eq, List.forall₂_map_left_iff, List.forall₂_map_right_iff]
  exact h.imp fun o x ho => (Context.output_of_prepare_eq_ok ho).2.1.symm

theorem keys_answers (h : (a.delivery base em s).fault = none) :
    (a.outputs base).map OutputDocument.key =
      (a.answers base em s).map fun p => p.1.rendered.key := by
  have hprepared : a.prepared base = ((a.answers base em s).map Prod.fst).map .ok := by
    rw [List.map_map]
    exact (prepared_eq_of_no_fault h).1
  rw [keys_of_preparesTo (forall₂_preparesTo_iff.mpr hprepared), List.map_map]
  rfl

/-- No two outputs of a finish have one key. -/
theorem nodup_keys_answers (h : (a.delivery base em s).fault = none) :
    ((a.answers base em s).map fun p => p.1.rendered.key).Nodup :=
  keys_answers h ▸ Partitioning.nodup_keys_outputs _ _ _

theorem fault_delivery_of_report {report : Report}
    (h : (a.deliver base em s).result = .ok report) : (a.delivery base em s).fault = none := by
  cases hf : (a.delivery base em s).fault with
  | none => rfl
  | some fault =>
    rw [deliver_of_fault hf] at h
    cases h

theorem outputs_report {report : Report} (h : (a.deliver base em s).result = .ok report) :
    report.outputs = (a.answers base em s).filterMap Delivery.emitted? := by
  rw [deliver_of_no_fault (fault_delivery_of_report h)] at h
  obtain rfl := Except.ok.inj h
  exact a.outputs_delivery base em s

/-- An entry of a report is that of an output with a path. -/
theorem exists_mem_answers {report : Report} (h : (a.deliver base em s).result = .ok report)
    {e : EmittedOutput} (he : e ∈ report.outputs) :
    ∃ x path, (x, .ok path) ∈ a.answers base em s ∧ x.rendered.key = e.key := by
  rw [outputs_report h] at he
  obtain ⟨⟨x, answer⟩, hp, he⟩ := List.mem_filterMap.mp he
  cases answer with
  | error _ => cases he
  | ok path =>
    obtain rfl := Option.some.inj he
    exact ⟨x, path, hp, rfl⟩

/-- **The outputs in a report.**  All outputs of a finish are in its report exactly when none of
them could not be written. -/
theorem all_emitted_iff {report : Report} (h : (a.deliver base em s).result = .ok report) :
    (∀ o ∈ a.outputs base, ∃ e ∈ report.outputs, e.key = o.key) ↔
      ∀ p ∈ a.answers base em s, p.2 ≠ .error .io := by
  have hf := fault_delivery_of_report h
  have hkeys := keys_answers hf
  constructor
  · rintro hall ⟨x, answer⟩ hx rfl
    -- The key of the output that failed is that of another one, with a path.
    obtain ⟨o, ho, hxo⟩ : ∃ o ∈ a.outputs base, o.key = x.rendered.key :=
      List.mem_map.mp (hkeys ▸ List.mem_map_of_mem (f := fun p => p.1.rendered.key) hx)
    obtain ⟨e, he, heo⟩ := hall o ho
    obtain ⟨y, path, hy, hye⟩ := exists_mem_answers h he
    have := List.inj_on_of_nodup_map (nodup_keys_answers hf) hx hy
      (hxo.symm.trans (heo.symm.trans hye.symm))
    cases this
  · intro hall o ho
    obtain ⟨⟨x, answer⟩, hx, hxo⟩ : ∃ p ∈ a.answers base em s, p.1.rendered.key = o.key :=
      List.mem_map.mp (hkeys ▸ List.mem_map_of_mem ho)
    have hstop := (prepared_eq_of_no_fault hf).2 _ hx
    rcases answer with (filename | _) | path
    · exact absurd trivial hstop
    · exact absurd rfl (hall _ hx)
    · refine ⟨x.emitted path, ?_, hxo⟩
      rw [outputs_report h]
      exact List.mem_filterMap.mpr ⟨_, hx, rfl⟩

end Assembler

end ApiAssembly
