import ApiAssembly.Assembly.Assembler

/-!
# Proofs — Assembly — what a finish hands to the emitter

`Emitter.recording` is an emitter that answers as another one does and keeps what it is handed;
nothing that a finish leaves tells the two apart (`finish_recording`).  What is kept is `handed`.

A finish is processed when the assembler is `Ready`.  Unless an output has no destination, such a
finish hands over the renderings of the prepared outputs up to the first one without a document,
whatever else the emitter answers (`handed_eq_renderings`).
-/

namespace ApiAssembly

variable {σ α : Type}

/-- The emitter that also keeps what it is handed, in order. -/
def Emitter.recording (em : Emitter σ) : Emitter (σ × List Rendered) where
  emit s r := (((em.emit s.1 r).1, s.2 ++ [r]), (em.emit s.1 r).2)

/-! ### A delivery that is recorded -/

namespace Delivery

/-- A delivery without the second part of its state. -/
def forget (d : Delivery (σ × α)) : Delivery σ :=
  ⟨d.state.1, d.outputs, d.warnings, d.unresolved, d.fault⟩

/-- The renderings in front of the first output without a document. -/
def renderings : List (Except DocumentFault Prepared) → List Rendered
  | []            => []
  | .error _ :: _ => []
  | .ok x :: rest => x.rendered :: renderings rest

/-- The recorded emitter keeps what it is handed and answers as the other one does. -/
theorem emit_recording {em : Emitter σ} {d : Delivery (σ × List Rendered)} {r : Rendered} {s : σ}
    {answer : Except EmitFault String} (h : em.emit d.state.1 r = (s, answer)) :
    em.recording.emit d.state r = ((s, d.state.2 ++ [r]), answer) := by
  simp only [Emitter.recording, h]

/-- But for what was kept, a delivery runs as it does without recording. -/
theorem forget_run_recording (em : Emitter σ) (d : Delivery (σ × List Rendered))
    (xs : List (Except DocumentFault Prepared)) :
    (run em.recording d xs).forget = run em d.forget xs := by
  induction xs generalizing d with
  | nil => rfl
  | cons x xs ih =>
    cases x with
    | error f => rfl
    | ok x =>
      rcases h : em.emit d.state.1 x.rendered with ⟨s, answer⟩
      have hr := emit_recording h
      rcases answer with (filename | _) | path
      · simp only [run, announce, forget, h, hr]
      · simp only [run, announce, forget, h, hr]
        exact ih _
      · simp only [run, announce, forget, h, hr]
        exact ih _

/-- A delivery in which no output lacks a destination hands over its renderings in order. -/
theorem state_run_recording {em : Emitter σ} {d : Delivery (σ × List Rendered)}
    {xs : List (Except DocumentFault Prepared)}
    (hd : ∀ filename, (run em d.forget xs).fault ≠ some (.noDestination filename)) :
    (run em.recording d xs).state.2 = d.state.2 ++ renderings xs := by
  induction xs generalizing d with
  | nil => exact (List.append_nil _).symm
  | cons x xs ih =>
    cases x with
    | error f => exact (List.append_nil _).symm
    | ok x =>
      rcases h : em.emit d.state.1 x.rendered with ⟨s, answer⟩
      have hr := emit_recording h
      rw [renderings, List.append_cons]
      -- The delivery goes on but for an output without a destination, of which there is none.
      rcases answer with (filename | _) | path
      · refine absurd ?_ (hd filename)
        simp only [run, announce, forget, h]
      · simp only [run, announce, forget, h, hr] at hd ⊢
        exact ih hd
      · simp only [run, announce, forget, h, hr] at hd ⊢
        exact ih hd

/-- An emitter that has a destination for everything never ends a delivery. -/
theorem fault_run_ne_noDestination {em : Emitter σ}
    (hem : ∀ s r filename, (em.emit s r).2 ≠ .error (.noDestination filename))
    {d : Delivery σ} (filename : String) (hd : d.fault ≠ some (.noDestination filename))
    (xs : List (Except DocumentFault Prepared)) :
    (run em d xs).fault ≠ some (.noDestination filename) := by
  induction xs generalizing d with
  | nil => exact hd
  | cons x xs ih =>
    cases x with
    | error f => exact nofun
    | ok x =>
      rcases h : em.emit d.state x.rendered with ⟨s, answer⟩
      rcases answer with (other | _) | path
      · exact absurd (congrArg Prod.snd h) (hem _ _ other)
      · simp only [run, announce, h]
        exact ih hd
      · simp only [run, announce, h]
        exact ih hd

end Delivery

/-! ### A finish that is recorded -/

/-- A finish without the second part of its state. -/
def Finish.forget (f : Finish (σ × α)) : Finish σ := ⟨f.assembler, f.state.1, f.result⟩

namespace Assembler

/-- What a finish hands to the emitter. -/
def handed (a : Assembler) (em : Emitter σ) (s : σ) : List Rendered :=
  (a.finish em.recording (s, [])).state.2

/-- The delivery of the outputs over a base document. -/
def delivery (a : Assembler) (base : Document) (em : Emitter σ) (s : σ) : Delivery σ :=
  Delivery.run em { state := s, warnings := a.context.strategyWarnings } (a.prepared base)

/-- A fault leaves the warnings of the delivery behind and reports nothing. -/
theorem deliver_of_fault {a : Assembler} {base : Document} {em : Emitter σ} {s : σ}
    {fault : FinishFault} (h : (a.delivery base em s).fault = some fault) :
    a.deliver base em s =
      { assembler := { a with warnings := a.warnings ++ (a.delivery base em s).warnings }
        state := (a.delivery base em s).state
        result := .error fault } := by
  rw [delivery] at h ⊢
  simp only [deliver, h]

/-- Without a fault the warnings are handed out and what was observed counts as emitted. -/
theorem deliver_of_no_fault {a : Assembler} {base : Document} {em : Emitter σ} {s : σ}
    (h : (a.delivery base em s).fault = none) :
    a.deliver base em s =
      { assembler := { a with warnings := [], emittedAt := some a.observed }
        state := (a.delivery base em s).state
        result := .ok
          { outputs := (a.delivery base em s).outputs
            warnings := a.warnings ++ (a.delivery base em s).warnings ++
              unresolvedWarnings (a.delivery base em s).unresolved } } := by
  rw [delivery] at h ⊢
  simp only [deliver, h]

/-- The fault of a finish is that of its delivery. -/
theorem result_deliver_eq_error_iff {a : Assembler} {base : Document} {em : Emitter σ} {s : σ}
    {fault : FinishFault} :
    (a.deliver base em s).result = .error fault ↔ (a.delivery base em s).fault = some fault := by
  cases h : (a.delivery base em s).fault with
  | none => simp [deliver_of_no_fault h]
  | some other => simp [deliver_of_fault h]

theorem state_deliver (a : Assembler) (base : Document) (em : Emitter σ) (s : σ) :
    (a.deliver base em s).state = (a.delivery base em s).state := by
  cases h : (a.delivery base em s).fault with
  | none => rw [deliver_of_no_fault h]
  | some fault => rw [deliver_of_fault h]

/-- The delivery of a run is the same when it is recorded. -/
theorem forget_delivery_recording (a : Assembler) (base : Document) (em : Emitter σ) (s : σ)
    (log : List Rendered) :
    (a.delivery base em.recording (s, log)).forget = a.delivery base em s :=
  Delivery.forget_run_recording em _ _

theorem forget_deliver_recording (a : Assembler) (base : Document) (em : Emitter σ) (s : σ)
    (log : List Rendered) :
    (a.deliver base em.recording (s, log)).forget = a.deliver base em s := by
  have h := a.forget_delivery_recording base em s log
  have hfault : (a.delivery base em.recording (s, log)).fault = (a.delivery base em s).fault :=
    congrArg Delivery.fault h
  cases hf : (a.delivery base em s).fault with
  | none =>
    rw [deliver_of_no_fault hf, deliver_of_no_fault (hfault.trans hf), ← h]
    rfl
  | some fault =>
    rw [deliver_of_fault hf, deliver_of_fault (hfault.trans hf), ← h]
    rfl

/-- Recording changes nothing of what a finish leaves. -/
theorem finish_recording (a : Assembler) (em : Emitter σ) (s : σ) (log : List Rendered) :
    (a.finish em.recording (s, log)).forget = a.finish em s := by
  rw [finish, finish]
  split
  · rfl
  · split
    · exact a.forget_deliver_recording _ em s log
    · rfl

/-- A finish would be processed: it is enabled, there is a base document and something to emit. -/
structure Ready (a : Assembler) : Prop where
  enabled : a.context.isEnabled
  base : a.base.isSome
  dirty : a.state = .dirty

/-- No output of a finish is without a destination. -/
def Delivers (a : Assembler) (em : Emitter σ) (s : σ) : Prop :=
  ∀ filename, (a.finish em s).result ≠ .error (.noDestination filename)

/-- A finish that is ready delivers. -/
theorem finish_of_ready {a : Assembler} {base : Document} (h : a.Ready) (hb : a.base = some base)
    (em : Emitter σ) (s : σ) : a.finish em s = a.deliver base em s := by
  rw [finish, hb]
  simp [h.enabled, h.dirty]

/-- A finish that is not ready does nothing. -/
theorem finish_of_not_ready {a : Assembler} (h : ¬ a.Ready) (em : Emitter σ) (s : σ) :
    a.finish em s = ⟨a, s, .ok {}⟩ := by
  rw [finish]
  split
  · rfl
  · rename_i base hb
    split
    · rename_i hgo
      rw [Bool.and_eq_true, beq_iff_eq] at hgo
      exact absurd ⟨hgo.1, hb ▸ rfl, hgo.2⟩ h
    · rfl

theorem handed_of_not_ready {a : Assembler} (h : ¬ a.Ready) (em : Emitter σ) (s : σ) :
    a.handed em s = [] := by
  rw [handed, finish_of_not_ready h]

theorem exists_finish_eq_deliver {a : Assembler} (h : a.Ready) (em : Emitter σ) (s : σ) :
    ∃ base, a.base = some base ∧ a.finish em s = a.deliver base em s := by
  obtain ⟨base, hb⟩ := Option.isSome_iff_exists.mp h.base
  exact ⟨base, hb, finish_of_ready h hb em s⟩

/-- An emitter that has a destination for everything delivers. -/
theorem delivers_of_answers {em : Emitter σ}
    (hem : ∀ s r filename, (em.emit s r).2 ≠ .error (.noDestination filename)) (a : Assembler)
    (s : σ) : a.Delivers em s := by
  intro filename
  rw [finish]
  split
  · exact nofun
  · split
    · rw [Ne, result_deliver_eq_error_iff]
      refine Delivery.fault_run_ne_noDestination hem filename ?_ _
      exact nofun
    · exact nofun

/-- A finish takes no input. -/
theorem observed_finish (a : Assembler) (em : Emitter σ) (s : σ) :
    (a.finish em s).assembler.observed = a.observed := by
  obtain ⟨at?, ws, h⟩ := a.finish_inputs em s
  rw [h]

/-- A finish leaves the emission point where it was, or puts it behind all inputs. -/
theorem emittedAt_finish (a : Assembler) (em : Emitter σ) (s : σ) :
    (a.finish em s).assembler.emittedAt = a.emittedAt ∨
      (a.finish em s).assembler.emittedAt = some a.observed := by
  rw [finish]
  split
  · exact .inl rfl
  · split
    · rename_i base _ _
      cases h : (a.delivery base em s).fault with
      | none => exact .inr (by rw [deliver_of_no_fault h])
      | some fault => exact .inl (by rw [deliver_of_fault h])
    · exact .inl rfl

/-- **What a processed finish hands over** does not depend on what the emitter answers. -/
theorem handed_eq_renderings {a : Assembler} {base : Document} (h : a.Ready)
    (hb : a.base = some base) {em : Emitter σ} {s : σ} (hd : a.Delivers em s) :
    a.handed em s = Delivery.renderings (a.prepared base) := by
  have hf : ∀ filename, (a.delivery base em s).fault ≠ some (.noDestination filename) := by
    intro filename hn
    refine hd filename ?_
    rwa [finish_of_ready h hb, result_deliver_eq_error_iff]
  rw [handed, finish_of_ready h hb, state_deliver]
  exact Delivery.state_run_recording hf

end Assembler

end ApiAssembly
