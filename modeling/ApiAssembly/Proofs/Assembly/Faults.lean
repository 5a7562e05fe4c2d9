import ApiAssembly.Proofs.Assembly.Settling

/-!
# Proofs — Assembly — what a finish with a fault leaves behind

The warnings that wait for a report are carried along and never looked at.  An input adds its own
behind them (`exists_take_withWarnings`); a finish is skipped, or it ends in a fault and adds its
own, or it gives a report with those that waited and its own behind them (`finish_withWarnings`).

So a finish with a fault leaves the assembler as it was but for the warnings that it recorded, which
go on waiting: an assembler that `Trails` the one without them.  Inputs and finishes without a
report keep this difference, the next report takes it along and ends it (`Trails.foldl_call`), and
that is all that the fault does to later calls (`finish_fault_leaves`).
-/

namespace ApiAssembly

variable {σ τ : Type}

namespace Assembler

/-- The assembler with other warnings that wait for a report. -/
def withWarnings (a : Assembler) (ws : List Warning) : Assembler := { a with warnings := ws }

/-- The assembler behind a report. -/
def reported (a : Assembler) : Assembler :=
  { a with warnings := [], emittedAt := some a.observed }

/-! ### Calls do not look at the warnings that wait -/

/-- An input adds its own warnings behind those that wait. -/
theorem exists_take_withWarnings (a : Assembler) (i : Input) :
    ∃ (b : Assembler) (own : List Warning),
      ∀ ws, (a.withWarnings ws).take i = b.withWarnings (ws ++ own) := by
  cases i with
  | visit files d => exact ⟨a.visit files d, (a.nextBase files d).2, fun _ => rfl⟩
  | record e =>
    exact ⟨a.record [e], [],
      fun ws => congrArg (a.record [e]).withWarnings (List.append_nil ws).symm⟩
  | recordAll es =>
    exact ⟨a.record es, [],
      fun ws => congrArg (a.record es).withWarnings (List.append_nil ws).symm⟩
  | register group d =>
    exact ⟨a.register group d, [],
      fun ws => congrArg (a.register group d).withWarnings (List.append_nil ws).symm⟩

theorem ready_withWarnings (a : Assembler) (ws : List Warning) :
    (a.withWarnings ws).Ready ↔ a.Ready :=
  ⟨fun h => ⟨h.enabled, h.base, h.dirty⟩, fun h => ⟨h.enabled, h.base, h.dirty⟩⟩

theorem delivery_withWarnings (a : Assembler) (ws : List Warning) (base : Document)
    (em : Emitter σ) (s : σ) :
    (a.withWarnings ws).delivery base em s = a.delivery base em s := rfl

/-- **What a finish does**, whatever warnings wait: it is skipped, or it ends in a fault, or it
gives a report. -/
theorem finish_withWarnings (a : Assembler) (em : Emitter σ) (s : σ) :
    (¬ a.Ready ∧ ∀ ws, (a.withWarnings ws).finish em s = ⟨a.withWarnings ws, s, .ok {}⟩) ∨
    (∃ base s' fault, a.base = some base ∧ ∀ ws, (a.withWarnings ws).finish em s =
      ⟨a.withWarnings (ws ++ a.recorded base em s), s', .error fault⟩) ∨
    (a.Ready ∧ ∃ base s' outputs tokens, ∀ ws, (a.withWarnings ws).finish em s =
      ⟨a.reported, s', .ok ⟨outputs,
        ws ++ (a.recorded base em s ++ unresolvedWarnings tokens)⟩⟩) := by
  by_cases hr : a.Ready
  · obtain ⟨base, hb⟩ := Option.isSome_iff_exists.mp hr.base
    have hfinish : ∀ ws, (a.withWarnings ws).finish em s = (a.withWarnings ws).deliver base em s :=
      fun ws => finish_of_ready ((a.ready_withWarnings ws).mpr hr) hb em s
    cases hf : (a.delivery base em s).fault with
    | some fault =>
      refine .inr (.inl ⟨base, (a.delivery base em s).state, fault, hb, fun ws => ?_⟩)
      have hf : ((a.withWarnings ws).delivery base em s).fault = some fault := hf
      rw [hfinish, deliver_of_fault hf, delivery_withWarnings, warnings_delivery]
      rfl
    | none =>
      refine .inr (.inr ⟨hr, base, (a.delivery base em s).state, (a.delivery base em s).outputs,
        (a.delivery base em s).unresolved, fun ws => ?_⟩)
      have hf : ((a.withWarnings ws).delivery base em s).fault = none := hf
      rw [hfinish, deliver_of_no_fault hf, delivery_withWarnings, warnings_delivery,
        ← List.append_assoc]
      rfl
  · exact .inl ⟨hr, fun ws => finish_of_not_ready (mt (a.ready_withWarnings ws).mp hr) em s⟩

/-! ### Two assemblers that differ in such warnings -/

/-- The second assembler is the first one with more warnings waiting: `more`, right behind `us`. -/
inductive Trails (us more : List Warning) : Assembler → Assembler → Prop where
  | intro (a : Assembler) (vs : List Warning) :
      Trails us more (a.withWarnings (us ++ vs)) (a.withWarnings (us ++ more ++ vs))

/-- More warnings behind all those that wait. -/
theorem trails_withWarnings (a : Assembler) (more : List Warning) :
    a.Trails a.warnings more (a.withWarnings (a.warnings ++ more)) := by
  have h : Trails a.warnings more (a.withWarnings (a.warnings ++ []))
      (a.withWarnings (a.warnings ++ more ++ [])) := .intro a []
  rw [List.append_nil, List.append_nil] at h
  exact h

variable {us more : List Warning} {a b : Assembler}

theorem Trails.take (h : a.Trails us more b) (i : Input) :
    (a.take i).Trails us more (b.take i) := by
  obtain ⟨a, vs⟩ := h
  obtain ⟨b, own, hb⟩ := a.exists_take_withWarnings i
  rw [hb, hb, List.append_assoc us, List.append_assoc (us ++ more)]
  exact .intro b (vs ++ own)

/-- A finish that does not report answers the same and leaves the difference. -/
theorem Trails.finish_of_not_reports (h : a.Trails us more b) {em : Emitter σ} {s : σ}
    (hr : ¬ Reports a em s) :
    (b.finish em s).state = (a.finish em s).state ∧
      (b.finish em s).result = (a.finish em s).result ∧
      (a.finish em s).assembler.Trails us more (b.finish em s).assembler := by
  obtain ⟨a, vs⟩ := h
  rcases a.finish_withWarnings em s with ⟨-, hf⟩ | ⟨base, s', fault, -, hf⟩ |
    ⟨hready, base, s', outputs, tokens, hf⟩
  · rw [hf, hf]
    exact ⟨rfl, rfl, .intro a vs⟩
  · rw [hf, hf, List.append_assoc us vs, List.append_assoc (us ++ more) vs]
    exact ⟨rfl, rfl, .intro a (vs ++ a.recorded base em s)⟩
  · exact absurd ⟨(a.ready_withWarnings _).mpr hready, _, congrArg Finish.result (hf _)⟩ hr

/-- A finish that reports takes the difference along and leaves none. -/
theorem Trails.finish_of_reports (h : a.Trails us more b) {em : Emitter σ} {s : σ}
    (hr : Reports a em s) :
    (b.finish em s).state = (a.finish em s).state ∧
      (b.finish em s).assembler = (a.finish em s).assembler ∧
      ∃ outputs vs, (a.finish em s).result = .ok ⟨outputs, us ++ vs⟩ ∧
        (b.finish em s).result = .ok ⟨outputs, us ++ more ++ vs⟩ := by
  obtain ⟨a, vs⟩ := h
  obtain ⟨hready, report, hreport⟩ := hr
  rcases a.finish_withWarnings em s with ⟨hskip, -⟩ | ⟨base, s', fault, -, hf⟩ |
    ⟨-, base, s', outputs, tokens, hf⟩
  · exact absurd ((a.ready_withWarnings _).mp hready) hskip
  · rw [hf] at hreport
    cases hreport
  · rw [hf, hf, List.append_assoc us vs, List.append_assoc (us ++ more) vs]
    exact ⟨rfl, rfl, outputs, _, rfl, rfl⟩

/-- No finish among some calls gives a report. -/
def Unreported : Assembler → List (Call σ) → Prop
  | _, []                 => True
  | a, .input i :: cs     => Unreported (a.take i) cs
  | a, .finish em s :: cs => ¬ Reports a em s ∧ Unreported (a.finish em s).assembler cs

/-- The difference stays until a report takes it along. -/
theorem Trails.foldl_call (h : a.Trails us more b) (cs : List (Call σ)) :
    (Unreported a cs ∧ (cs.foldl call a).Trails us more (cs.foldl call b)) ∨
      (¬ Unreported a cs ∧ cs.foldl call b = cs.foldl call a) := by
  induction cs generalizing a b with
  | nil => exact .inl ⟨trivial, h⟩
  | cons k cs ih =>
    cases k with
    | input i => exact ih (h.take i)
    | finish em s =>
      by_cases hr : Reports a em s
      · obtain ⟨-, hsame, -⟩ := h.finish_of_reports hr
        refine .inr ⟨fun hu => hu.1 hr, ?_⟩
        rw [List.foldl_cons, List.foldl_cons, call, call, hsame]
      · obtain ⟨-, -, htrails⟩ := h.finish_of_not_reports hr
        exact (ih htrails).imp (fun hcs => ⟨⟨hr, hcs.1⟩, hcs.2⟩)
          fun hcs => ⟨fun hu => hcs.1 hu.2, hcs.2⟩

/-! ### A finish with a fault -/

/-- A finish with a fault adds the warnings that it recorded to those that wait. -/
theorem assembler_of_fault {em : Emitter σ} {s : σ} {fault : FinishFault}
    (h : (a.finish em s).result = .error fault) :
    ∃ base, a.base = some base ∧
      (a.finish em s).assembler = a.withWarnings (a.warnings ++ a.recorded base em s) := by
  rcases a.finish_withWarnings em s with ⟨-, hf⟩ | ⟨base, s', other, hb, hf⟩ |
    ⟨-, base, s', outputs, tokens, hf⟩
  · have hskip : a.finish em s = ⟨a, s, .ok {}⟩ := hf a.warnings
    rw [hskip] at h
    cases h
  · exact ⟨base, hb, congrArg Finish.assembler (hf a.warnings)⟩
  · have hreport : a.finish em s = ⟨a.reported, s', .ok ⟨outputs,
        a.warnings ++ (a.recorded base em s ++ unresolvedWarnings tokens)⟩⟩ :=
      hf a.warnings
    rw [hreport] at h
    cases h

/-- **A finish with a fault** leaves the assembler as it was but for the warnings that it recorded,
behind those that waited; it leaves it exactly as it was when it recorded none.

Whatever calls come later, the next report has the recorded warnings right behind those that waited
at the fault, and is the same otherwise.  Every other finish, before that report or after it,
answers as if the fault had not been; and every finish leaves its emitter as it would have. -/
theorem finish_fault_leaves {em : Emitter σ} {s : σ} {fault : FinishFault}
    (h : (a.finish em s).result = .error fault) :
    ∃ base, a.base = some base ∧
      (a.finish em s).assembler = { a with warnings := a.warnings ++ a.recorded base em s } ∧
      ((a.finish em s).assembler = a ↔ a.recorded base em s = []) ∧
      ∀ (cs : List (Call τ)) (em' : Emitter τ) (s' : τ),
        let without := (cs.foldl call a).finish em' s'
        let behind := (cs.foldl call (a.finish em s).assembler).finish em' s'
        behind.state = without.state ∧
        (Unreported a cs → Reports (cs.foldl call a) em' s' →
          ∃ outputs ws, without.result = .ok ⟨outputs, a.warnings ++ ws⟩ ∧
            behind.result = .ok ⟨outputs, a.warnings ++ a.recorded base em s ++ ws⟩) ∧
        (¬ (Unreported a cs ∧ Reports (cs.foldl call a) em' s') →
          behind.result = without.result) := by
  obtain ⟨base, hb, ha⟩ := assembler_of_fault h
  refine ⟨base, hb, ha, ?_, fun cs em' s' => ?_⟩
  · rw [ha]
    constructor
    · intro heq
      exact List.append_right_eq_self.mp (congrArg Assembler.warnings heq)
    · intro hnil
      rw [hnil, List.append_nil]
      rfl
  · have htrails : a.Trails a.warnings (a.recorded base em s) (a.finish em s).assembler := by
      rw [ha]
      exact trails_withWarnings a (a.recorded base em s)
    rcases htrails.foldl_call cs with ⟨hcs, htrails⟩ | ⟨hcs, hsame⟩
    · by_cases hr : Reports (cs.foldl call a) em' s'
      · obtain ⟨hstate, -, hresult⟩ := htrails.finish_of_reports hr
        exact ⟨hstate, fun _ _ => hresult, fun hno => absurd ⟨hcs, hr⟩ hno⟩
      · obtain ⟨hstate, hresult, -⟩ := htrails.finish_of_not_reports hr
        exact ⟨hstate, fun _ hyes => absurd hyes hr, fun _ => hresult⟩
    · rw [hsame]
      exact ⟨rfl, fun hno => absurd hno hcs, fun _ => rfl⟩

/-- Settings with a naming strategy that is not known. -/
def camelContext : Context :=
  { layers := [.system [("apiloom.property.naming.strategy", "CAMEL")]] }

/-- An assembler with such settings, and a base document. -/
def camelPets : Assembler := fed camelContext [.visit {} petsDocument]

theorem fault_camelPets :
    (camelPets.finish (Emitter.files none none) {}).result =
      .error (.noDestination "pets-1.0.yml") := by
  decide +kernel

theorem reports_camelPets : Reports camelPets Emitter.memory [] := by
  refine ⟨⟨by decide +kernel, by decide +kernel, by decide +kernel⟩, ?_⟩
  have hok : (camelPets.finish Emitter.memory []).result.toOption.isSome := by decide +kernel
  cases hr : (camelPets.finish Emitter.memory []).result with
  | error fault => rw [hr] at hok; cases hok
  | ok report => exact ⟨report, rfl⟩

/-- The fault leaves the warning for the strategy, which goes on waiting for the next report. -/
theorem finish_fault_leaves_camelPets :
    (camelPets.finish (Emitter.files none none) {}).result =
        .error (.noDestination "pets-1.0.yml") ∧
      ∃ base, camelPets.base = some base ∧
        (camelPets.finish (Emitter.files none none) {}).assembler =
          { camelPets with
            warnings := camelPets.warnings ++
              camelPets.recorded base (Emitter.files none none) {} } ∧
        ∃ outputs ws,
          (camelPets.finish Emitter.memory []).result =
            .ok ⟨outputs, camelPets.warnings ++ ws⟩ ∧
          ((camelPets.finish (Emitter.files none none) {}).assembler.finish Emitter.memory
              []).result =
            .ok ⟨outputs, camelPets.warnings ++
              camelPets.recorded base (Emitter.files none none) {} ++ ws⟩ := by
  obtain ⟨base, hb, ha, -, hlater⟩ :=
    finish_fault_leaves (τ := List (String × String)) fault_camelPets
  obtain ⟨-, hnext, -⟩ := hlater [] Emitter.memory []
  exact ⟨fault_camelPets, base, hb, ha, hnext trivial reports_camelPets⟩

/-- After a fault the next report has the warning for the strategy twice. -/
theorem finish_fault_camelPets_ne :
    (camelPets.finish (Emitter.files none none) {}).result =
        .error (.noDestination "pets-1.0.yml") ∧
      (camelPets.finish (Emitter.files none none) {}).assembler ≠ camelPets ∧
      (camelPets.finish Emitter.memory []).result.toOption.map Report.warnings =
        some [.unknownNamingStrategy "CAMEL"] ∧
      ((camelPets.finish (Emitter.files none none) {}).assembler.finish Emitter.memory
          []).result.toOption.map Report.warnings =
        some [.unknownNamingStrategy "CAMEL", .unknownNamingStrategy "CAMEL"] := by
  refine ⟨fault_camelPets, fun h => ?_, by decide +kernel, by decide +kernel⟩
  have hw : (camelPets.finish (Emitter.files none none) {}).assembler.warnings ≠
      camelPets.warnings := by
    decide +kernel
  exact hw (congrArg Assembler.warnings h)

end Assembler

end ApiAssembly
