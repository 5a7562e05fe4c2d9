import ApiAssembly.Proofs.Assembly.Answers
import ApiAssembly.Proofs.Assembly.History

/-!
# Proofs — Assembly — when an assembler is settled

The counters of an assembler are read off the calls that it took.  `observed` counts the inputs
(`observed_run`), and the emission point is the count before the last finish that was processed and
gave a report (`emittedAt_run_iff`).  `LastFinish` says which finish of a run is the last one of a
kind.

So a finish is processed when there is a base document and an input came after the last report
(`ready_run_iff`), and an assembler is settled when the last processed finish gave a report and no
input came after it (`settled_run_iff`).  It is then settled whatever the emitter answered: an
output that could not be written is reported and not tried again.  All outputs of that finish were
emitted exactly when none of them failed (`emitted_of_settled_iff`).
-/

namespace ApiAssembly

variable {σ : Type}

/-! ### Counting inputs -/

/-- How many inputs a call counts as: one, or one for each endpoint of a list. -/
def Input.count : Input → Nat
  | .recordAll es => es.length
  | _             => 1

/-- How many inputs there are among some calls. -/
def inputCount : List (Call σ) → Nat
  | []                => 0
  | .input i :: cs    => i.count + inputCount cs
  | .finish _ _ :: cs => inputCount cs

theorem inputCount_append (cs ds : List (Call σ)) :
    inputCount (cs ++ ds) = inputCount cs + inputCount ds := by
  induction cs with
  | nil => exact (Nat.zero_add _).symm
  | cons k cs ih =>
    cases k with
    | input i => rw [List.cons_append, inputCount, inputCount, ih, Nat.add_assoc]
    | finish em s => exact ih

theorem inputCount_input (i : Input) : inputCount [(.input i : Call σ)] = i.count := rfl

theorem inputCount_finish (em : Emitter σ) (s : σ) (cs : List (Call σ)) :
    inputCount (.finish em s :: cs) = inputCount cs := rfl

namespace Assembler

variable {c : Context} {cs before after : List (Call σ)} {em : Emitter σ} {s : σ}

theorem run_concat (c : Context) (cs : List (Call σ)) (k : Call σ) :
    run c (cs ++ [k]) = (run c cs).call k := by
  rw [run, List.foldl_append, ← run, List.foldl_cons, List.foldl_nil]

theorem observed_take (a : Assembler) (i : Input) :
    (a.take i).observed = a.observed + i.count := by
  cases i with
  | visit files d => exact observed_visit a files d
  | record e => exact observed_record a [e]
  | recordAll es => exact observed_record a es
  | register group d => exact observed_register a group d

theorem observed_run (c : Context) (cs : List (Call σ)) :
    (run c cs).observed = inputCount cs := by
  induction cs using List.reverseRecOn with
  | nil => rfl
  | append_singleton cs k ih =>
    rw [run_concat, inputCount_append, ← ih]
    cases k with
    | input i => rw [inputCount_input]; exact observed_take _ i
    | finish em s => exact observed_finish _ em s

theorem context_run (c : Context) (cs : List (Call σ)) : (run c cs).context = c := by
  induction cs using List.reverseRecOn with
  | nil => rfl
  | append_singleton cs k ih =>
    rw [run_concat]
    cases k with
    | input i => exact (context_take _ i).trans ih
    | finish em s =>
      obtain ⟨at?, ws, h⟩ := (run c cs).finish_inputs em s
      rw [call, h]
      exact ih

theorem isSome_base_take (a : Assembler) (i : Input) :
    (a.take i).base.isSome = (a.base.isSome || i.base?.isSome) := by
  cases i with
  | visit files d => exact (Bool.or_true _).symm
  | record e => exact (Bool.or_false _).symm
  | recordAll es => exact (Bool.or_false _).symm
  | register group d => exact (Bool.or_false _).symm

/-- There is a base document once one came. -/
theorem isSome_base_run (c : Context) (cs : List (Call σ)) :
    (run c cs).base.isSome = (inputsOf cs).any fun i => i.base?.isSome := by
  induction cs using List.reverseRecOn with
  | nil => rfl
  | append_singleton cs k ih =>
    rw [run_concat]
    cases k with
    | input i =>
      rw [call, isSome_base_take, ih]
      simp [inputsOf]
    | finish em s =>
      obtain ⟨at?, ws, h⟩ := (run c cs).finish_inputs em s
      rw [call, h]
      simpa [inputsOf] using ih

/-! ### The last finish of a kind -/

/-- The last finish of some calls that is of a kind: the calls before it and after it. -/
structure LastFinish (c : Context) (kind : Assembler → Emitter σ → σ → Prop)
    (cs before : List (Call σ)) (em : Emitter σ) (s : σ) (after : List (Call σ)) : Prop where
  calls : cs = before ++ .finish em s :: after
  holds : kind (run c before) em s
  last : ∀ between em' s' rest, after = between ++ .finish em' s' :: rest →
    ¬ kind (run c (before ++ .finish em s :: between)) em' s'

/-- A finish that is processed. -/
def Processed (a : Assembler) (_ : Emitter σ) (_ : σ) : Prop := a.Ready

/-- A finish that is processed and gives a report. -/
def Reports (a : Assembler) (em : Emitter σ) (s : σ) : Prop :=
  a.Ready ∧ ∃ report, (a.finish em s).result = .ok report

namespace LastFinish

variable {kind : Assembler → Emitter σ → σ → Prop}

theorem ne_nil : ¬ LastFinish c kind [] before em s after :=
  fun h => List.append_ne_nil_of_right_ne_nil _ (List.cons_ne_nil _ _) h.calls.symm

/-- One more call is the last finish of the kind, or it is behind it. -/
theorem concat_iff {k : Call σ} :
    LastFinish c kind (cs ++ [k]) before em s after ↔
      (k = .finish em s ∧ cs = before ∧ after = [] ∧ kind (run c cs) em s) ∨
      ∃ between, after = between ++ [k] ∧ LastFinish c kind cs before em s between ∧
        ∀ em' s', k = .finish em' s' → ¬ kind (run c cs) em' s' := by
  constructor
  · intro h
    rcases List.eq_nil_or_concat' after with rfl | ⟨between, k', rfl⟩
    · obtain ⟨rfl, hk⟩ := List.append_inj' h.calls rfl
      obtain rfl := List.singleton_inj.mp hk
      exact .inl ⟨rfl, rfl, rfl, h.holds⟩
    · have hcalls := h.calls
      rw [← List.cons_append, ← List.append_assoc] at hcalls
      obtain ⟨rfl, hk⟩ := List.append_inj' hcalls rfl
      obtain rfl := List.singleton_inj.mp hk
      refine .inr ⟨between, rfl, ⟨rfl, h.holds, fun b em' s' rest hb => ?_⟩, ?_⟩
      · exact h.last b em' s' (rest ++ [k]) (by rw [hb, List.append_assoc, List.cons_append])
      · rintro em' s' rfl
        exact h.last between em' s' [] rfl
  · rintro (⟨rfl, rfl, rfl, hk⟩ | ⟨between, rfl, h, hk⟩)
    · exact ⟨rfl, hk, fun b em' s' rest hb => absurd hb.symm (by simp)⟩
    · refine ⟨by rw [h.calls, List.append_assoc, List.cons_append], h.holds, ?_⟩
      intro b em' s' rest hb
      rcases List.eq_nil_or_concat' rest with rfl | ⟨rest, k', rfl⟩
      · obtain ⟨rfl, hk'⟩ := List.append_inj' hb rfl
        rw [← h.calls]
        exact hk em' s' (List.singleton_inj.mp hk')
      · rw [← List.cons_append, ← List.append_assoc] at hb
        exact h.last b em' s' rest (List.append_inj' hb rfl).1

/-- A finish is the last one of its kind for the calls up to any later one. -/
theorem upTo {between rest : List (Call σ)}
    (h : LastFinish c kind cs before em s (between ++ rest)) :
    LastFinish c kind (before ++ .finish em s :: between) before em s between where
  calls := rfl
  holds := h.holds
  last b em' s' rest' hb := h.last b em' s' (rest' ++ rest) (by rw [hb]; simp)

/-- No finish of the kind is behind the last one. -/
theorem not_behind {before' after' : List (Call σ)} {em' : Emitter σ} {s' : σ} {x : List (Call σ)}
    (h : LastFinish c kind cs before em s after) (h' : LastFinish c kind cs before' em' s' after')
    (hb : before' = before ++ x) (hx : .finish em s :: after = x ++ .finish em' s' :: after') :
    x = [] := by
  cases x with
  | nil => rfl
  | cons k between =>
    obtain ⟨rfl, hafter⟩ := List.cons.inj hx
    exact absurd (hb ▸ h'.holds) (h.last between em' s' after' hafter)

/-- There is one last finish of a kind at most. -/
theorem unique {before' after' : List (Call σ)} {em' : Emitter σ} {s' : σ}
    (h : LastFinish c kind cs before em s after)
    (h' : LastFinish c kind cs before' em' s' after') :
    before' = before ∧ em' = em ∧ s' = s := by
  rcases List.append_eq_append_iff.mp (h.calls.symm.trans h'.calls) with ⟨x, hb, hx⟩ | ⟨x, hb, hx⟩
  · obtain rfl := h.not_behind h' hb hx
    obtain ⟨hk, -⟩ := List.cons.inj hx
    obtain ⟨rfl, rfl⟩ := Call.finish.inj hk
    exact ⟨hb.trans (List.append_nil _), rfl, rfl⟩
  · obtain rfl := h'.not_behind h hb hx
    obtain ⟨hk, -⟩ := List.cons.inj hx
    obtain ⟨rfl, rfl⟩ := Call.finish.inj hk
    exact ⟨(hb.trans (List.append_nil _)).symm, rfl, rfl⟩

theorem inputCount_eq (h : LastFinish c kind cs before em s after) :
    inputCount cs = inputCount before + inputCount after := by
  rw [h.calls, inputCount_append, inputCount_finish]

end LastFinish

/-! ### What a finish does to the emission point -/

theorem emittedAt_of_reports {a : Assembler} (h : Reports a em s) :
    (a.finish em s).assembler.emittedAt = some a.observed := by
  obtain ⟨hr, report, h⟩ := h
  obtain ⟨base, -, hd⟩ := exists_finish_eq_deliver hr em s
  rw [hd] at h ⊢
  rw [deliver_of_no_fault (fault_delivery_of_report h)]

/-- A finish without a report, or one that is not processed, leaves the emission point. -/
theorem emittedAt_of_not_reports {a : Assembler} (h : ¬ Reports a em s) :
    (a.finish em s).assembler.emittedAt = a.emittedAt := by
  by_cases hr : a.Ready
  · obtain ⟨base, -, hd⟩ := exists_finish_eq_deliver hr em s
    cases hres : (a.finish em s).result with
    | ok report => exact absurd ⟨hr, report, hres⟩ h
    | error fault =>
      rw [hd] at hres ⊢
      exact emittedAt_deliver_of_error hres
  · rw [finish_of_not_ready hr]

/-- **The emission point** is the number of inputs before the last finish that gave a report. -/
theorem emittedAt_run_iff (c : Context) (cs : List (Call σ)) (n : Nat) :
    (run c cs).emittedAt = some n ↔
      ∃ before em s after, LastFinish c Reports cs before em s after ∧ inputCount before = n := by
  induction cs using List.reverseRecOn with
  | nil =>
    refine ⟨nofun, ?_⟩
    rintro ⟨before, em, s, after, h, -⟩
    exact absurd h LastFinish.ne_nil
  | append_singleton cs k ih =>
    -- Whatever is not a new report leaves both sides as they were.
    have keep (hk : ∀ em s, k = .finish em s → ¬ Reports (run c cs) em s) :
        (∃ before em s after, LastFinish c Reports (cs ++ [k]) before em s after ∧
          inputCount before = n) ↔
        ∃ before em s after, LastFinish c Reports cs before em s after ∧ inputCount before = n := by
      constructor
      · rintro ⟨before, em, s, after, h, hn⟩
        rcases LastFinish.concat_iff.mp h with ⟨rfl, -, -, h⟩ | ⟨between, -, h, -⟩
        · exact absurd h (hk em s rfl)
        · exact ⟨before, em, s, between, h, hn⟩
      · rintro ⟨before, em, s, after, h, hn⟩
        have hl := LastFinish.concat_iff.mpr (.inr ⟨after, rfl, h, hk⟩)
        exact ⟨before, em, s, after ++ [k], hl, hn⟩
    rw [run_concat]
    cases k with
    | input i =>
      rw [keep nofun, ← ih]
      exact Iff.of_eq (congrArg (· = some n) (emittedAt_take _ i))
    | finish em s =>
      rw [call]
      by_cases hrep : Reports (run c cs) em s
      · rw [emittedAt_of_reports hrep, observed_run, Option.some.injEq]
        constructor
        · intro hn
          exact ⟨cs, em, s, [], LastFinish.concat_iff.mpr (.inl ⟨rfl, rfl, rfl, hrep⟩), hn⟩
        · rintro ⟨before, em', s', after, h, hn⟩
          rcases LastFinish.concat_iff.mp h with ⟨-, rfl, -, -⟩ | ⟨between, -, -, h⟩
          · exact hn
          · exact absurd hrep (h em s rfl)
      · rw [emittedAt_of_not_reports hrep, ih, keep]
        intro em' s' hk
        obtain ⟨rfl, rfl⟩ := Call.finish.inj hk
        exact hrep

/-! ### When a run is settled -/

/-- An assembler is settled when no input came after the last report. -/
theorem settled_iff_lastReport (c : Context) (cs : List (Call σ)) :
    (run c cs).state = .settled ↔
      ∃ before em s after, LastFinish c Reports cs before em s after ∧ inputCount after = 0 := by
  rw [state_eq_settled_iff, emittedAt_run_iff, observed_run]
  refine exists_congr fun before => exists_congr fun em => exists_congr fun s =>
    exists_congr fun after => and_congr_right fun h => ?_
  have := h.inputCount_eq
  omega

/-- As long as no input comes after a report, no finish is processed. -/
theorem not_ready_after_report (h : LastFinish c Reports cs before em s after)
    (hn : inputCount after = 0) : ¬ (run c cs).Ready := by
  intro hr
  have hs : (run c cs).state = .settled :=
    (settled_iff_lastReport c cs).mpr ⟨before, em, s, after, h, hn⟩
  exact absurd (hs.symm.trans hr.dirty) nofun

/-- A finish has something to emit: a base document came, and an input after the last report. -/
def Due (c : Context) (cs : List (Call σ)) : Prop :=
  ((inputsOf cs).any fun i => i.base?.isSome) ∧
    ∀ before em s after, LastFinish c Reports cs before em s after → 0 < inputCount after

/-- A finish is processed when it is enabled and has something to emit. -/
theorem ready_run_iff (c : Context) (cs : List (Call σ)) :
    (run c cs).Ready ↔ c.isEnabled ∧ Due c cs := by
  rw [Due, ← isSome_base_run c]
  constructor
  · intro h
    refine ⟨context_run c cs ▸ h.enabled, h.base, fun before em s after hl => ?_⟩
    by_contra hn
    exact not_ready_after_report hl (by omega) h
  · rintro ⟨he, hb, hl⟩
    refine ⟨(context_run c cs).symm ▸ he, hb, ?_⟩
    cases hs : (run c cs).state with
    | dirty => rfl
    | settled =>
      obtain ⟨before, em, s, after, h, hn⟩ := (settled_iff_lastReport c cs).mp hs
      exact absurd (hl before em s after h) (by omega)

/-- The last report of a settled run is that of its last processed finish. -/
theorem settled_iff_lastProcessed (c : Context) (cs : List (Call σ)) :
    (run c cs).state = .settled ↔
      ∃ before em s after, LastFinish c Processed cs before em s after ∧
        (∃ report, ((run c before).finish em s).result = .ok report) ∧ inputCount after = 0 := by
  rw [settled_iff_lastReport]
  constructor
  · rintro ⟨before, em, s, after, h, hn⟩
    refine ⟨before, em, s, after, ⟨h.calls, h.holds.1, ?_⟩, h.holds.2, hn⟩
    rintro between em' s' rest rfl
    refine not_ready_after_report h.upTo ?_
    rw [inputCount_append] at hn
    omega
  · rintro ⟨before, em, s, after, h, hrep, hn⟩
    refine ⟨before, em, s, after, ⟨h.calls, ⟨h.holds, hrep⟩, ?_⟩, hn⟩
    intro between em' s' rest hb hr
    exact h.last between em' s' rest hb hr.1

/-- **The phases of a run.**  The emission point is never beyond the inputs.  A finish partitions
and emits exactly when it is due; every other one hands nothing over, gives the empty report and
leaves the assembler as it was.  The run is settled exactly when its last processed finish gave a
report and no input came after it. -/
theorem phases_run (c : Context) (hc : c.isEnabled) (cs : List (Call σ)) :
    (∀ n, (run c cs).emittedAt = some n → n ≤ (run c cs).observed) ∧
    (∀ (em : Emitter σ) (s : σ),
      (Due c cs → ∃ base, (run c cs).base = some base ∧
        (run c cs).finish em s = (run c cs).deliver base em s) ∧
      (¬ Due c cs → (run c cs).finish em s = ⟨run c cs, s, .ok {}⟩ ∧
        (run c cs).handed em s = [])) ∧
    ((run c cs).state = .settled ↔
      ∃ before em s after, LastFinish c Processed cs before em s after ∧
        (∃ report, ((run c before).finish em s).result = .ok report) ∧ inputCount after = 0) := by
  refine ⟨fun n hn => ?_, fun em s => ⟨fun h => ?_, fun h => ?_⟩, settled_iff_lastProcessed c cs⟩
  · obtain ⟨before, em, s, after, h, rfl⟩ := (emittedAt_run_iff c cs n).mp hn
    rw [observed_run, h.inputCount_eq]
    exact Nat.le_add_right _ _
  · exact exists_finish_eq_deliver ((ready_run_iff c cs).mpr ⟨hc, h⟩) em s
  · have hr : ¬ (run c cs).Ready := fun hr => h ((ready_run_iff c cs).mp hr).2
    exact ⟨finish_of_not_ready hr em s, handed_of_not_ready hr em s⟩

/-- The endpoint that came after a report makes a finish due, and the next one delivers it. -/
theorem phases_emittedEarly :
    ({} : Context).isEnabled ∧ Due {} emittedEarly ∧
      ∃ base, (run {} emittedEarly).base = some base ∧
        (run {} emittedEarly).finish Emitter.memory [] =
          (run {} emittedEarly).deliver base Emitter.memory [] := by
  have henabled : ({} : Context).isEnabled := by decide
  have hdue : Due {} emittedEarly := ((ready_run_iff {} emittedEarly).mp emittedEarly_ready).2
  exact ⟨henabled, hdue, ((phases_run {} henabled emittedEarly).2.1 Emitter.memory []).1 hdue⟩

/-! ### Outputs that could not be written -/

/-- Every output of the last processed finish is in its report. -/
def AllEmitted (c : Context) (cs : List (Call σ)) : Prop :=
  ∀ before em s after base, LastFinish c Processed cs before em s after →
    (run c before).base = some base →
    ∃ report, ((run c before).finish em s).result = .ok report ∧
      ∀ o ∈ (run c before).outputs base, ∃ e ∈ report.outputs, e.key = o.key

/-- No output of the last processed finish met a failure to write it. -/
def NoneFailed (c : Context) (cs : List (Call σ)) : Prop :=
  ∀ before em s after base, LastFinish c Processed cs before em s after →
    (run c before).base = some base →
    ∀ p ∈ (run c before).answers base em s, p.2 ≠ .error .io

/-- A settled run emitted all outputs exactly when none failed. -/
theorem allEmitted_iff_noneFailed {cs : List (Call σ)} (hs : (run c cs).state = .settled) :
    AllEmitted c cs ↔ NoneFailed c cs := by
  have reported : ∀ before em s after base, LastFinish c Processed cs before em s after →
      (run c before).base = some base →
      ∃ report, ((run c before).finish em s).result = .ok report ∧
        ((∀ o ∈ (run c before).outputs base, ∃ e ∈ report.outputs, e.key = o.key) ↔
          ∀ p ∈ (run c before).answers base em s, p.2 ≠ .error .io) := by
    intro before em s after base hl hb
    obtain ⟨before', em', s', after', hl', ⟨report, hr⟩, -⟩ :=
      (settled_iff_lastProcessed c cs).mp hs
    obtain ⟨rfl, rfl, rfl⟩ := hl.unique hl'
    refine ⟨report, hr, all_emitted_iff ?_⟩
    rw [← finish_of_ready hl.holds hb]
    exact hr
  constructor
  · intro h before em s after base hl hb
    obtain ⟨report, hr, hiff⟩ := reported before em s after base hl hb
    obtain ⟨report', hr', hall⟩ := h before em s after base hl hb
    obtain rfl := Except.ok.inj (hr.symm.trans hr')
    exact hiff.mp hall
  · intro h before em s after base hl hb
    obtain ⟨report, hr, hiff⟩ := reported before em s after base hl hb
    exact ⟨report, hr, hiff.mpr (h before em s after base hl hb)⟩

/-- **Settled runs and failures.**  To be settled means that everything was emitted exactly for the
runs of which, once settled, no output of the last processed finish has failed.  For a finish that
gave a report leaves the run settled in any case. -/
theorem emitted_when_settled_iff (c : Context) (cs : List (Call σ)) :
    (((run c cs).state = .settled → AllEmitted c cs) ↔
      ((run c cs).state = .settled → NoneFailed c cs)) ∧
    ∀ (em : Emitter σ) (s : σ), Reports (run c cs) em s →
      ((run c cs).finish em s).assembler.state = .settled := by
  refine ⟨imp_congr_right allEmitted_iff_noneFailed, fun em s h => ?_⟩
  rw [state_eq_settled_iff, emittedAt_of_reports h, observed_finish]

/-- A document with a title and a version. -/
def petsDocument : Document := { info := some { title := "Pets", version := "1.0" } }

/-- A file tree with a directory in the place of the output. -/
def blockedTree : FileTree :=
  { entries := [(["out"], .directory), (["out", "pets-1.0.yml"], .directory)] }

/-- A run whose only output cannot be written. -/
def blockedRun : List (Call FileTree) :=
  [.input (.visit {} petsDocument), .finish (Emitter.files none (some "out")) blockedTree]

theorem blockedRun_lastFinish :
    LastFinish {} Processed blockedRun [.input (.visit {} petsDocument)]
      (Emitter.files none (some "out")) blockedTree [] where
  calls := rfl
  holds := ⟨by decide +kernel, by decide +kernel, by decide +kernel⟩
  last between em s rest h := absurd h.symm (by simp)

/-- The run is settled, and its output was not emitted. -/
theorem not_allEmitted_blockedRun :
    (run {} blockedRun).state = .settled ∧ ¬ AllEmitted {} blockedRun := by
  refine ⟨by decide +kernel, fun h => ?_⟩
  obtain ⟨report, hr, hall⟩ := h _ _ _ _ petsDocument blockedRun_lastFinish rfl
  have hempty : ((run {} [(.input (.visit {} petsDocument) : Call FileTree)]).finish
      (Emitter.files none (some "out")) blockedTree).result.toOption.map Report.outputs =
        some [] := by
    decide +kernel
  rw [hr] at hempty
  have hnil : report.outputs = [] := Option.some.inj hempty
  obtain ⟨o, ho⟩ : ∃ o, o ∈ (run {} [(.input (.visit {} petsDocument) : Call FileTree)]).outputs
      petsDocument := ⟨_, List.mem_singleton_self _⟩
  obtain ⟨e, he, -⟩ := hall o ho
  rw [hnil] at he
  exact absurd he List.not_mem_nil

end Assembler

end ApiAssembly
