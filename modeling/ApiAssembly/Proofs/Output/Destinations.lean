import ApiAssembly.Proofs.Output.Directory

/-!
# Proofs — Output — whether outputs have a destination

Where an emitter of files puts an output goes by its two paths and by whether the output is the only
one of the finish: the only one goes to the target file, any other into a directory
(`Emitter.Reaches`).  All outputs of a finish agree in this, so either each of them has a
destination or none has (`Assembler.isSome_destination?_iff`).

So a finish that ends for want of a destination ends at its first output
(`Assembler.finish_files_noDestination_iff`), and the files are as they were
(`Assembler.state_of_noDestination`).
-/

namespace ApiAssembly

/-! ### Destinations -/

namespace Emitter

variable {target outDir : Option String} {r : Rendered}

/-- Whether outputs have a destination: the only one of a finish in the target file, and any in the
directory of the target file or in the output directory.  A bare target file has no directory. -/
def Reaches (target outDir : Option String) (single : Bool) : Prop :=
  (single ∧ target.isSome) ∨ (targetDir? target).isSome ∨ outDir.isSome

instance (target outDir : Option String) (single : Bool) :
    Decidable (Reaches target outDir single) :=
  inferInstanceAs (Decidable (_ ∨ _))

theorem isSome_destination?_iff :
    (destination? target outDir r).isSome ↔ Reaches target outDir r.single := by
  rw [destination?, Reaches, Option.isSome_or, Bool.or_eq_true, Option.isSome_map,
    Option.isSome_or, Bool.or_eq_true]
  refine or_congr_left ?_
  cases r.single <;> simp

theorem destination?_eq_none_iff :
    destination? target outDir r = none ↔ ¬ Reaches target outDir r.single := by
  rw [← isSome_destination?_iff, Option.not_isSome_iff_eq_none]

theorem emit_files_of_not_reaches (h : ¬ Reaches target outDir r.single) (t : FileTree) :
    (files target outDir).emit t r = (t, .error (.noDestination r.filename)) := by
  have hnone := destination?_eq_none_iff.mpr h
  simp only [files, hnone]

/-- Writing can fail, but not for want of a destination. -/
theorem writeAt_ne_noDestination (t : FileTree) (path text filename : String) :
    (writeAt t path text).2 ≠ .error (.noDestination filename) := by
  intro h
  rw [writeAt] at h
  dsimp only at h
  split at h
  · cases h
  · split at h <;> cases h

theorem not_reaches_of_noDestination {t : FileTree} {filename : String}
    (h : ((files target outDir).emit t r).2 = .error (.noDestination filename)) :
    ¬ Reaches target outDir r.single := by
  rw [← destination?_eq_none_iff]
  cases hpath : destination? target outDir r with
  | none => rfl
  | some path =>
    simp only [files, hpath] at h
    exact absurd h (writeAt_ne_noDestination t path _ filename)

end Emitter

/-! ### Deliveries without a destination -/

namespace Delivery

variable {σ : Type} {em : Emitter σ}

theorem fault_meet_of_not_stops {d : Delivery σ} {x : Prepared} {s : σ}
    {answer : Except EmitFault String} (h : ¬ Stops answer) :
    (d.meet x s answer).fault = d.fault := by
  rcases answer with (_ | _) | _
  · exact absurd trivial h
  · rfl
  · rfl

/-- A delivery that ends for want of a destination came to an output that has none. -/
theorem exists_reached_of_noDestination {d : Delivery σ} (hd : d.fault = none)
    {xs : List (Except DocumentFault Prepared)} {filename : String}
    (h : (run em d xs).fault = some (.noDestination filename)) :
    ∃ x, (x, .error (.noDestination filename)) ∈ reached em d.state xs := by
  induction xs generalizing d with
  | nil =>
    rw [run, hd] at h
    cases h
  | cons x xs ih =>
    cases x with
    | error f => cases h
    | ok x =>
      rcases hx : em.emit d.state x.rendered with ⟨s, answer⟩
      rw [run_ok hx] at h
      rw [reached_ok hx]
      split at h
      case isTrue hs =>
        rcases answer with (other | _) | _
        · obtain rfl : other = filename := FinishFault.noDestination.inj (Option.some.inj h)
          exact ⟨x, List.mem_cons_self⟩
        · exact hs.elim
        · exact hs.elim
      case isFalse hs =>
        obtain ⟨y, hy⟩ := ih ((fault_meet_of_not_stops hs).trans hd) h
        rw [state_meet] at hy
        rw [if_neg hs]
        exact ⟨y, List.mem_cons_of_mem _ hy⟩

end Delivery

/-! ### Finishes without a destination -/

namespace Assembler

variable {a : Assembler} {base : Document} {x : Prepared} {target outDir : Option String}
  {t : FileTree}

theorem single_eq (hx : .ok x ∈ a.prepared base) :
    x.rendered.single = ((a.outputs base).length == 1) := by
  obtain ⟨o, -, hx⟩ := exists_of_mem_prepared hx
  rw [(Context.output_of_prepare_eq_ok hx).2.2.2, prepared, List.length_map]

/-- The outputs of a finish have a destination by their number alone. -/
theorem isSome_destination?_iff (hx : .ok x ∈ a.prepared base) :
    (Emitter.destination? target outDir x.rendered).isSome ↔
      Emitter.Reaches target outDir ((a.outputs base).length == 1) := by
  rw [Emitter.isSome_destination?_iff, single_eq hx]

/-- A delivery whose first output has no destination ends there and writes nothing. -/
theorem delivery_of_no_destination {rest : List (Except DocumentFault Prepared)}
    (h : a.prepared base = .ok x :: rest)
    (hnone : Emitter.destination? target outDir x.rendered = none) :
    (a.delivery base (Emitter.files target outDir) t).state = t ∧
      (a.delivery base (Emitter.files target outDir) t).fault =
        some (.noDestination x.rendered.filename) := by
  have hlacks := Emitter.destination?_eq_none_iff.mp hnone
  rw [delivery, h, Delivery.run_ok (Emitter.emit_files_of_not_reaches hlacks t),
    if_pos (show Delivery.Stops (.error (.noDestination _)) from trivial)]
  exact ⟨rfl, rfl⟩

/-- A delivery ends for want of a destination at its first output, or not at all. -/
theorem exists_first_of_noDestination {filename : String}
    (h : (a.delivery base (Emitter.files target outDir) t).fault =
      some (.noDestination filename)) :
    ∃ x rest, a.prepared base = .ok x :: rest ∧ x.rendered.filename = filename ∧
      Emitter.destination? target outDir x.rendered = none := by
  obtain ⟨y, hy⟩ := Delivery.exists_reached_of_noDestination rfl h
  obtain ⟨hmem, t', hanswer⟩ := Delivery.exists_of_mem_reached hy
  cases hprepared : a.prepared base with
  | nil =>
    rw [hprepared] at hmem
    cases hmem
  | cons first rest =>
    cases first with
    | error f =>
      rw [delivery, hprepared] at h
      cases h
    | ok x =>
      -- The output that has no destination is one of as many outputs as the first one.
      have hx : .ok x ∈ a.prepared base := hprepared ▸ List.mem_cons_self
      have hnone : Emitter.destination? target outDir x.rendered = none := by
        rw [Emitter.destination?_eq_none_iff, single_eq hx, ← single_eq hmem]
        exact Emitter.not_reaches_of_noDestination hanswer
      rw [(delivery_of_no_destination hprepared hnone).2] at h
      exact ⟨x, rest, rfl, FinishFault.noDestination.inj (Option.some.inj h), hnone⟩

/-- A finish ends for want of a destination exactly when it is processed and its first output has
none. -/
theorem finish_files_noDestination_iff {filename : String} :
    (a.finish (Emitter.files target outDir) t).result = .error (.noDestination filename) ↔
      a.Ready ∧ ∃ base x rest, a.base = some base ∧ a.prepared base = .ok x :: rest ∧
        x.rendered.filename = filename ∧
        Emitter.destination? target outDir x.rendered = none := by
  constructor
  · intro h
    by_cases hr : a.Ready
    · obtain ⟨base, hb, hd⟩ := exists_finish_eq_deliver hr (Emitter.files target outDir) t
      rw [hd, result_deliver_eq_error_iff] at h
      obtain ⟨x, rest, hx⟩ := exists_first_of_noDestination h
      exact ⟨hr, base, x, rest, hb, hx⟩
    · rw [finish_of_not_ready hr] at h
      cases h
  · rintro ⟨hr, base, x, rest, hb, hprepared, rfl, hnone⟩
    rw [finish_of_ready hr hb, result_deliver_eq_error_iff]
    exact (delivery_of_no_destination hprepared hnone).2

theorem state_of_noDestination {filename : String}
    (h : (a.finish (Emitter.files target outDir) t).result = .error (.noDestination filename)) :
    (a.finish (Emitter.files target outDir) t).state = t := by
  obtain ⟨hr, base, x, rest, hb, hprepared, -, hnone⟩ := finish_files_noDestination_iff.mp h
  rw [finish_of_ready hr hb, state_deliver]
  exact (delivery_of_no_destination hprepared hnone).1

/-- **A missing destination shows before anything is written.**  A finish that ends for want of a
destination leaves the files and directories as they were; it ends so exactly when it is processed
and its first output has no destination.  The outputs of a finish all have a destination or all have
none: it goes by the two paths of the emitter, and by whether there is one output or not. -/
theorem noDestination_before_writing (a : Assembler) (target outDir : Option String)
    (t : FileTree) :
    let em := Emitter.files target outDir
    (∀ filename, (a.finish em t).result = .error (.noDestination filename) →
      (a.finish em t).state = t) ∧
    (∀ filename, (a.finish em t).result = .error (.noDestination filename) ↔
      a.Ready ∧ ∃ base x rest, a.base = some base ∧ a.prepared base = .ok x :: rest ∧
        x.rendered.filename = filename ∧
        Emitter.destination? target outDir x.rendered = none) ∧
    ∀ base,
      ((∀ x, .ok x ∈ a.prepared base → (Emitter.destination? target outDir x.rendered).isSome) ∨
        ∀ x, .ok x ∈ a.prepared base → Emitter.destination? target outDir x.rendered = none) ∧
      ∀ x, .ok x ∈ a.prepared base →
        ((Emitter.destination? target outDir x.rendered).isSome ↔
          Emitter.Reaches target outDir ((a.outputs base).length == 1)) := by
  refine ⟨fun _ h => state_of_noDestination h, fun _ => finish_files_noDestination_iff,
    fun base => ⟨?_, fun x hx => isSome_destination?_iff hx⟩⟩
  by_cases h : Emitter.Reaches target outDir ((a.outputs base).length == 1)
  · exact .inl fun x hx => (isSome_destination?_iff hx).mpr h
  · refine .inr fun x hx => ?_
    rw [← Option.not_isSome_iff_eq_none, isSome_destination?_iff hx]
    exact h

/-- Two groups and a bare target file: there is no destination, and the tree is as it was. -/
theorem noDestination_versionedPets :
    ((versionedPets "v1").finish (Emitter.files (some "api.yml") none) blockedTree).result =
        .error (.noDestination "pets-1.0-a-v1.yml") ∧
      ((versionedPets "v1").finish (Emitter.files (some "api.yml") none) blockedTree).state =
        blockedTree ∧
      ∀ x, .ok x ∈ (versionedPets "v1").prepared petsDocument →
        Emitter.destination? (some "api.yml") none x.rendered = none := by
  obtain ⟨hstate, -, hall⟩ :=
    noDestination_before_writing (versionedPets "v1") (some "api.yml") none blockedTree
  have hfault : ((versionedPets "v1").finish (Emitter.files (some "api.yml") none)
      blockedTree).result = .error (.noDestination "pets-1.0-a-v1.yml") := by
    decide +kernel
  refine ⟨hfault, hstate _ hfault, fun x hx => ?_⟩
  obtain ⟨-, hiff⟩ := hall petsDocument
  have hno : ¬ Emitter.Reaches (some "api.yml") none
      (((versionedPets "v1").outputs petsDocument).length == 1) := by
    decide +kernel
  rw [← Option.not_isSome_iff_eq_none, hiff x hx]
  exact hno

end Assembler

end ApiAssembly
