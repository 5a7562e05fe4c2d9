import ApiAssembly.Proofs.Json.Tree
import ApiAssembly.Proofs.Keyed.Distinct

/-!
# Proofs — Json — values that are equal up to the order of keys

`Json.same` compares values without regard to the order of keys.  It is transitive
(`Json.same_trans`), key by key and item by item.

Two values are *alike* when they are equal or the same in this sense.  A value whose objects hold a
key once is the same as itself, so that for values that were read there is no difference.
-/

namespace ApiAssembly

theorem Double.same_trans {a b c : Double} (hab : a.same b) (hbc : b.same c) : a.same c := by
  simp only [Double.same, Bool.and_eq_true, Bool.or_eq_true, beq_iff_eq] at hab hbc ⊢
  obtain ⟨hcode, hsign⟩ := hab
  obtain ⟨hcode', hsign'⟩ := hbc
  refine ⟨hcode.trans hcode', ?_⟩
  rcases hsign with hsign | hzero
  · rw [hsign, hcode]
    exact hsign'
  · exact .inr hzero

/-- Numbers can be compared through a third one, though zeros of both signs are one number. -/
theorem Number.same_trans {a b c : Number} (hab : a.same b) (hbc : b.same c) : a.same c := by
  cases b with
  | int b =>
    cases a <;> cases c <;> simp_all [Number.same]
  | float b =>
    cases a with
    | int => cases hab
    | float a =>
      cases c with
      | int => cases hbc
      | float c => exact Double.same_trans hab hbc

/-- A relation that is transitive from the items of a list on is so item by item. -/
theorem forall₂_trans_of_mem {α : Type} {R : α → α → Prop} {a b c : List α}
    (h : ∀ x ∈ a, ∀ y z, R x y → R y z → R x z) (hab : List.Forall₂ R a b)
    (hbc : List.Forall₂ R b c) : List.Forall₂ R a c := by
  induction hab generalizing c with
  | nil => exact hbc
  | cons hxy _ ih =>
    cases hbc with
    | cons hyz hrest =>
      obtain ⟨hx, ha⟩ := List.forall_mem_cons.mp h
      exact .cons (hx _ _ hxy hyz) (ih ha hrest)

namespace Json

/-- Lists are the same item by item. -/
theorem sameItems_iff {a b : List Json} :
    sameItems a b ↔ List.Forall₂ (fun x y => x.same y) a b := by
  induction a generalizing b with
  | nil => cases b <;> simp [sameItems]
  | cons x a ih => cases b <;> simp [sameItems, ih]

/-- The keys of an object are found in the other one, wherever they stand there. -/
theorem sameEntries_iff {a b : Keyed Json} :
    sameEntries a b ↔ ∀ entry ∈ a, ∃ y, b.get? entry.1 = some y ∧ entry.2.same y := by
  induction a with
  | nil => simp [sameEntries]
  | cons entry a ih =>
    obtain ⟨k, x⟩ := entry
    rw [sameEntries, Bool.and_eq_true, ih, List.forall_mem_cons]
    cases b.get? k <;> simp

/-- **Being the same is transitive.** -/
theorem same_trans {a b c : Json} (hab : a.same b) (hbc : b.same c) : a.same c := by
  induction a using induct generalizing b c with
  | null => cases b <;> cases c <;> simp_all [same]
  | bool => cases b <;> cases c <;> simp_all [same]
  | num n =>
    cases b with
    | num m =>
      cases c with
      | num k => exact Number.same_trans hab hbc
      | _ => cases hbc
    | _ => cases hab
  | str => cases b <;> cases c <;> simp_all [same]
  | arr items ih =>
    cases b with
    | arr items' =>
      cases c with
      | arr items'' =>
        simp only [same, sameItems_iff] at hab hbc ⊢
        exact forall₂_trans_of_mem (fun x hx y z => ih x hx) hab hbc
      | _ => cases hbc
    | _ => cases hab
  | obj fields ih =>
    cases b with
    | obj fields' =>
      cases c with
      | obj fields'' =>
        simp only [same, Bool.and_eq_true, beq_iff_eq, sameEntries_iff] at hab hbc ⊢
        refine ⟨hab.1.trans hbc.1, fun entry he => ?_⟩
        -- The entry that is found for this one is looked up in turn.
        obtain ⟨y, hy, hxy⟩ := hab.2 entry he
        obtain ⟨z, hz, hyz⟩ := hbc.2 _ (Keyed.mem_of_get? hy)
        exact ⟨z, hz, ih entry he hxy hyz⟩
      | _ => cases hbc
    | _ => cases hab

/-- Values that are equal, or the same but for the order of keys. -/
def Alike (a b : Json) : Prop := a = b ∨ a.same b

theorem Alike.refl (a : Json) : a.Alike a := .inl rfl

/-- Alike values can be compared through a third one. -/
theorem Alike.trans {a b c : Json} (hab : a.Alike b) (hbc : b.Alike c) : a.Alike c := by
  rcases hab with rfl | hab
  · exact hbc
  · rcases hbc with rfl | hbc
    · exact .inr hab
    · exact .inr (same_trans hab hbc)

end Json

end ApiAssembly
