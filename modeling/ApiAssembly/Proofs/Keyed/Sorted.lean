import ApiAssembly.Keyed
import ApiAssembly.Proofs.Text.Sets

/-!
# Proofs — Keyed — maps in the order of their keys

`sortKeys` puts the entries of a map in order (`sorted_sortKeys`) and leaves a map that is in order
alone (`sortKeys_of_sorted`).  Changing values and dropping entries keep the order.
-/

namespace ApiAssembly

namespace Keyed

variable {α β : Type}

/-- The keys do not decrease. -/
def Sorted (m : Keyed α) : Prop := m.Pairwise fun a b => a.1 ≤ b.1

/-- Putting a map in order keeps its entries. -/
theorem sortKeys_perm (m : Keyed α) : m.sortKeys.Perm m := List.mergeSort_perm m _

theorem mem_sortKeys {m : Keyed α} {entry : String × α} : entry ∈ m.sortKeys ↔ entry ∈ m :=
  m.sortKeys_perm.mem_iff

/-- A map that was put in order is in order. -/
theorem sorted_sortKeys (m : Keyed α) : m.sortKeys.Sorted := pairwise_mergeSort_of Prod.fst m

/-- A map in order is left as it is. -/
theorem sortKeys_of_sorted {m : Keyed α} (h : m.Sorted) : m.sortKeys = m :=
  List.mergeSort_of_pairwise (h.imp fun hab => decide_eq_true hab)

/-- The order is one of keys, so values may change. -/
theorem Sorted.mapValues {m : Keyed α} (h : m.Sorted) (f : α → β) : (m.mapValues f).Sorted :=
  List.pairwise_map.mpr h

/-- Entries may be dropped. -/
theorem Sorted.filter {m : Keyed α} (h : m.Sorted) (p : String × α → Bool) :
    Sorted (m.filter p) :=
  List.Pairwise.filter p h

theorem mapValues_eq_self_iff {f : α → α} {m : Keyed α} :
    m.mapValues f = m ↔ ∀ entry ∈ m, f entry.2 = entry.2 := by
  have h := List.map_inj_left (l := m) (f := fun entry => (entry.1, f entry.2)) (g := id)
  rw [List.map_id] at h
  simpa [mapValues, Prod.ext_iff] using h

theorem forall_mem_mapValues {f : α → β} {m : Keyed α} {p : String × β → Prop} :
    (∀ entry ∈ m.mapValues f, p entry) ↔ ∀ entry ∈ m, p (entry.1, f entry.2) := by
  simp only [mapValues, List.forall_mem_map]

theorem forall_mem_sortKeys {m : Keyed α} {p : String × α → Prop} :
    (∀ entry ∈ m.sortKeys, p entry) ↔ ∀ entry ∈ m, p entry := by
  simp only [mem_sortKeys]

/-- Changing values a second time changes nothing exactly when it does so at every entry. -/
theorem mapValues_mapValues_eq_iff {f : α → α} {m : Keyed α} :
    (m.mapValues f).mapValues f = m.mapValues f ↔ ∀ entry ∈ m, f (f entry.2) = f entry.2 := by
  simp [mapValues, List.map_inj_left]

end Keyed

end ApiAssembly
