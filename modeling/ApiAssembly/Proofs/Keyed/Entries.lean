import ApiAssembly.Proofs.Keyed.Sorted

/-!
# Proofs — Keyed — maps with the same entries

`SameEntries` compares maps without regard to the order of their keys: under every key both have the
same entries.  A map holds a key once at most, and then this says that one map is the other with its
entries in another order (`sameEntries_iff_perm`).

Putting keys in order is canonical for this: two maps have the same entries exactly when they are
equal once they are in order (`sortKeys_eq_iff`).  Sorting is stable, so it keeps the entries of
every key as they are (`entriesAt_sortKeys`), and a map in order is known by them
(`Sorted.eq_of_sameEntries`).
-/

namespace ApiAssembly

namespace Keyed

variable {α β : Type}

/-- The entries under a key, in order. -/
def entriesAt (m : Keyed α) (k : String) : Keyed α := m.filter fun entry => entry.1 = k

/-- Two maps have the same entries under every key. -/
def SameEntries (m m' : Keyed α) : Prop := ∀ k, m.entriesAt k = m'.entriesAt k

theorem SameEntries.refl (m : Keyed α) : m.SameEntries m := fun _ => rfl

theorem mem_entriesAt {m : Keyed α} {k : String} {entry : String × α} :
    entry ∈ m.entriesAt k ↔ entry ∈ m ∧ entry.1 = k := by
  simp [entriesAt]

theorem entriesAt_cons (entry : String × α) (m : Keyed α) (k : String) :
    entriesAt (entry :: m) k = if entry.1 = k then entry :: m.entriesAt k else m.entriesAt k := by
  by_cases h : entry.1 = k <;> simp [entriesAt, h]

theorem SameEntries.mem_iff {m m' : Keyed α} (h : m.SameEntries m') {entry : String × α} :
    entry ∈ m ↔ entry ∈ m' := by
  have := congrArg (entry ∈ ·) (h entry.1)
  simpa [mem_entriesAt] using this

theorem entriesAt_mapValues (f : α → β) (m : Keyed α) (k : String) :
    (m.mapValues f).entriesAt k = (m.entriesAt k).mapValues f := by
  simp only [entriesAt, Keyed.mapValues, List.filter_map, Function.comp_def]

/-- A filter of keys keeps all entries of a key or none. -/
theorem entriesAt_filter (keep : String → Bool) (m : Keyed α) (k : String) :
    entriesAt (m.filter fun entry => keep entry.1) k = if keep k then m.entriesAt k else [] := by
  have hfilter : entriesAt (m.filter fun entry => keep entry.1) k =
      m.filter fun entry => entry.1 = k ∧ keep k := by
    rw [entriesAt, List.filter_filter]
    refine List.filter_congr fun entry _ => ?_
    by_cases hk : entry.1 = k <;> simp [hk]
  rw [hfilter]
  cases keep k <;> simp [entriesAt]

theorem SameEntries.mapValues {m m' : Keyed α} (h : m.SameEntries m') (f : α → β) :
    (m.mapValues f).SameEntries (m'.mapValues f) := by
  intro k
  rw [entriesAt_mapValues, entriesAt_mapValues, h k]

/-- Looking a key up finds the first of its entries. -/
theorem get?_eq_head?_entriesAt (m : Keyed α) (k : String) :
    m.get? k = (m.entriesAt k).head?.map Prod.snd := by
  induction m with
  | nil => rfl
  | cons entry m ih =>
    obtain ⟨k', v⟩ := entry
    rw [get?_cons, entriesAt_cons, ih]
    split <;> rfl

/-! ### In order -/

/-- Sorting moves no entry of a key past another one of it. -/
theorem entriesAt_sortKeys (m : Keyed α) (k : String) : m.sortKeys.entriesAt k = m.entriesAt k := by
  have hle : (m.entriesAt k).Pairwise fun a b => decide (a.1 ≤ b.1) = true := by
    refine List.Pairwise.imp_of_mem (R := fun _ _ => True) (fun ha hb _ => ?_)
      (List.pairwise_of_forall fun _ _ => trivial)
    rw [(mem_entriesAt.mp ha).2, (mem_entriesAt.mp hb).2]
    exact decide_eq_true (String.le_refl _)
  have hsub : (m.entriesAt k).Sublist m.sortKeys := by
    refine List.sublist_mergeSort ?_ ?_ hle List.filter_sublist
    · exact fun a b c hab hbc =>
        decide_eq_true (String.le_trans (of_decide_eq_true hab) (of_decide_eq_true hbc))
    · intro a b
      rcases String.le_total a.1 b.1 with h | h <;> simp [h]
  have hfilter := hsub.filter fun entry => entry.1 = k
  have hself : (m.entriesAt k).filter (fun entry => entry.1 = k) = m.entriesAt k := by
    simp [entriesAt]
  rw [hself] at hfilter
  exact (hfilter.eq_of_length ((m.sortKeys_perm.filter _).length_eq.symm)).symm

/-- The first key of a map in order comes before every other one. -/
theorem Sorted.le_of_mem {entry other : String × α} {m : Keyed α} (h : Sorted (entry :: m))
    (ho : other ∈ entry :: m) : entry.1 ≤ other.1 := by
  rcases List.mem_cons.mp ho with rfl | ho
  · exact String.le_refl _
  · exact (List.pairwise_cons.mp h).1 other ho

/-- Maps that are in order and have the same entries are equal. -/
theorem Sorted.eq_of_sameEntries {m m' : Keyed α} (hm : m.Sorted) (hm' : m'.Sorted)
    (h : m.SameEntries m') : m = m' := by
  induction m generalizing m' with
  | nil =>
    cases m' with
    | nil => rfl
    | cons b r' => exact absurd (h.mem_iff.mpr List.mem_cons_self) List.not_mem_nil
  | cons a r ih =>
    cases m' with
    | nil => exact absurd (h.mem_iff.mp List.mem_cons_self) List.not_mem_nil
    | cons b r' =>
      -- Each of the first keys is a key of the other map, so they are one key.
      have hkey : a.1 = b.1 :=
        String.le_antisymm (hm.le_of_mem (h.mem_iff.mpr List.mem_cons_self))
          (hm'.le_of_mem (h.mem_iff.mp List.mem_cons_self))
      have hfirst := h a.1
      rw [entriesAt_cons, entriesAt_cons, if_pos rfl, if_pos hkey.symm] at hfirst
      obtain ⟨rfl, -⟩ := List.cons.inj hfirst
      have hrest : SameEntries r r' := fun k => by
        have hk := h k
        rw [entriesAt_cons, entriesAt_cons] at hk
        split at hk
        · exact (List.cons.inj hk).2
        · exact hk
      rw [ih (List.pairwise_cons.mp hm).2 (List.pairwise_cons.mp hm').2 hrest]

/-- **Maps have the same entries exactly when they are equal in order.** -/
theorem sortKeys_eq_iff {m m' : Keyed α} : m.sortKeys = m'.sortKeys ↔ m.SameEntries m' := by
  constructor
  · intro h k
    rw [← m.entriesAt_sortKeys, h, m'.entriesAt_sortKeys]
  · intro h
    refine m.sorted_sortKeys.eq_of_sameEntries m'.sorted_sortKeys fun k => ?_
    rw [entriesAt_sortKeys, entriesAt_sortKeys, h k]

theorem entriesAt_of_mem {m : Keyed α} (h : m.keys.Nodup) {entry : String × α} (he : entry ∈ m) :
    m.entriesAt entry.1 = [entry] := by
  induction m with
  | nil => exact absurd he List.not_mem_nil
  | cons e m ih =>
    obtain ⟨hnew, hm⟩ := List.nodup_cons.mp h
    have none_of (k : String) (hk : k ∉ m.map Prod.fst) : entriesAt m k = [] := by
      refine List.filter_eq_nil_iff.mpr fun x hx => ?_
      simpa using fun hxk : x.1 = k => hk (hxk ▸ List.mem_map_of_mem hx)
    rw [entriesAt_cons]
    rcases List.mem_cons.mp he with rfl | he
    · rw [if_pos rfl, none_of _ hnew]
    · rw [if_neg fun hk : e.1 = entry.1 => hnew (hk ▸ List.mem_map_of_mem he), ih hm he]

/-- Of maps that hold a key once at most, one has the entries of the other in another order. -/
theorem sameEntries_iff_perm {m m' : Keyed α} (h : m.keys.Nodup) :
    m.SameEntries m' ↔ m.Perm m' := by
  constructor
  · intro hs
    exact m.sortKeys_perm.symm.trans (sortKeys_eq_iff.mpr hs ▸ m'.sortKeys_perm)
  · intro hp k
    have hp' := hp.filter fun entry => entry.1 = k
    have hn' : m'.keys.Nodup := (hp.map Prod.fst).nodup_iff.mp h
    cases hk : m.entriesAt k with
    | nil => exact (List.nil_perm.mp (hk ▸ hp')).symm
    | cons e r =>
      obtain ⟨he, rfl⟩ := mem_entriesAt.mp (hk ▸ List.mem_cons_self : e ∈ m.entriesAt k)
      rw [← hk, entriesAt_of_mem h he, entriesAt_of_mem hn' (hp.mem_iff.mp he)]

end Keyed

end ApiAssembly
