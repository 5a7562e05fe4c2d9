import ApiAssembly.Keyed
import ApiAssembly.Proofs.Text.Sets

/-!
# Proofs — Keyed — the first element of a key wins

`addNew` adds an element to a list unless one with its key is there, and `addAllNew` adds many in
their order.  What is added is looked up behind what was there (`find?_addAllNew`), its keys come
behind the others, each at its first place (`map_addAllNew`), and adding is associative
(`addAllNew_assoc`) and does nothing where all keys are known (`addAllNew_of_subset`).

A map takes in the new entries of another one in this way (`Keyed.extendNew_eq`).  Where a value is
written under every key that comes, whatever the value is, the keys are added in this way
(`Keyed.keys_foldl`); and where no key comes again, the value under a key is what was there, or what
was written once (`Keyed.get?_foldl`).  Maps that hold a key once are equal when they have the same
keys in the same order and the same value under each (`Keyed.eq_of_get?`).
-/

namespace ApiAssembly

/-! ### Elements with keys -/

section Elements

variable {α κ : Type} [DecidableEq κ] (key : α → κ)

/-- Adds an element unless one with its key is there. -/
def addNew (xs : List α) (x : α) : List α := if key x ∈ xs.map key then xs else xs ++ [x]

/-- Adds elements one after the other, each unless one with its key is there. -/
def addAllNew (xs ys : List α) : List α := ys.foldl (addNew key) xs

theorem addAllNew_append (xs ys zs : List α) :
    addAllNew key xs (ys ++ zs) = addAllNew key (addAllNew key xs ys) zs :=
  List.foldl_append

theorem addAllNew_concat (xs ys : List α) (y : α) :
    addAllNew key xs (ys ++ [y]) = addNew key (addAllNew key xs ys) y := by
  rw [addAllNew_append]
  rfl

/-- The keys that are added come behind the others, each at its first place. -/
theorem map_addAllNew (xs ys : List α) :
    (addAllNew key xs ys).map key =
      xs.map key ++ ((ys.map key).filter fun k => k ∉ xs.map key).eraseDups := by
  induction ys using List.reverseRecOn with
  | nil => exact (List.append_nil _).symm
  | append_singleton ys y ih =>
    have hmem : key y ∈ (addAllNew key xs ys).map key ↔
        key y ∈ xs.map key ∨ key y ∈ (ys.map key).filter fun k => k ∉ xs.map key := by
      rw [ih, List.mem_append, List.mem_eraseDups]
    rw [addAllNew_concat, addNew, List.map_append, List.map_singleton, List.filter_append]
    by_cases hx : key y ∈ xs.map key
    · have hlast : [key y].filter (fun k => k ∉ xs.map key) = [] :=
        List.filter_eq_nil_iff.mpr (by simpa using List.mem_map.mp hx)
      rw [if_pos (hmem.mpr (.inl hx)), hlast, List.append_nil, ih]
    · have hlast : [key y].filter (fun k => k ∉ xs.map key) = [key y] :=
        List.filter_eq_self.mpr (by simpa using mt List.mem_map.mpr hx)
      rw [hlast, eraseDups_concat]
      by_cases hy : key y ∈ (ys.map key).filter fun k => k ∉ xs.map key
      · rw [if_pos (hmem.mpr (.inr hy)), if_pos hy, ih]
      · rw [if_neg (mt hmem.mp (not_or.mpr ⟨hx, hy⟩)), if_neg hy, List.map_append, ih,
          List.map_singleton, List.append_assoc]

/-- A key is there when it was there or was added. -/
theorem mem_map_addAllNew {xs ys : List α} {k : κ} :
    k ∈ (addAllNew key xs ys).map key ↔ k ∈ xs.map key ∨ k ∈ ys.map key := by
  rw [map_addAllNew, List.mem_append, List.mem_eraseDups, List.mem_filter, decide_eq_true_eq]
  tauto

/-- What is added is found where nothing was found before. -/
theorem find?_addAllNew (xs ys : List α) (k : κ) :
    (addAllNew key xs ys).find? (fun x => key x = k) =
      (xs.find? fun x => key x = k).or (ys.find? fun y => key y = k) := by
  rw [← List.find?_append]
  induction ys using List.reverseRecOn with
  | nil => rw [List.append_nil]; rfl
  | append_singleton ys y ih =>
    rw [addAllNew_concat, addNew, ← List.append_assoc, List.find?_append, ← ih]
    split
    case isTrue hy =>
      -- An element with the key of the last one is there, so the last one is not found.
      by_cases hk : key y = k
      · obtain ⟨x, hx, hxy⟩ := List.mem_map.mp hy
        have hsome : ((addAllNew key xs ys).find? fun x => key x = k).isSome :=
          List.find?_isSome.mpr ⟨x, hx, decide_eq_true (hxy.trans hk)⟩
        rw [Option.or_of_isSome hsome]
      · simp [hk]
    case isFalse => rw [List.find?_append]

/-- Adding is associative. -/
theorem addAllNew_assoc (xs ys zs : List α) :
    addAllNew key (addAllNew key xs ys) zs = addAllNew key xs (addAllNew key ys zs) := by
  induction zs using List.reverseRecOn with
  | nil => rfl
  | append_singleton zs z ih =>
    rw [addAllNew_concat, addAllNew_concat, ih, addNew, addNew]
    by_cases hz : key z ∈ (addAllNew key ys zs).map key
    · rw [if_pos hz, if_pos ((mem_map_addAllNew key).mpr (.inr hz))]
    · rw [if_neg hz, addAllNew_concat, addNew]

theorem addAllNew_addAllNew_nil (xs ys : List α) :
    addAllNew key xs (addAllNew key [] ys) = addAllNew key xs ys :=
  (addAllNew_assoc key xs [] ys).symm

/-- Nothing is added where all keys are known. -/
theorem addAllNew_of_subset {xs ys : List α} (h : ys.map key ⊆ xs.map key) :
    addAllNew key xs ys = xs := by
  induction ys with
  | nil => rfl
  | cons y ys ih =>
    obtain ⟨hy, hys⟩ := List.cons_subset.mp h
    rw [addAllNew, List.foldl_cons, addNew, if_pos hy]
    exact ih hys

/-- Adding the same elements again does nothing. -/
theorem addAllNew_addAllNew_right (xs ys : List α) :
    addAllNew key (addAllNew key xs ys) ys = addAllNew key xs ys :=
  addAllNew_of_subset key fun _ hk => (mem_map_addAllNew key).mpr (.inr hk)

/-- Adding what was there first does nothing. -/
theorem addAllNew_addAllNew_left (xs ys : List α) :
    addAllNew key (addAllNew key xs ys) xs = addAllNew key xs ys :=
  addAllNew_of_subset key fun _ hk => (mem_map_addAllNew key).mpr (.inl hk)

/-- Lists that hold a key once are equal when they have the same keys in the same order and the
same element under each. -/
theorem eq_of_find? {xs ys : List α} (hkeys : xs.map key = ys.map key)
    (hnodup : (xs.map key).Nodup)
    (h : ∀ k, (xs.find? fun x => key x = k) = ys.find? fun y => key y = k) : xs = ys := by
  induction xs generalizing ys with
  | nil => exact (List.map_eq_nil_iff.mp hkeys.symm).symm
  | cons x xs ih =>
    cases ys with
    | nil => cases hkeys
    | cons y ys =>
      obtain ⟨hkey, htail⟩ := List.cons.inj hkeys
      obtain ⟨hnew, hnodup⟩ := List.nodup_cons.mp hnodup
      have hxy : x = y := by simpa [List.find?_cons, hkey] using h (key x)
      subst hxy
      rw [ih htail hnodup fun k => ?_]
      by_cases hk : key x = k
      · -- The key of the first element is not there again.
        have none_of (zs : List α) (hzs : key x ∉ zs.map key) :
            zs.find? (fun z => key z = k) = none :=
          List.find?_eq_none.mpr fun z hz hzk =>
            hzs (List.mem_map.mpr ⟨z, hz, (of_decide_eq_true hzk).trans hk.symm⟩)
        rw [none_of xs hnew, none_of ys (htail ▸ hnew)]
      · simpa [List.find?_cons, hk] using h k

end Elements

/-! ### Maps -/

namespace Keyed

variable {α β : Type}

theorem find?_eq_map_get? (m : Keyed α) (k : String) :
    (m.find? fun entry => entry.1 = k) = (m.get? k).map fun v => (k, v) := by
  induction m with
  | nil => rfl
  | cons entry m ih =>
    obtain ⟨k', v⟩ := entry
    rw [List.find?_cons, get?_cons]
    by_cases hk : k' = k
    · simp [hk]
    · simpa [hk] using ih

theorem get?_eq_map_find? (m : Keyed α) (k : String) :
    m.get? k = (m.find? fun entry => entry.1 = k).map Prod.snd := by
  rw [find?_eq_map_get?, Option.map_map]
  exact (congrFun Option.map_id _).symm

/-- A key without a value is none of the keys. -/
theorem get?_eq_none_iff {m : Keyed α} {k : String} : m.get? k = none ↔ k ∉ m.keys := by
  rw [get?_eq_map_find?, Option.map_eq_none_iff, List.find?_eq_none, keys, List.mem_map]
  simp only [decide_eq_true_eq, not_exists, not_and]

theorem has_eq_true_iff {m : Keyed α} {k : String} : m.has k = true ↔ k ∈ m.keys := by
  rw [has, Option.isSome_iff_ne_none, ne_eq, get?_eq_none_iff, not_not]

/-- Maps that hold a key once are equal when they have the same keys in the same order and the same
value under each. -/
theorem eq_of_get? {m m' : Keyed α} (hkeys : m.keys = m'.keys) (hnodup : m.keys.Nodup)
    (h : ∀ k, m.get? k = m'.get? k) : m = m' :=
  eq_of_find? Prod.fst hkeys hnodup fun k => by rw [find?_eq_map_get?, find?_eq_map_get?, h k]

theorem insertNew_eq (m : Keyed α) (k : String) (v : α) :
    m.insertNew k v = addNew Prod.fst m (k, v) := by
  rw [insertNew, addNew]
  simp only [has_eq_true_iff, keys]

/-- A map takes in the entries of another one whose keys are new. -/
theorem extendNew_eq (m new : Keyed α) : m.extendNew new = addAllNew Prod.fst m new := by
  simp only [extendNew, insertNew_eq, addAllNew]

/-- The value of a key is that of the first map that has it. -/
theorem get?_extendNew (m new : Keyed α) (k : String) :
    (m.extendNew new).get? k = (m.get? k).or (new.get? k) := by
  simp only [get?_eq_map_find?, extendNew_eq, find?_addAllNew, Option.map_or]

/-- The new keys come behind those of the map, in their own order. -/
theorem keys_extendNew {m new : Keyed α} (h : new.keys.Nodup) :
    (m.extendNew new).keys = m.keys ++ new.keys.filter fun k => k ∉ m.keys := by
  rw [extendNew_eq, keys, map_addAllNew]
  exact congrArg (m.keys ++ ·) (eraseDups_of_nodup (h.filter _))

/-- Where each step writes a value under a key, the new keys come behind the others, each at its
first place. -/
theorem keys_foldl (step : Keyed α → β → Keyed α) (name : β → String)
    (h : ∀ m x, (step m x).keys = if name x ∈ m.keys then m.keys else m.keys ++ [name x])
    (m : Keyed α) (xs : List β) :
    (xs.foldl step m).keys = m.keys ++ ((xs.map name).filter fun k => k ∉ m.keys).eraseDups := by
  have hadd : (xs.foldl step m).keys = addAllNew id m.keys (xs.map name) := by
    induction xs generalizing m with
    | nil => rfl
    | cons x xs ih =>
      rw [List.foldl_cons, ih, h, List.map_cons, addAllNew, addAllNew, List.foldl_cons, addNew,
        List.map_id, id_eq]
  have hkeys := map_addAllNew id m.keys (xs.map name)
  simpa only [List.map_id, hadd] using hkeys

/-- Where each step writes under the key of an entry, and the keys of the entries are apart, a key
has what one step makes of its value. -/
theorem get?_foldl (step : Keyed α → String × α → Keyed α) (join : Option α → α → α)
    (h : ∀ m entry k, (step m entry).get? k =
      if entry.1 = k then some (join (m.get? k) entry.2) else m.get? k)
    (m : Keyed α) {new : Keyed α} (hnew : new.keys.Nodup) (k : String) :
    (new.foldl step m).get? k = ((new.get? k).map (join (m.get? k))).or (m.get? k) := by
  induction new generalizing m with
  | nil => rfl
  | cons entry new ih =>
    obtain ⟨hentry, hnew⟩ := List.nodup_cons.mp hnew
    rw [List.foldl_cons, ih _ hnew, h, get?_cons]
    by_cases hk : entry.1 = k
    · -- The key does not come again.
      have hnone : get? new k = none := get?_eq_none_iff.mpr (hk ▸ hentry)
      rw [if_pos hk, if_pos hk, hnone]
      rfl
    · rw [if_neg hk, if_neg hk]

end Keyed

end ApiAssembly
