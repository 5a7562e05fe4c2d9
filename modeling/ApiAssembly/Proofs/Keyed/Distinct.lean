import ApiAssembly.Proofs.Keyed.FirstWins

/-!
# Proofs — Keyed — maps that hold a key once

Writing keeps the keys of a map apart (`nodup_keys_insert`), so a map that is made of a list of
entries holds every key once (`nodup_keys_ofList`) and holds no entry that is not in the list
(`mem_of_mem_ofList`).  Making a map is writing over the empty one, so entries that are written over
a map give their keys the values that they give them in a map of their own (`get?_extend_eq`), and a
map that is written over another one stands in it as it is (`mem_extend_of_mem`) and leaves the
other keys alone (`get?_extend`).  A list whose keys are apart already is the map that it makes
(`ofList_of_nodup`); of any other list the map has fewer entries (`length_ofList_eq_iff`).
-/

namespace ApiAssembly

namespace Keyed

variable {α : Type}

theorem mem_of_get? {m : Keyed α} {k : String} {v : α} (h : m.get? k = some v) : (k, v) ∈ m := by
  induction m with
  | nil => cases h
  | cons e m ih =>
    obtain ⟨k', v'⟩ := e
    rw [get?_cons] at h
    split at h
    case isTrue hk => exact Option.some.inj h ▸ hk ▸ List.mem_cons_self
    case isFalse => exact List.mem_cons_of_mem _ (ih h)

theorem get?_of_mem {m : Keyed α} (h : m.keys.Nodup) {entry : String × α} (he : entry ∈ m) :
    m.get? entry.1 = some entry.2 := by
  induction m with
  | nil => exact absurd he List.not_mem_nil
  | cons e m ih =>
    obtain ⟨hnew, hm⟩ := List.nodup_cons.mp h
    rw [get?_cons]
    rcases List.mem_cons.mp he with rfl | he
    · rw [if_pos rfl]
    · rw [if_neg fun hk : e.1 = entry.1 => hnew (hk ▸ List.mem_map_of_mem he), ih hm he]

/-- Writing keeps the keys of a map apart. -/
theorem nodup_keys_insert {m : Keyed α} (h : m.keys.Nodup) (k : String) (v : α) :
    (m.insert k v).keys.Nodup := by
  rw [keys_insert]
  split
  case isTrue => exact h
  case isFalse hk => exact TextSet.nodup_concat h hk

theorem mem_insert {m : Keyed α} {k : String} {v : α} {entry : String × α}
    (h : entry ∈ m.insert k v) : entry = (k, v) ∨ entry ∈ m := by
  induction m with
  | nil => exact .inl (List.mem_singleton.mp h)
  | cons e m ih =>
    obtain ⟨k', v'⟩ := e
    rw [insert] at h
    split at h
    case isTrue hk => exact (List.mem_cons.mp h).imp (fun he => hk ▸ he) (List.mem_cons_of_mem _)
    case isFalse =>
      rcases List.mem_cons.mp h with rfl | h
      · exact .inr List.mem_cons_self
      · exact (ih h).imp_right (List.mem_cons_of_mem _)

/-- A new key comes behind all others. -/
theorem insert_of_not_mem {m : Keyed α} {k : String} (h : k ∉ m.keys) (v : α) :
    m.insert k v = m ++ [(k, v)] := by
  induction m with
  | nil => rfl
  | cons e m ih =>
    obtain ⟨k', v'⟩ := e
    obtain ⟨hne, hm⟩ := not_or.mp (mt List.mem_cons.mpr h)
    rw [insert, if_neg (Ne.symm hne), ih hm, List.cons_append]

/-- Entries whose keys are new and apart go to the end, as they are. -/
theorem foldl_insert_of_nodup {m entries : Keyed α} (h : (keys (m ++ entries)).Nodup) :
    entries.foldl (fun m entry => m.insert entry.1 entry.2) m = m ++ entries := by
  induction entries generalizing m with
  | nil => rw [List.append_nil]; rfl
  | cons e entries ih =>
    rw [keys, List.map_append, List.map_cons] at h
    have hnew : e.1 ∉ m.keys := fun hm =>
      (List.nodup_append.mp h).2.2 _ hm _ List.mem_cons_self rfl
    rw [List.foldl_cons, insert_of_not_mem hnew, ih, List.append_assoc, List.singleton_append]
    simpa [keys] using h

/-- A list whose keys are apart is the map that it makes. -/
theorem ofList_of_nodup {entries : Keyed α} (h : entries.keys.Nodup) : ofList entries = entries :=
  foldl_insert_of_nodup (m := []) h

theorem nodup_keys_extend {m : Keyed α} (h : m.keys.Nodup) (entries : Keyed α) :
    (m.extend entries).keys.Nodup := by
  induction entries generalizing m with
  | nil => exact h
  | cons e entries ih => exact ih (nodup_keys_insert h e.1 e.2)

/-- A map that is made of a list of entries holds every key once. -/
theorem nodup_keys_ofList (entries : Keyed α) : (ofList entries).keys.Nodup :=
  nodup_keys_extend (m := []) List.nodup_nil entries

theorem mem_of_mem_extend {m entries : Keyed α} {entry : String × α}
    (h : entry ∈ m.extend entries) : entry ∈ m ∨ entry ∈ entries := by
  induction entries generalizing m with
  | nil => exact .inl h
  | cons e entries ih =>
    rcases ih h with h | h
    · exact (mem_insert h).symm.imp_right fun (he : entry = e) => he ▸ List.mem_cons_self
    · exact .inr (List.mem_cons_of_mem _ h)

/-- A map that is made of a list holds no entry that is not in the list. -/
theorem mem_of_mem_ofList {entries : Keyed α} {entry : String × α} (h : entry ∈ ofList entries) :
    entry ∈ entries :=
  (mem_of_mem_extend (m := []) h).resolve_left List.not_mem_nil

/-- The written key has the written value, and all others what they had. -/
theorem get?_insert (m : Keyed α) (k q : String) (v : α) :
    (m.insert k v).get? q = if k = q then some v else m.get? q := by
  split
  case isTrue h => exact h ▸ get?_insert_self m k v
  case isFalse h => exact get?_insert_of_ne m v h

/-- A map that is written over another one adds its new keys behind the others. -/
theorem keys_extend (m new : Keyed α) :
    (m.extend new).keys = m.keys ++ (new.keys.filter fun k => k ∉ m.keys).eraseDups :=
  keys_foldl _ Prod.fst (fun m entry => m.keys_insert entry.1 entry.2) m new

theorem mem_keys_extend {m new : Keyed α} {k : String} :
    k ∈ (m.extend new).keys ↔ k ∈ m.keys ∨ k ∈ new.keys := by
  rw [keys_extend, List.mem_append, List.mem_eraseDups, List.mem_filter, decide_eq_true_eq]
  tauto

/-- What is written over a map last counts, and where nothing is written the old value does. -/
theorem get?_extend_eq (m : Keyed α) (entries : List (String × α)) (k : String) :
    (m.extend entries).get? k = ((ofList entries).get? k).or (m.get? k) := by
  induction entries using List.reverseRecOn with
  | nil => rfl
  | append_singleton entries e ih =>
    have hconcat (m : Keyed α) :
        m.extend (entries ++ [e]) = (m.extend entries).insert e.1 e.2 := by
      rw [extend, List.foldl_append]
      rfl
    have hofList : ofList (entries ++ [e]) = (ofList entries).insert e.1 e.2 := hconcat []
    rw [hconcat, hofList, get?_insert, get?_insert, ih]
    split <;> rfl

/-- A map that is written over another one has its own values, and under other keys the old ones. -/
theorem get?_extend {m new : Keyed α} (h : new.keys.Nodup) (k : String) :
    (m.extend new).get? k = (new.get? k).or (m.get? k) := by
  rw [get?_extend_eq, ofList_of_nodup h]

/-- What is written over a map stands in it, as long as its own keys are apart. -/
theorem mem_extend_of_mem {m new : Keyed α} (h : new.keys.Nodup) {entry : String × α}
    (he : entry ∈ new) : entry ∈ m.extend new := by
  have hget : (m.extend new).get? entry.1 = some entry.2 := by
    rw [get?_extend h, get?_of_mem h he, Option.some_or]
  exact mem_of_get? hget

/-- The last value that is written under a key counts. -/
theorem get?_ofList (entries : List (String × α)) (k : String) :
    (ofList entries).get? k = ((entries.filter fun e => e.1 = k).getLast?).map Prod.snd := by
  induction entries using List.reverseRecOn with
  | nil => rfl
  | append_singleton entries e ih =>
    rw [ofList, List.foldl_append, List.foldl_cons, List.foldl_nil, ← ofList, List.filter_append]
    by_cases he : e.1 = k
    · have hself : [e].filter (fun e => e.1 = k) = [e] := by simp [he]
      rw [he, get?_insert_self, hself, List.getLast?_concat]
      rfl
    · have hself : [e].filter (fun e => e.1 = k) = [] := by simp [he]
      rw [get?_insert_of_ne _ _ he, ih, hself, List.append_nil]

/-- A map that is made of entries has their keys, each at its first place. -/
theorem keys_ofList (entries : Keyed α) : (ofList entries).keys = entries.keys.eraseDups := by
  have hall : entries.keys.filter (fun k => k ∉ keys ([] : Keyed α)) = entries.keys :=
    List.filter_eq_self.mpr fun k _ => decide_eq_true List.not_mem_nil
  have hkeys := keys_extend [] entries
  rwa [hall] at hkeys

/-- A list loses no entry exactly when its keys are apart. -/
theorem length_ofList_eq_iff {entries : Keyed α} :
    (ofList entries).length = entries.length ↔ entries.keys.Nodup := by
  have hlength : ∀ m : Keyed α, m.length = m.keys.length := fun m => (List.length_map _).symm
  rw [hlength, hlength, keys_ofList, length_eraseDups_eq_iff]

end Keyed

end ApiAssembly
