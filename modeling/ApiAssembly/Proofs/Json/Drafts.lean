import ApiAssembly.Json.Draft
import ApiAssembly.Proofs.Json.Tree
import ApiAssembly.Proofs.Keyed.Distinct

/-!
# Proofs — Json — values that were read are read again

A value that is there has a draft (`Json.draft`), and reading that draft gives the value again
wherever no object in it has a key twice.  Reading never leaves such an object, so what was read
once reads back.  It is nested no deeper than the draft that it was read from, where what is nested
too deep to be read does not count (`readFrom_of_json?`).  Nothing in that draft is broken or cut
(`Draft.wellWritten_of_json?`).
-/

namespace ApiAssembly

namespace Draft

mutual

/-- How deep lists and records that can be read are nested. -/
def depth : Draft → Nat
  | .list ds     => depthOfItems ds + 1
  | .record fs _ => depthOfFields fs + 1
  | _            => 0

/-- The depth of the deepest item. -/
def depthOfItems : List Draft → Nat
  | []      => 0
  | d :: ds => max d.depth (depthOfItems ds)

/-- The depth of the deepest field. -/
def depthOfFields : List (String × Draft) → Nat
  | []           => 0
  | (_, d) :: fs => max d.depth (depthOfFields fs)

end

/-- A list is as deep as the deepest of its items. -/
theorem depthOfItems_le_iff {ds : List Draft} {n : Nat} :
    depthOfItems ds ≤ n ↔ ∀ d ∈ ds, d.depth ≤ n := by
  induction ds with
  | nil => simp [depthOfItems]
  | cons d ds ih => rw [depthOfItems, Nat.max_le, List.forall_mem_cons, ih]

/-- A record is as deep as the deepest of its fields. -/
theorem depthOfFields_le_iff {fs : List (String × Draft)} {n : Nat} :
    depthOfFields fs ≤ n ↔ ∀ f ∈ fs, f.2.depth ≤ n := by
  induction fs with
  | nil => simp [depthOfFields]
  | cons f fs ih => rw [depthOfFields, Nat.max_le, List.forall_mem_cons, ih]

end Draft

namespace Json

/-- The draft of the value is read as the value. -/
def ReadsBack (j : Json) : Prop := j.draft.json? = some j

/-- The draft of an object has the drafts of its values under its keys. -/
theorem draftFields_eq_mapValues (fields : List (String × Json)) :
    draftFields fields = Keyed.mapValues draft fields := by
  induction fields with
  | nil => rfl
  | cons e fields ih =>
    obtain ⟨k, x⟩ := e
    rw [draftFields, ih]
    rfl

theorem draft_eq_null_iff {j : Json} : j.draft = .null ↔ j = .null := by
  cases j <;> simp [draft]

/-! ### Arrays and objects -/

theorem jsonItems?_draftItems {items : List Json} (h : ∀ x ∈ items, x.ReadsBack) :
    Draft.jsonItems? (draftItems items) = some items := by
  induction items with
  | nil => rfl
  | cons x items ih =>
    have hx : x.draft.json? = some x := h x List.mem_cons_self
    rw [draftItems, Draft.jsonItems?, hx, ih fun y hy => h y (List.mem_cons_of_mem _ hy)]

theorem jsonFields?_draftFields {fields : List (String × Json)} (h : ∀ f ∈ fields, f.2.ReadsBack) :
    Draft.jsonFields? (draftFields fields) = some fields := by
  induction fields with
  | nil => rfl
  | cons f fields ih =>
    obtain ⟨k, x⟩ := f
    have hx : x.draft.json? = some x := h _ List.mem_cons_self
    rw [draftFields, Draft.jsonFields?, hx, ih fun y hy => h y (List.mem_cons_of_mem _ hy)]

/-- An array is read back when its items are. -/
theorem readsBack_arr {items : List Json} (h : ∀ x ∈ items, x.ReadsBack) :
    (arr items).ReadsBack := by
  rw [ReadsBack, draft, Draft.json?, jsonItems?_draftItems h]
  rfl

/-- An object is read back when its values are and it has no key twice. -/
theorem readsBack_obj {fields : List (String × Json)} (hkeys : (Keyed.keys fields).Nodup)
    (h : ∀ f ∈ fields, f.2.ReadsBack) : (obj fields).ReadsBack := by
  rw [ReadsBack, draft, Draft.json?, jsonFields?_draftFields h]
  exact congrArg (some ∘ obj) (Keyed.ofList_of_nodup hkeys)

/-! ### What was read -/

/-- What is kept of a value by reading it: it reads back, and is no deeper than its draft. -/
structure ReadFrom (depth : Nat) (j : Json) : Prop where
  readsBack : j.ReadsBack
  depth_le : j.depth ≤ depth

/-- What was read within some depth was read within a greater one. -/
theorem ReadFrom.mono {m n : Nat} {j : Json} (h : j.ReadFrom m) (hmn : m ≤ n) : j.ReadFrom n :=
  ⟨h.readsBack, Nat.le_trans h.depth_le hmn⟩

theorem readsBack_str (s : String) : (str s).ReadsBack := rfl

theorem readFrom_str (s : String) (n : Nat) : (str s).ReadFrom n :=
  ⟨readsBack_str s, Nat.zero_le n⟩

theorem readFrom_arr {items : List Json} {n : Nat} (h : ∀ x ∈ items, x.ReadFrom n) :
    (arr items).ReadFrom (n + 1) :=
  ⟨readsBack_arr fun x hx => (h x hx).readsBack,
    Nat.succ_le_succ (depthOfItems_le_iff.mpr fun x hx => (h x hx).depth_le)⟩

/-- An object without a key twice is one level deeper than its values. -/
theorem readFrom_obj {fields : List (String × Json)} {n : Nat} (hkeys : (Keyed.keys fields).Nodup)
    (h : ∀ f ∈ fields, f.2.ReadFrom n) : (obj fields).ReadFrom (n + 1) :=
  ⟨readsBack_obj hkeys fun f hf => (h f hf).readsBack,
    Nat.succ_le_succ (depthOfFields_le_iff.mpr fun f hf => (h f hf).depth_le)⟩

mutual

/-- **A value that was read reads back**, and is nested no deeper than its draft. -/
theorem readFrom_of_json? : ∀ {d : Draft} {j : Json}, d.json? = some j → j.ReadFrom d.depth
  | .null, _, h | .bool _, _, h | .num _, _, h | .str _, _, h => by
    obtain rfl := Option.some.inj h
    exact ⟨rfl, Nat.zero_le _⟩
  | .list items, _, h => by
    obtain ⟨xs, hxs, rfl⟩ := Option.map_eq_some_iff.mp h
    exact readFrom_arr (readFrom_of_jsonItems? hxs)
  | .record fields e, _, h => by
    rw [Draft.json?] at h
    split at h
    · cases h
    · obtain ⟨fs, hfs, rfl⟩ := Option.map_eq_some_iff.mp h
      exact readFrom_obj (Keyed.nodup_keys_ofList fs) fun f hf =>
        readFrom_of_jsonFields? hfs f (Keyed.mem_of_mem_ofList hf)

/-- The items of a list, each read from one of its drafts. -/
theorem readFrom_of_jsonItems? : ∀ {items : List Draft} {xs : List Json},
    Draft.jsonItems? items = some xs → ∀ x ∈ xs, x.ReadFrom (Draft.depthOfItems items)
  | [], _, h => by
    obtain rfl := Option.some.inj h
    exact fun x hx => absurd hx List.not_mem_nil
  | d :: ds, _, h => by
    rw [Draft.jsonItems?] at h
    split at h
    case h_1 x xs hx hxs =>
      obtain rfl := Option.some.inj h
      exact List.forall_mem_cons.mpr ⟨(readFrom_of_json? hx).mono (Nat.le_max_left _ _),
        fun y hy => (readFrom_of_jsonItems? hxs y hy).mono (Nat.le_max_right _ _)⟩
    case h_2 => cases h

/-- The values of a record, each read from one of its drafts. -/
theorem readFrom_of_jsonFields? : ∀ {fields : List (String × Draft)} {fs : List (String × Json)},
    Draft.jsonFields? fields = some fs → ∀ f ∈ fs, f.2.ReadFrom (Draft.depthOfFields fields)
  | [], _, h => by
    obtain rfl := Option.some.inj h
    exact fun x hx => absurd hx List.not_mem_nil
  | (k, d) :: ds, _, h => by
    rw [Draft.jsonFields?] at h
    split at h
    case h_1 x xs hx hxs =>
      obtain rfl := Option.some.inj h
      exact List.forall_mem_cons.mpr ⟨(readFrom_of_json? hx).mono (Nat.le_max_left _ _),
        fun f hf => (readFrom_of_jsonFields? hxs f hf).mono (Nat.le_max_right _ _)⟩
    case h_2 => cases h

end

/-- Only a null is read as null. -/
theorem ne_null_of_json? {d : Draft} {j : Json} (h : d.json? = some j) (hd : d ≠ .null) :
    j ≠ .null := by
  rintro rfl
  cases d with
  | null => exact hd rfl
  | list items =>
    obtain ⟨_, _, h⟩ := Option.map_eq_some_iff.mp h
    cases h
  | record fields e =>
    rw [Draft.json?] at h
    split at h
    · cases h
    · obtain ⟨_, _, h⟩ := Option.map_eq_some_iff.mp h
      cases h
  | _ => cases h

end Json

/-! ### Well-written drafts -/

namespace Draft

/-- A list is well written when its items are. -/
theorem wellWrittenItems_iff {ds : List Draft} :
    wellWrittenItems ds = true ↔ ∀ d ∈ ds, d.wellWritten := by
  induction ds with
  | nil => simp [wellWrittenItems]
  | cons d ds ih => rw [wellWrittenItems, Bool.and_eq_true, ih, List.forall_mem_cons]

theorem wellWrittenFields_iff {fs : List (String × Draft)} :
    wellWrittenFields fs = true ↔ ∀ f ∈ fs, f.2.wellWritten := by
  induction fs with
  | nil => simp [wellWrittenFields]
  | cons f fs ih => rw [wellWrittenFields, Bool.and_eq_true, ih, List.forall_mem_cons]

/-- A record that is closed is well written when its fields are. -/
theorem wellWritten_closed {fs : List (String × Draft)} (h : ∀ f ∈ fs, f.2.wellWritten) :
    (record fs .closed).wellWritten := by
  rw [wellWritten, wellWrittenFields_iff.mpr h]
  rfl

mutual

/-- What has a value is well written. -/
theorem wellWritten_of_json? : ∀ {d : Draft} {j : Json}, d.json? = some j → d.wellWritten
  | .null, _, _ | .bool _, _, _ | .num _, _, _ | .str _, _, _ => rfl
  | .list items, _, h => by
    obtain ⟨xs, hxs, -⟩ := Option.map_eq_some_iff.mp h
    exact wellWrittenItems_of_jsonItems? hxs
  | .record fields e, _, h => by
    rw [Draft.json?] at h
    split at h
    case isTrue => cases h
    case isFalse he =>
      obtain ⟨fs, hfs, -⟩ := Option.map_eq_some_iff.mp h
      have hclosed : e = .closed := by simpa [Ending.stops] using he
      rw [hclosed]
      exact wellWritten_closed (wellWrittenFields_iff.mp (wellWrittenFields_of_jsonFields? hfs))

theorem wellWrittenItems_of_jsonItems? : ∀ {items : List Draft} {xs : List Json},
    jsonItems? items = some xs → wellWrittenItems items
  | [], _, _ => rfl
  | d :: ds, _, h => by
    rw [jsonItems?] at h
    split at h
    case h_1 x xs hx hxs =>
      rw [wellWrittenItems, wellWritten_of_json? hx, wellWrittenItems_of_jsonItems? hxs]
      rfl
    case h_2 => cases h

theorem wellWrittenFields_of_jsonFields? : ∀ {fields : List (String × Draft)}
    {fs : List (String × Json)}, jsonFields? fields = some fs → wellWrittenFields fields
  | [], _, _ => rfl
  | (k, d) :: ds, _, h => by
    rw [jsonFields?] at h
    split at h
    case h_1 x xs hx hxs =>
      rw [wellWrittenFields, wellWritten_of_json? hx, wellWrittenFields_of_jsonFields? hxs]
      rfl
    case h_2 => cases h

end

end Draft

end ApiAssembly
