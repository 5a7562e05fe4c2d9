import ApiAssembly.Placeholder.Resolve
import ApiAssembly.Proofs.Json.Drafts

/-!
# Proofs — Json — texts replaced in place

`j.withTexts f` is a value with a function applied to each of its texts, keys and strings, where
they stand.  `Json.mapText` does that too, and then writes entries of an object whose keys have
become one over each other.  So the two are equal as long as the keys stay apart
(`mapText_eq_withTexts`).

`keyLists` has the keys of every object of a value.  A value is read back exactly when no object in
it has a key twice (`readsBack_iff`).
-/

namespace ApiAssembly

/-- No list has a text twice. -/
def Apart (lists : List (List String)) : Prop := ∀ ks ∈ lists, ks.Nodup

instance (lists : List (List String)) : Decidable (Apart lists) :=
  inferInstanceAs (Decidable (∀ _ ∈ _, _))

/-- A map with a function applied to its keys and one to its values. -/
def Keyed.mapBoth {α β : Type} (f : String → String) (g : α → β) (m : Keyed α) : Keyed β :=
  m.map fun e => (f e.1, g e.2)

section Apart

variable {α : Type}

@[simp] theorem apart_nil : Apart [] := nofun

/-- Keys are apart when they are in the first object and in all others. -/
@[simp] theorem apart_cons {ks : List String} {lists : List (List String)} :
    Apart (ks :: lists) ↔ ks.Nodup ∧ Apart lists :=
  List.forall_mem_cons

@[simp] theorem apart_append {lists more : List (List String)} :
    Apart (lists ++ more) ↔ Apart lists ∧ Apart more :=
  List.forall_mem_append

/-- What two parts say of their own keys makes what they say of the keys of both. -/
theorem and_iff_apart_append {p q : Prop} {lists more : List (List String)} (h : p ↔ Apart lists)
    (h' : q ↔ Apart more) : p ∧ q ↔ Apart (lists ++ more) :=
  (and_congr h h').trans apart_append.symm

@[simp] theorem apart_flatMap {l : List α} {f : α → List (List String)} :
    Apart (l.flatMap f) ↔ ∀ a ∈ l, Apart (f a) :=
  List.forall_mem_flatMap

end Apart

namespace Json

mutual

/-- Applies a function to every text of a value, keys included, and moves nothing. -/
def withTexts (f : String → String) : Json → Json
  | .str s      => .str (f s)
  | .arr items  => .arr (withTextsItems f items)
  | .obj fields => .obj (withTextsFields f fields)
  | .null       => .null
  | .bool b     => .bool b
  | .num n      => .num n

/-- The items with a function applied to their texts. -/
def withTextsItems (f : String → String) : List Json → List Json
  | []     => []
  | x :: r => x.withTexts f :: withTextsItems f r

/-- The entries with a function applied to their texts. -/
def withTextsFields (f : String → String) : List (String × Json) → List (String × Json)
  | []          => []
  | (k, x) :: r => (f k, x.withTexts f) :: withTextsFields f r

end

mutual

/-- The keys of each object of a value. -/
def keyLists : Json → List (List String)
  | .arr items  => keyListsOfItems items
  | .obj fields => Keyed.keys fields :: keyListsOfFields fields
  | _           => []

/-- The keys of each object of the items. -/
def keyListsOfItems : List Json → List (List String)
  | []     => []
  | x :: r => x.keyLists ++ keyListsOfItems r

/-- The keys of each object of the values of entries. -/
def keyListsOfFields : List (String × Json) → List (List String)
  | []          => []
  | (_, x) :: r => x.keyLists ++ keyListsOfFields r

end

/-- An array is replaced item by item. -/
theorem withTextsItems_eq (f : String → String) (items : List Json) :
    withTextsItems f items = items.map (withTexts f) := by
  induction items with
  | nil => rfl
  | cons x items ih => rw [withTextsItems, ih, List.map_cons]

/-- An object is replaced in its keys and in its values. -/
theorem withTextsFields_eq (f : String → String) (fields : List (String × Json)) :
    withTextsFields f fields = Keyed.mapBoth f (withTexts f) fields := by
  induction fields with
  | nil => rfl
  | cons e fields ih =>
    rw [withTextsFields, ih]
    rfl

theorem keyListsOfItems_eq (items : List Json) :
    keyListsOfItems items = items.flatMap keyLists := by
  induction items with
  | nil => rfl
  | cons x items ih => rw [keyListsOfItems, ih, List.flatMap_cons]

theorem keyListsOfFields_eq (fields : List (String × Json)) :
    keyListsOfFields fields = fields.flatMap fun e => e.2.keyLists := by
  induction fields with
  | nil => rfl
  | cons e fields ih => rw [keyListsOfFields, ih, List.flatMap_cons]

/-- In an array the keys are apart when they are in each item. -/
theorem apart_arr {items : List Json} :
    Apart (arr items).keyLists ↔ ∀ x ∈ items, Apart x.keyLists := by
  rw [keyLists, keyListsOfItems_eq, apart_flatMap]

/-- In an object the keys are apart when its own are, and those in each value. -/
theorem apart_obj {fields : List (String × Json)} :
    Apart (obj fields).keyLists ↔ (Keyed.keys fields).Nodup ∧ ∀ e ∈ fields, Apart e.2.keyLists := by
  rw [keyLists, keyListsOfFields_eq, apart_cons, apart_flatMap]

/-! ### Values that are read back -/

/-- An array is read back only if its items are. -/
theorem readsBack_of_jsonItems? {items : List Json}
    (h : Draft.jsonItems? (draftItems items) = some items) : ∀ x ∈ items, x.ReadsBack := by
  induction items with
  | nil => exact fun x hx => absurd hx List.not_mem_nil
  | cons x items ih =>
    rw [draftItems, Draft.jsonItems?] at h
    split at h
    case h_1 y ys hy hys =>
      obtain ⟨rfl, rfl⟩ := List.cons.inj (Option.some.inj h)
      exact List.forall_mem_cons.mpr ⟨hy, ih hys⟩
    case h_2 => cases h

/-- An object is read back only if its values are. -/
theorem readsBack_of_jsonFields? {fields : List (String × Json)}
    (h : Draft.jsonFields? (draftFields fields) = some fields) : ∀ e ∈ fields, e.2.ReadsBack := by
  induction fields with
  | nil => exact fun x hx => absurd hx List.not_mem_nil
  | cons e fields ih =>
    obtain ⟨k, x⟩ := e
    rw [draftFields, Draft.jsonFields?] at h
    split at h
    case h_1 y ys hy hys =>
      obtain ⟨he, rfl⟩ := List.cons.inj (Option.some.inj h)
      obtain ⟨-, rfl⟩ := Prod.mk.inj he
      exact List.forall_mem_cons.mpr ⟨hy, ih hys⟩
    case h_2 => cases h

/-- Reading the values of entries keeps their keys. -/
theorem keys_of_jsonFields? {fields fs : List (String × Json)}
    (h : Draft.jsonFields? (draftFields fields) = some fs) : Keyed.keys fs = Keyed.keys fields := by
  induction fields generalizing fs with
  | nil => obtain rfl := Option.some.inj h; rfl
  | cons e fields ih =>
    obtain ⟨k, x⟩ := e
    rw [draftFields, Draft.jsonFields?] at h
    split at h
    case h_1 y ys hy hys =>
      obtain rfl := Option.some.inj h
      exact congrArg (k :: ·) (ih hys)
    case h_2 => cases h

/-- **A value is read back exactly when no object in it has a key twice.** -/
theorem readsBack_iff (j : Json) : j.ReadsBack ↔ Apart j.keyLists := by
  induction j using induct with
  | null | bool _ | num _ | str _ => exact iff_of_true rfl apart_nil
  | arr items ih =>
    rw [apart_arr]
    refine ⟨fun h x hx => (ih x hx).mp ?_,
      fun h => readsBack_arr fun x hx => (ih x hx).mpr (h x hx)⟩
    obtain ⟨xs, hxs, he⟩ := Option.map_eq_some_iff.mp h
    obtain rfl := arr.inj he
    exact readsBack_of_jsonItems? hxs x hx
  | obj fields ih =>
    rw [apart_obj]
    refine ⟨fun h => ?_, fun h => readsBack_obj h.1 fun e he => (ih e he).mpr (h.2 e he)⟩
    obtain ⟨fs, hfs, he⟩ := Option.map_eq_some_iff.mp h
    have hwritten : Keyed.ofList fs = fields := obj.inj he
    have hkeys : (Keyed.keys fields).Nodup := hwritten ▸ Keyed.nodup_keys_ofList fs
    -- The keys are apart, so nothing was written over anything.
    obtain rfl : fs = fields :=
      (Keyed.ofList_of_nodup (keys_of_jsonFields? hfs ▸ hkeys)).symm.trans hwritten
    exact ⟨hkeys, fun e he => (ih e he).mp (readsBack_of_jsonFields? hfs e he)⟩

/-! ### Replacing the tokens of a value -/

theorem mapTextItems_eq_map (f : String → String) (items : List Json) :
    mapTextItems f items = items.map (mapText f) := by
  induction items with
  | nil => rfl
  | cons x items ih => rw [mapTextItems, ih, List.map_cons]

/-- A key is replaced like a text, but for a blank one. -/
theorem mapTextFields_eq_map (f : String → String) (fields : List (String × Json)) :
    mapTextFields f fields = fields.map fun e => (unlessBlank f e.1, e.2.mapText f) := by
  induction fields with
  | nil => rfl
  | cons e fields ih =>
    obtain ⟨k, x⟩ := e
    rw [mapTextFields, ih, List.map_cons]

/-- **Where the keys stay apart, every text is replaced in its place.** -/
theorem mapText_eq_withTexts {f : String → String} {j : Json}
    (h : Apart (j.withTexts (unlessBlank f)).keyLists) :
    j.mapText f = j.withTexts (unlessBlank f) := by
  induction j using induct with
  | null | bool _ | num _ | str _ => rfl
  | arr items ih =>
    rw [withTexts, withTextsItems_eq, apart_arr, List.forall_mem_map] at h
    rw [mapText, withTexts, mapTextItems_eq_map, withTextsItems_eq]
    exact congrArg arr (List.map_congr_left fun x hx => ih x hx (h x hx))
  | obj fields ih =>
    rw [withTexts, withTextsFields_eq, apart_obj] at h
    obtain ⟨hkeys, hvalues⟩ := h
    have hfields : mapTextFields f fields = withTextsFields (unlessBlank f) fields := by
      rw [mapTextFields_eq_map, withTextsFields_eq]
      refine List.map_congr_left fun e he => ?_
      rw [ih e he (hvalues _ (List.mem_map_of_mem he))]
    rw [mapText, withTexts, hfields, withTextsFields_eq, Keyed.ofList_of_nodup hkeys]

end Json

end ApiAssembly
