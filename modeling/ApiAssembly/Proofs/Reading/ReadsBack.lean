import ApiAssembly.Proofs.Json.InPlace
import ApiAssembly.Proofs.Reading.Shape

/-!
# Proofs — Reading — what is read back

A value is read back when what is written of it is read as the value (`Draft.ReadsBack`).  Whatever
was read is read back; of any other value it depends on what it is made of.  A list is read back
when its items are, a map when its values are and its keys are apart, and an object when the values
of its cells are and no key of its extensions is that of another extension or of a cell
(`Shape.Describes.readsBack_iff`).

`Draft.GoesByKeys` is about values that are changed: a value that is read back is changed into one
that is read back exactly when the keys in that are apart.  It goes from the parts to the whole.
-/

namespace ApiAssembly

/-- The keys of the maps in the values of a map, and its own. -/
def Keyed.keyListsWith {α : Type} (f : α → List (List String)) (m : Keyed α) :
    List (List String) :=
  m.keys :: m.flatMap fun entry => f entry.2

/-- The keys of an object that has modelled keys and others, and those in the values of the
others. -/
def extensionKeyLists (names : List String) (extensions : Keyed Json) : List (List String) :=
  (names ++ extensions.keys) :: extensions.flatMap fun entry => entry.2.keyLists

/-! ### Lists and maps -/

namespace Draft

variable {α : Type} {read : Draft → Reading α} {write : α → Json}

/-- What is written of the value is read as the value. -/
def ReadsBack (read : Draft → Reading α) (write : α → Json) (a : α) : Prop :=
  read (write a).draft = .ok a

/-- A free value is read back exactly when no object in it has a key twice. -/
theorem readsBack_free_iff {j : Json} : ReadsBack free id j ↔ Apart j.keyLists :=
  free_eq_ok_iff.trans j.readsBack_iff

/-- A list is read back only if its items are. -/
theorem readsBack_of_itemsFrom {l : List α} {i : Nat}
    (h : itemsFrom read i (Json.draftItems (l.map write)) = .ok l) :
    ∀ a ∈ l, ReadsBack read write a := by
  induction l generalizing i with
  | nil => exact fun a ha => absurd ha List.not_mem_nil
  | cons a l ih =>
    obtain ⟨x, hx, h⟩ := Reading.exists_of_bind_eq_ok h
    obtain ⟨xs, hxs, h⟩ := Reading.exists_of_bind_eq_ok h
    obtain ⟨rfl, rfl⟩ := List.cons.inj (Except.ok.inj h)
    exact List.forall_mem_cons.mpr ⟨Reading.of_under_eq_ok hx, ih hxs⟩

/-- A list is read back exactly when its items are. -/
theorem readsBack_listOf_iff {l : List α} :
    ReadsBack (listOf read) (fun l => .arr (l.map write)) l ↔ ∀ a ∈ l, ReadsBack read write a :=
  ⟨readsBack_of_itemsFrom, fun h => itemsFrom_draftItems h 0⟩

/-- A map is read back only if its values are. -/
theorem readsBack_of_entriesOf {m : Keyed α}
    (h : entriesOf read (Json.draftFields (m.mapValues write)) = .ok m) :
    ∀ e ∈ m, ReadsBack read write e.2 := by
  induction m with
  | nil => exact fun a ha => absurd ha List.not_mem_nil
  | cons e m ih =>
    obtain ⟨k, a⟩ := e
    obtain ⟨x, hx, h⟩ := Reading.exists_of_bind_eq_ok h
    obtain ⟨xs, hxs, h⟩ := Reading.exists_of_bind_eq_ok h
    obtain ⟨he, rfl⟩ := List.cons.inj (Except.ok.inj h)
    obtain ⟨-, rfl⟩ := Prod.mk.inj he
    exact List.forall_mem_cons.mpr ⟨Reading.of_under_eq_ok hx, ih hxs⟩

/-- A map is read back exactly when it has no key twice and its values are. -/
theorem readsBack_mapOf_iff {m : Keyed α} :
    ReadsBack (mapOf read) (fun m => .obj (m.mapValues write)) m ↔
      m.keys.Nodup ∧ ∀ e ∈ m, ReadsBack read write e.2 := by
  refine ⟨fun h => ?_, fun h => mapOf_draft h.1 h.2⟩
  obtain ⟨fs, es, hfs, hes, hm⟩ := mapOf_eq_ok h
  obtain ⟨rfl, -⟩ := Draft.record.inj hfs
  have hnodup : m.keys.Nodup := hm ▸ Keyed.nodup_keys_ofList es
  have hkeys : Keyed.keys es = m.keys := by
    rw [keys_of_entriesOf hes, Json.draftFields_eq_mapValues, Keyed.keys_mapValues,
      Keyed.keys_mapValues]
  -- The keys are apart, so the map is the entries that were read.
  obtain rfl : m = es := hm.trans (Keyed.ofList_of_nodup (hkeys ▸ hnodup))
  exact ⟨hnodup, readsBack_of_entriesOf hes⟩

end Draft

/-! ### Cells -/

namespace Cell

/-- What is written for the value is read as the value. -/
def ReadsBack (c : Cell) (v : c.Value) : Prop :=
  (c.entries v = [] ∧ v = c.absent) ∨ ∃ j, c.entries v = [(c.name, j)] ∧ c.read j.draft = .ok v

/-- A cell is read back when there is a depth within which it restores its value. -/
theorem readsBack_iff {c : Cell} (hc : ∀ d, c.SoundAt d) {v : c.Value} :
    c.ReadsBack v ↔ ∃ n, c.Restores n v := by
  constructor
  · rintro (h | ⟨j, -, hread⟩)
    · exact ⟨0, .inl h⟩
    · exact ⟨_, hc j.draft v hread⟩
  · rintro ⟨n, h | ⟨j, hone, hread, -⟩⟩
    · exact .inl h
    · exact .inr ⟨j, hone, hread⟩

variable {α : Type} {name : String} {read : Draft → Reading α} {write : α → Json}

/-- A cell that is always written is read back when its value is. -/
theorem readsBack_always_iff {absent : α} {h : read (write absent).draft = .ok absent}
    {hback : (write absent).ReadsBack} {a : α} :
    (Cell.always name read write absent h hback).ReadsBack a ↔ Draft.ReadsBack read write a := by
  refine ⟨?_, fun h => .inr ⟨write a, rfl, h⟩⟩
  rintro (⟨hnone, -⟩ | ⟨j, hone, hread⟩)
  · cases hnone
  · obtain ⟨-, rfl⟩ := Prod.mk.inj (List.cons.inj hone).1
    exact hread

/-- Where a null stands for no value, a value that is written as one is not read back. -/
theorem readsBack_optional_iff {o : Option α} :
    (Cell.optional name read write).ReadsBack o ↔
      ∀ a ∈ o, write a ≠ .null ∧ Draft.ReadsBack read write a := by
  cases o with
  | none => exact iff_of_true (.inl ⟨rfl, rfl⟩) nofun
  | some a =>
    simp only [Option.mem_some_iff, forall_eq']
    constructor
    · rintro (⟨hnone, -⟩ | ⟨j, hone, hread⟩)
      · cases hnone
      · obtain ⟨-, rfl⟩ := Prod.mk.inj (List.cons.inj hone).1
        replace hread : (write a).draft.optional read = .ok (some a) := hread
        have hnull : write a ≠ .null := by
          intro h
          rw [h] at hread
          cases hread
        rw [Draft.optional_of_ne_null (mt Json.draft_eq_null_iff.mp hnull)] at hread
        obtain ⟨b, hb, he⟩ := Reading.exists_of_map_eq_ok hread
        obtain rfl := Option.some.inj he
        exact ⟨hnull, hb⟩
    · rintro ⟨hnull, hread⟩
      refine .inr ⟨write a, rfl, ?_⟩
      show (write a).draft.optional read = _
      rw [Draft.optional_of_ne_null (mt Json.draft_eq_null_iff.mp hnull),
        show read (write a).draft = .ok a from hread]
      rfl

/-- Where a null is not what is wanted, a value is read back as it is. -/
theorem readsBack_optional_iff_of (hnull : ∀ a, read .null ≠ .ok a) {o : Option α} :
    (Cell.optional name read write).ReadsBack o ↔ ∀ a ∈ o, Draft.ReadsBack read write a := by
  rw [readsBack_optional_iff]
  refine forall₂_congr fun a _ => ⟨And.right, fun h => ⟨fun hw => hnull a ?_, h⟩⟩
  rwa [Draft.ReadsBack, hw] at h

/-- A text is read back, whatever it says. -/
theorem readsBack_text (o : Option String) : (Cell.optional name Draft.text .str).ReadsBack o :=
  readsBack_optional_iff.mpr fun _ _ => ⟨nofun, rfl⟩

theorem readsBack_scalarText (o : Option String) :
    (Cell.optional name Draft.scalarText .str).ReadsBack o :=
  readsBack_optional_iff.mpr fun _ _ => ⟨nofun, rfl⟩

theorem readsBack_flag (o : Option Bool) : (Cell.optional name Draft.boolean .bool).ReadsBack o :=
  readsBack_optional_iff.mpr fun _ _ => ⟨nofun, rfl⟩

/-- A free value is read back unless it is null, which is written but read as nothing. -/
theorem readsBack_free_iff {o : Option Json} :
    (Cell.optional name Draft.free id).ReadsBack o ↔ ∀ j ∈ o, j ≠ .null ∧ Apart j.keyLists := by
  simp only [readsBack_optional_iff, Draft.readsBack_free_iff, id]

/-- A list is left out where it is empty, and read back as empty then. -/
theorem readsBack_list_iff {l : List α} :
    (Cell.list name read write).ReadsBack l ↔ ∀ a ∈ l, Draft.ReadsBack read write a := by
  cases l with
  | nil => exact iff_of_true (.inl ⟨rfl, rfl⟩) fun a ha => absurd ha List.not_mem_nil
  | cons a l =>
    rw [← Draft.readsBack_listOf_iff]
    refine ⟨?_, fun h => .inr ⟨_, rfl, h⟩⟩
    rintro (⟨hnone, -⟩ | ⟨j, hone, hread⟩)
    · cases hnone
    · obtain ⟨-, rfl⟩ := Prod.mk.inj (List.cons.inj hone).1
      exact hread

theorem readsBack_texts (l : List String) : (Cell.list name Draft.text .str).ReadsBack l :=
  readsBack_list_iff.mpr fun _ _ => rfl

/-- A map is left out where it is empty, and read back as empty then. -/
theorem readsBack_map_iff {m : Keyed α} :
    (Cell.map name read write).ReadsBack m ↔
      m.keys.Nodup ∧ ∀ e ∈ m, Draft.ReadsBack read write e.2 := by
  cases m with
  | nil =>
    exact iff_of_true (.inl ⟨rfl, rfl⟩) ⟨List.nodup_nil, fun e he => absurd he List.not_mem_nil⟩
  | cons e m =>
    rw [← Draft.readsBack_mapOf_iff]
    refine ⟨?_, fun h => .inr ⟨_, rfl, h⟩⟩
    rintro (⟨hnone, -⟩ | ⟨j, hone, hread⟩)
    · cases hnone
    · obtain ⟨-, rfl⟩ := Prod.mk.inj (List.cons.inj hone).1
      exact hread

end Cell

/-! ### Objects -/

/-- The value of every cell is read back, and the keys that are not modelled come of keys that are
none of the given names. -/
def Row.ReadsBack (R : Rest) (names : List String) : (cs : List Cell) → Row R.Value cs → Prop
  | [],      r => ∃ n, R.Sound names n r
  | c :: cs, r => c.ReadsBack r.1 ∧ ReadsBack R names cs r.2

/-- A row is read back when there is a depth within which it restores its values. -/
theorem Row.readsBack_iff {R : Rest} {names : List String} {cs : List Cell}
    (hc : ∀ d, ∀ c ∈ cs, c.SoundAt d) {r : Row R.Value cs} :
    Row.ReadsBack R names cs r ↔ ∃ n, Row.Restores R names n cs r := by
  induction cs with
  | nil => exact Iff.rfl
  | cons c cs ih =>
    have hcell := c.readsBack_iff (fun d => (List.forall_mem_cons.mp (hc d)).1) (v := r.1)
    have hrow := ih (fun d => (List.forall_mem_cons.mp (hc d)).2) (r := r.2)
    show (_ ∧ _) ↔ ∃ n, _ ∧ _
    rw [hcell, hrow]
    constructor
    · rintro ⟨⟨m, hm⟩, n, hn⟩
      exact ⟨max m n, hm.mono (Nat.le_max_left _ _), hn.mono (Nat.le_max_right _ _)⟩
    · rintro ⟨n, hm, hn⟩
      exact ⟨⟨n, hm⟩, n, hn⟩

/-- **An object is read back when it is all in its row and the row is read back.** -/
theorem Shape.Describes.readsBack_iff {α : Type} {S : Shape α} {read : Draft → Reading α}
    {write : α → Json} (h : S.Describes read write) {a : α} :
    Draft.ReadsBack read write a ↔
      a = S.view.set (S.view.get a) S.empty ∧
        Row.ReadsBack S.rest S.names S.cells (S.view.get a) := by
  obtain ⟨rfl, rfl, hcells⟩ := h
  rw [Row.readsBack_iff hcells]
  constructor
  · intro ha
    let n := max S.base (S.write a).draft.depth
    have hrestored : S.Restored n a := Shape.restored_read (fun x _ => hcells x)
      (Nat.le_max_left _ _) (Nat.le_succ_of_le (Nat.le_max_right _ _)) ha
    exact ⟨hrestored.1, n, hrestored.2⟩
  · rintro ⟨hset, n, hrow⟩
    exact Shape.read_write ⟨hset, hrow⟩

/-- Extensions are read back when no key of them is that of another one or modelled, and their
values are. -/
theorem Rest.exists_sound_kept_iff {names : List String} (hnames : names.Nodup) {m : Keyed Json} :
    (∃ n, Rest.kept.Sound names n m) ↔ Apart (extensionKeyLists names m) := by
  have hkeys : (names ++ m.keys).Nodup ↔ m.keys.Nodup ∧ ∀ e ∈ m, e.1 ∉ names := by
    rw [List.nodup_append]
    constructor
    · rintro ⟨-, hm, hne⟩
      exact ⟨hm, fun e he hn => hne _ hn _ (List.mem_map_of_mem he) rfl⟩
    · rintro ⟨hm, hout⟩
      refine ⟨hnames, hm, fun a ha b hb hab => ?_⟩
      obtain ⟨e, he, rfl⟩ := List.mem_map.mp hb
      exact hout e he (hab ▸ ha)
  rw [extensionKeyLists, apart_cons, apart_flatMap, hkeys]
  constructor
  · rintro ⟨n, hm, hall⟩
    exact ⟨⟨hm, fun e he => (hall e he).1⟩,
      fun e he => e.2.readsBack_iff.mp (hall e he).2.readsBack⟩
  · rintro ⟨⟨hm, hout⟩, hvalues⟩
    refine ⟨Json.depthOfFields m, hm, fun e he => ⟨hout e he, ?_⟩⟩
    exact ⟨e.2.readsBack_iff.mpr (hvalues e he),
      Json.depthOfFields_le_iff.mp (Nat.le_refl _) e he⟩

/-! ### Values that are changed -/

namespace Draft

variable {α : Type} {read : Draft → Reading α} {write : α → Json} {change : α → α}
  {keyLists : α → List (List String)}

/-- If the value is read back, then what it is changed into is read back exactly when the keys in
that are apart. -/
def GoesByKeys (read : Draft → Reading α) (write : α → Json) (change : α → α)
    (keyLists : α → List (List String)) (a : α) : Prop :=
  ReadsBack read write a → (ReadsBack read write (change a) ↔ Apart (keyLists (change a)))

namespace GoesByKeys

/-- The items of a list go by their own keys. -/
theorem list {l : List α} (h : ∀ a ∈ l, GoesByKeys read write change keyLists a)
    (hl : ∀ a ∈ l, ReadsBack read write a) :
    (∀ a ∈ l.map change, ReadsBack read write a) ↔ Apart ((l.map change).flatMap keyLists) := by
  rw [apart_flatMap, List.forall_mem_map, List.forall_mem_map]
  exact forall₂_congr fun a ha => h a ha (hl a ha)

/-- An optional part goes by its keys where it is there. -/
theorem optional {o : Option α} (h : ∀ a ∈ o, GoesByKeys read write change keyLists a)
    (ho : ∀ a ∈ o, ReadsBack read write a) :
    (∀ a ∈ o.map change, ReadsBack read write a) ↔
      Apart ((o.map change).toList.flatMap keyLists) := by
  cases o with
  | none => exact iff_of_true nofun apart_nil
  | some a => simpa using h a rfl (ho a rfl)

/-- A map goes by its keys and by those of its values. -/
theorem map {m : Keyed α} (h : ∀ e ∈ m, GoesByKeys read write change keyLists e.2)
    (hm : ∀ e ∈ m, ReadsBack read write e.2) (f : String → String) :
    ((m.mapBoth f change).keys.Nodup ∧ ∀ e ∈ m.mapBoth f change, ReadsBack read write e.2) ↔
      Apart ((m.mapBoth f change).keyListsWith keyLists) := by
  rw [Keyed.keyListsWith, apart_cons, apart_flatMap, Keyed.mapBoth, List.forall_mem_map,
    List.forall_mem_map]
  exact and_congr_right fun _ => forall₂_congr fun e he => h e he (hm e he)

end GoesByKeys

end Draft

end ApiAssembly
