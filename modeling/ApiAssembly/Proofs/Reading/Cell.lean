import ApiAssembly.Endpoint
import ApiAssembly.Proofs.Reading.RoundTrip
import ApiAssembly.Proofs.Text.Sets

/-!
# Proofs — Reading — the cells of an object

A `Cell` is one modelled key of an object: how its value is read, which entry is written for it,
and the value that stands for no entry.  `c.Restores n v` says that what is written for `v` is read
as `v`, holds no key twice and is nested at most `n` deep; where nothing is written, `v` has to be
the value that stands for that.

`Rest` is what becomes of the keys that are not modelled.  They are kept (`Rest.kept`), or passed
over (`Rest.passed`).
-/

namespace ApiAssembly

/-- A modelled key of an object. -/
structure Cell where
  /-- What is read from the key. -/
  Value : Type
  name : String
  read : Draft → Reading Value
  /-- What is written for a value, one entry of the key or none. -/
  entries : Value → List (String × Json)
  /-- The value where the key is not there. -/
  absent : Value
  /-- The depth of what is written where the key is not there. -/
  floor : Nat := 0
  restores_absent : entries absent = [] ∨
    ∃ j : Json, entries absent = [(name, j)] ∧ read j.draft = .ok absent ∧ j.ReadFrom floor

namespace Cell

/-- What is written for the value is read as the value, and can come from a draft of a depth. -/
def Restores (c : Cell) (depth : Nat) (v : c.Value) : Prop :=
  (c.entries v = [] ∧ v = c.absent) ∨
    ∃ j, c.entries v = [(c.name, j)] ∧ c.read j.draft = .ok v ∧ j.ReadFrom depth

/-- What is restored within some depth is restored within a greater one. -/
theorem Restores.mono {c : Cell} {m n : Nat} {v : c.Value} (h : c.Restores m v) (hmn : m ≤ n) :
    c.Restores n v :=
  h.imp_right fun ⟨j, hj, hread, hfrom⟩ => ⟨j, hj, hread, hfrom.mono hmn⟩

/-- Every value that is read from the draft is restored, from a value that is no deeper. -/
def SoundAt (c : Cell) (d : Draft) : Prop := ∀ v, c.read d = .ok v → c.Restores d.depth v

variable {α : Type} (name : String) {read : Draft → Reading α} {write : α → Json} {d : Draft}

/-- A key that is always written. -/
def always (read : Draft → Reading α) (write : α → Json) (absent : α)
    (h : read (write absent).draft = .ok absent)
    (hback : (write absent).ReadsBack := by exact rfl) : Cell where
  Value := α
  name
  read
  entries a := [(name, write a)]
  absent
  floor := (write absent).depth
  restores_absent := .inr ⟨_, rfl, h, hback, Nat.le_refl _⟩

/-- A key whose value may be absent or null. -/
def optional (read : Draft → Reading α) (write : α → Json) : Cell where
  Value := Option α
  name
  read := Draft.optional read
  entries := optionalEntry name write
  absent := none
  restores_absent := .inl rfl

/-- A key for a list, which is written when there are items. -/
def list (read : Draft → Reading α) (write : α → Json) : Cell where
  Value := List α
  name
  read := Draft.listOf read
  entries l := listEntry name (l.map write)
  absent := []
  restores_absent := .inl rfl

/-- A key for a map, which is written when there are entries. -/
def map (read : Draft → Reading α) (write : α → Json) : Cell where
  Value := Keyed α
  name
  read := Draft.mapOf read
  entries m := mapEntry name (m.mapValues write)
  absent := []
  restores_absent := .inl rfl

/-- A key for a set of texts, which is written when there are texts. -/
def texts : Cell where
  Value := TextSet
  name
  read := Draft.textSet
  entries s := listEntry name (s.items.map .str)
  absent := ∅
  restores_absent := .inl rfl

namespace SoundAt

variable {name}

/-- A cell that is always written is sound when its values are read again. -/
theorem always {absent : α} {h : read (write absent).draft = .ok absent}
    {hback : (write absent).ReadsBack} (hd : d.RoundTrips read write) :
    (Cell.always name read write absent h hback).SoundAt d :=
  fun v hv => .inr ⟨write v, rfl, (hd v hv).again, (hd v hv).readFrom⟩

/-- Where a null stands for no value, no value may be written as one. -/
theorem optional_of (hd : d.RoundTrips read write)
    (hnull : d ≠ .null → ∀ a, read d = .ok a → write a ≠ .null) :
    (Cell.optional name read write).SoundAt d := by
  intro v hv
  by_cases hd' : d = .null
  · subst hd'
    exact .inl (Except.ok.inj hv ▸ ⟨rfl, rfl⟩)
  · replace hv : d.optional read = .ok v := hv
    rw [Draft.optional_of_ne_null hd'] at hv
    obtain ⟨a, ha, rfl⟩ := Reading.exists_of_map_eq_ok hv
    refine .inr ⟨write a, rfl, ?_, (hd a ha).readFrom⟩
    show (write a).draft.optional read = _
    rw [Draft.optional_of_ne_null (mt Json.draft_eq_null_iff.mp (hnull hd' a ha)),
      (hd a ha).again]
    rfl

/-- A cell of an optional value is sound when its values are read again and null is none of them. -/
theorem optional (hd : d.RoundTrips read write) (hnull : ∀ a, read .null ≠ .ok a) :
    (Cell.optional name read write).SoundAt d := by
  -- What is written as null would be read again from null.
  refine optional_of hd fun _ a ha hw => hnull a ?_
  have hback := (hd a ha).again
  rwa [hw] at hback

theorem text : (Cell.optional name Draft.text .str).SoundAt d :=
  optional d.roundTrips_text fun _ => nofun

theorem scalarText : (Cell.optional name Draft.scalarText .str).SoundAt d :=
  optional d.roundTrips_scalarText fun _ => nofun

theorem flag : (Cell.optional name Draft.boolean .bool).SoundAt d :=
  optional d.roundTrips_boolean fun _ => nofun

/-- Only a null is read as null, so a free value is none. -/
theorem free : (Cell.optional name Draft.free id).SoundAt d :=
  optional_of d.roundTrips_free fun hd _ h => Json.ne_null_of_json? (Draft.free_eq_ok_iff.mp h) hd

/-- A cell of a list is sound when its items are read again. -/
theorem list (hd : ∀ x ∈ d.children, x.RoundTrips read write) :
    (Cell.list name read write).SoundAt d := by
  intro l hl
  cases l with
  | nil => exact .inl ⟨rfl, rfl⟩
  | cons a l =>
    have hback := Draft.roundTrips_listOf hd _ hl
    exact .inr ⟨_, rfl, hback.again, hback.readFrom⟩

/-- A cell of a map is sound when its values are read again. -/
theorem map (hd : ∀ x ∈ d.children, x.RoundTrips read write) :
    (Cell.map name read write).SoundAt d := by
  intro m hm
  cases m with
  | nil => exact .inl ⟨rfl, rfl⟩
  | cons e m =>
    have hback := Draft.roundTrips_mapOf hd _ hm
    exact .inr ⟨_, rfl, hback.again, hback.readFrom⟩

/-- A set is read again from its texts. -/
theorem texts : (Cell.texts name).SoundAt d := by
  intro s hread
  by_cases hs : s.items = []
  · obtain ⟨items, nodup⟩ := s
    obtain rfl : items = [] := hs
    exact .inl ⟨rfl, rfl⟩
  refine .inr ⟨textList s.items, ?_, ?_, ?_⟩
  · show listEntry name _ = _
    rw [listEntry, if_neg (by simpa using hs)]
    rfl
  · have hitems : Draft.itemsFrom Draft.text 0 (Json.draftItems (s.items.map .str)) =
        .ok s.items := Draft.itemsFrom_draftItems (fun _ _ => rfl) 0
    show (do .ok (.ofList (← Draft.itemsFrom Draft.text 0 _)) : Reading TextSet) = .ok s
    rw [hitems]
    exact congrArg Except.ok s.ofList_items
  · obtain ⟨ds, hds, -⟩ := Reading.exists_of_bind_eq_ok hread
    obtain rfl := Draft.items_eq_ok hds
    exact (readFrom_textList s.items).mono (Nat.succ_le_succ (Nat.zero_le _))

end SoundAt

end Cell

/-! ### The keys that are not modelled -/

/-- What becomes of the keys that are not modelled. -/
structure Rest where
  /-- What is remembered of them. -/
  Value : Type
  absent : Value
  keep : String → Draft → Value → Reading Value
  entries : Value → List (String × Json)
  /-- The value may come of keys that are none of the given names, and drafts of a depth. -/
  Sound : List String → Nat → Value → Prop
  sound_absent (names : List String) (depth : Nat) : Sound names depth absent
  sound_keep {names : List String} {depth : Nat} {k : String} {d : Draft} {v v' : Value} :
    Sound names depth v → k ∉ names → d.depth ≤ depth → keep k d v = .ok v' → Sound names depth v'
  sound_mono {names : List String} {m n : Nat} {v : Value} : Sound names m v → m ≤ n →
    Sound names n v
  nodup_keys {names : List String} {depth : Nat} {v : Value} : Sound names depth v →
    (Keyed.keys (entries v)).Nodup
  of_mem {names : List String} {depth : Nat} {v : Value} : Sound names depth v →
    ∀ e ∈ entries v, e.1 ∉ names ∧ e.2.ReadFrom depth
  keep_entries {names : List String} {depth : Nat} {v : Value} : Sound names depth v →
    (Json.draftFields (entries v)).foldlM (fun v e => keep e.1 e.2 v) absent = .ok v

namespace Rest

/-- A key that is not modelled is kept with the free value under it. -/
theorem keepEntry_eq_ok {m m' : Keyed Json} {k : String} {d : Draft}
    (h : keepEntry m k d = .ok m') : ∃ j, d.json? = some j ∧ m' = m.insert k j := by
  obtain ⟨j, hj, h⟩ := Reading.exists_of_bind_eq_ok h
  exact ⟨j, Draft.free_eq_ok_iff.mp hj, (Except.ok.inj h).symm⟩

/-- Free values that are written under keys of their own are kept in their order. -/
theorem keepEntry_draftFields {m entries : Keyed Json} (hkeys : (Keyed.keys (m ++ entries)).Nodup)
    (h : ∀ e ∈ entries, e.2.ReadsBack) :
    (Json.draftFields entries).foldlM (fun m e => keepEntry m e.1 e.2) m = .ok (m ++ entries) := by
  induction entries generalizing m with
  | nil => rw [List.append_nil]; rfl
  | cons e entries ih =>
    obtain ⟨k, j⟩ := e
    obtain ⟨hj, hes⟩ := List.forall_mem_cons.mp h
    rw [Keyed.keys, List.map_append, List.map_cons] at hkeys
    have hnew : k ∉ m.keys := fun hm =>
      (List.nodup_append.mp hkeys).2.2 _ hm _ List.mem_cons_self rfl
    have hkeep : keepEntry m k j.draft = .ok (m ++ [(k, j)]) := by
      rw [keepEntry, Draft.free_eq_ok_iff.mpr hj, ← Keyed.insert_of_not_mem hnew]
      rfl
    rw [Json.draftFields, List.foldlM_cons, hkeep]
    show (Json.draftFields entries).foldlM _ (m ++ [(k, j)]) = _
    rw [ih (by simpa [Keyed.keys] using hkeys) hes, List.append_assoc, List.singleton_append]

/-- Keys that are kept as they are, behind the modelled ones. -/
def kept : Rest where
  Value := Keyed Json
  absent := []
  keep k d m := keepEntry m k d
  entries m := m
  Sound names depth m := m.keys.Nodup ∧ ∀ e ∈ m, e.1 ∉ names ∧ e.2.ReadFrom depth
  sound_absent _ _ := ⟨List.nodup_nil, fun _ he => absurd he List.not_mem_nil⟩
  sound_keep := by
    rintro names depth k d m m' ⟨hkeys, hm⟩ hk hd h
    obtain ⟨j, hj, rfl⟩ := keepEntry_eq_ok h
    refine ⟨Keyed.nodup_keys_insert hkeys k j, fun e he => ?_⟩
    rcases Keyed.mem_insert he with rfl | he
    · exact ⟨hk, (Json.readFrom_of_json? hj).mono hd⟩
    · exact hm e he
  sound_mono h hmn := ⟨h.1, fun e he => ⟨(h.2 e he).1, (h.2 e he).2.mono hmn⟩⟩
  nodup_keys h := h.1
  of_mem h := h.2
  keep_entries h := keepEntry_draftFields (m := []) h.1 fun e he => (h.2 e he).2.readsBack

/-- Keys that are passed over; what is well written may stand there. -/
def passed : Rest where
  Value := Unit
  absent := ()
  keep _ d _ := if d.wellWritten then .ok () else .error .malformed
  entries _ := []
  Sound _ _ _ := True
  sound_absent _ _ := trivial
  sound_keep _ _ _ _ := trivial
  sound_mono _ _ := trivial
  nodup_keys _ := List.nodup_nil
  of_mem _ _ he := absurd he List.not_mem_nil
  keep_entries _ := rfl

end Rest

end ApiAssembly
