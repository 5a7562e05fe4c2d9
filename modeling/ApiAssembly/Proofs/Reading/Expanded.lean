import ApiAssembly.Proofs.Json.InPlace
import ApiAssembly.Proofs.Reading.Row

/-!
# Proofs — Reading — objects that are read from what they expand to

The names of cells have no token, so when the texts of what is written of an object are expanded,
the entry of a cell stays under the name of the cell.  Nothing else comes to stand there but what
was written of the keys that are not modelled, for these expand to any key.  So of an object that
was written, expanded and read, each cell goes by its own value and those keys
(`Shape.Describes.expanded_of_read`).
-/

namespace ApiAssembly

/-! ### The entries of an object once its texts are replaced -/

namespace Json

/-- The values that end up under a key once the texts of an object are replaced. -/
def valuesAt (f : String → String) (k : String) (fields : List (String × Json)) :
    List (String × Json) :=
  (mapTextFields f fields).filter fun e => e.1 = k

theorem mapText_eq_null_iff {f : String → String} {j : Json} : j.mapText f = .null ↔ j = .null := by
  cases j <;> simp [mapText]

theorem valuesAt_append (f : String → String) (k : String) (xs ys : List (String × Json)) :
    valuesAt f k (xs ++ ys) = valuesAt f k xs ++ valuesAt f k ys := by
  simp only [valuesAt, mapTextFields_eq_map, List.map_append, List.filter_append]

theorem valuesAt_eq_nil (e : Expander) {k : String} {fields : List (String × Json)}
    (h : ∀ x ∈ fields, e.expand x.1 ≠ k) : valuesAt e.expand k fields = [] := by
  rw [valuesAt, mapTextFields_eq_map, List.filter_eq_nil_iff]
  intro x hx
  obtain ⟨y, hy, rfl⟩ := List.mem_map.mp hx
  rw [e.unlessBlank_expand]
  simpa using h y hy

/-- The entry of a key without a token stays under the key. -/
theorem valuesAt_self (e : Expander) {key : String}
    (hplain : Placeholder.opensToken key.toList = false) (j : Json) :
    valuesAt e.expand key [(key, j)] = [(key, j.mapText e.expand)] := by
  rw [valuesAt, mapTextFields_eq_map, List.map_singleton, e.unlessBlank_expand,
    e.expand_of_not_opens hplain]
  simp

end Json

theorem eq_of_mem_optionalEntry {α : Type} {key : String} {write : α → Json} {o : Option α} :
    ∀ x ∈ optionalEntry key write o, x.1 = key := by
  intro x hx
  cases o with
  | none => exact absurd hx List.not_mem_nil
  | some a => exact List.mem_singleton.mp hx ▸ rfl

theorem eq_of_mem_listEntry {key : String} {items : List Json} :
    ∀ x ∈ listEntry key items, x.1 = key := by
  intro x hx
  rw [listEntry] at hx
  split at hx
  · exact absurd hx List.not_mem_nil
  · exact List.mem_singleton.mp hx ▸ rfl

theorem eq_of_mem_mapEntry {key : String} {m : Keyed Json} : ∀ x ∈ mapEntry key m, x.1 = key := by
  intro x hx
  rw [mapEntry] at hx
  split at hx
  · exact absurd hx List.not_mem_nil
  · exact List.mem_singleton.mp hx ▸ rfl

/-- A map that is read from expanded texts has the expanded keys, each at its first place. -/
theorem Draft.keys_of_mapOf_mapText {α : Type} {read : Draft → Reading α} {m : Keyed α}
    {fields : Keyed Json} {f : String → String}
    (h : mapOf read ((Json.obj fields).mapText f).draft = .ok m) :
    m.keys = (fields.keys.map (unlessBlank f)).eraseDups := by
  obtain ⟨fs, es, hfs, hes, rfl⟩ := mapOf_eq_ok h
  obtain ⟨rfl, -⟩ := Draft.record.inj hfs
  have hkeys : Keyed.keys (Json.mapTextFields f fields) = fields.keys.map (unlessBlank f) := by
    simp only [Json.mapTextFields_eq_map, Keyed.keys, List.map_map, Function.comp_def]
  rw [Keyed.keys_ofList, keys_of_entriesOf hes, Json.draftFields_eq_mapValues,
    Keyed.keys_mapValues, Keyed.keys_ofList, hkeys, eraseDups_of_nodup (nodup_eraseDups _)]

/-! ### Cells -/

namespace Cell

/-- What is written for the cell stands under its name, which has no token. -/
structure Named (c : Cell) : Prop where
  own : ∀ v, ∀ x ∈ c.entries v, x.1 = c.name
  plain : Placeholder.opensToken c.name.toList = false

namespace Named

variable {α : Type} {name : String} {read : Draft → Reading α} {write : α → Json}

theorem optional (h : Placeholder.opensToken name.toList = false) :
    (Cell.optional name read write).Named := ⟨fun _ => eq_of_mem_optionalEntry, h⟩

theorem list (h : Placeholder.opensToken name.toList = false) :
    (Cell.list name read write).Named := ⟨fun _ => eq_of_mem_listEntry, h⟩

theorem map (h : Placeholder.opensToken name.toList = false) :
    (Cell.map name read write).Named := ⟨fun _ => eq_of_mem_mapEntry, h⟩

theorem always {absent : α} {hread : read (write absent).draft = .ok absent}
    {hback : (write absent).ReadsBack} (h : Placeholder.opensToken name.toList = false) :
    (Cell.always name read write absent hread hback).Named :=
  ⟨fun _ _ hx => List.mem_singleton.mp hx ▸ rfl, h⟩

end Named

/-- The value is what the last entry under the name of the cell is read as, of those written for
another value and some more, once their texts are expanded. -/
def Expanded (e : Expander) (more : List (String × Json)) (c : Cell) (v v' : c.Value) : Prop :=
  let found := (Json.valuesAt e.expand c.name (c.entries v ++ more)).getLast?.map Prod.snd
  (∀ j ∈ found, c.read j.draft = .ok v') ∧ (found = none → v' = c.absent)

namespace Expanded

variable {e : Expander} {more : List (String × Json)} {c : Cell} {v v' : c.Value}

/-- Without entries the value is absent, unless one more entry comes to stand there. -/
theorem eq_absent (h : c.Expanded e more v v') (hmore : ∀ x ∈ more, e.expand x.1 ≠ c.name)
    (hnone : c.entries v = []) : v' = c.absent := by
  refine h.2 ?_
  rw [hnone, List.nil_append, Json.valuesAt_eq_nil e hmore]
  rfl

/-- The entry that was written is read, unless one more comes to stand there. -/
theorem read_eq_ok (h : c.Expanded e more v v') (hc : c.Named)
    (hmore : ∀ x ∈ more, e.expand x.1 ≠ c.name) {j : Json} (hone : c.entries v = [(c.name, j)]) :
    c.read (j.mapText e.expand).draft = .ok v' := by
  refine h.1 _ ?_
  rw [hone, Json.valuesAt_append, Json.valuesAt_self e hc.plain, Json.valuesAt_eq_nil e hmore]
  rfl

/-- There is one value that goes by the entries. -/
theorem unique {v'' : c.Value} (h : c.Expanded e more v v') (h' : c.Expanded e more v v'') :
    v' = v'' := by
  cases hfound : (Json.valuesAt e.expand c.name (c.entries v ++ more)).getLast?.map Prod.snd with
  | none => rw [h.2 hfound, h'.2 hfound]
  | some j => exact Except.ok.inj ((h.1 j hfound).symm.trans (h'.1 j hfound))

variable {α : Type} {name : String} {read : Draft → Reading α} {write : α → Json}

/-- What is written for an optional value is read as an optional value. -/
theorem exists_of_optional {a : α} {o : Option α}
    (h : (Cell.optional name read write).Expanded e more (some a) o)
    (hname : Placeholder.opensToken name.toList = false)
    (hmore : ∀ x ∈ more, e.expand x.1 ≠ name) (hnull : write a ≠ .null) :
    ∃ b, o = some b ∧ read ((write a).mapText e.expand).draft = .ok b := by
  have hread : ((write a).mapText e.expand).draft.optional read = .ok o :=
    h.read_eq_ok (.optional hname) hmore rfl
  rw [Draft.optional_of_ne_null (mt Json.draft_eq_null_iff.mp (mt Json.mapText_eq_null_iff.mp hnull))]
    at hread
  obtain ⟨b, hb, rfl⟩ := Reading.exists_of_map_eq_ok hread
  exact ⟨b, rfl, hb⟩

/-- A map that is expanded has the expanded keys, each at its first place. -/
theorem keys_map {m m' : Keyed α} (h : (Cell.map name read write).Expanded e more m m')
    (hname : Placeholder.opensToken name.toList = false)
    (hmore : ∀ x ∈ more, e.expand x.1 ≠ name) : m'.keys = (m.keys.map e.expand).eraseDups := by
  cases m with
  | nil =>
    obtain rfl : m' = [] := h.eq_absent hmore rfl
    rfl
  | cons entry m =>
    rw [Draft.keys_of_mapOf_mapText (h.read_eq_ok (.map hname) hmore rfl), e.unlessBlank_expand,
      Keyed.keys_mapValues]

end Expanded

end Cell

/-! ### Objects -/

namespace Row

variable {ρ : Type} {R : Rest} {e : Expander}

/-- What a row remembers of the keys that are not modelled. -/
def rest : (cs : List Cell) → Row ρ cs → ρ
  | [],      r => r
  | _ :: cs, r => rest cs r.2

/-- The values of all cells of a row go by those of another, and by some more entries. -/
def Expanded (e : Expander) (more : List (String × Json)) :
    (cs : List Cell) → Row ρ cs → Row ρ cs → Prop
  | [],      _, _  => True
  | c :: cs, r, r' => c.Expanded e more r.1 r'.1 ∧ Expanded e more cs r.2 r'.2

/-- Under a key that is no cell's there is nothing but what was written of the other keys. -/
theorem valuesAt_entries {cs : List Cell} (hcs : ∀ c ∈ cs, c.Named) {k : String}
    (hk : k ∉ cs.map Cell.name) (r : Row R.Value cs) :
    Json.valuesAt e.expand k (entries R cs r) =
      Json.valuesAt e.expand k (R.entries (rest cs r)) := by
  induction cs with
  | nil => rfl
  | cons c cs ih =>
    obtain ⟨hc, hcs⟩ := List.forall_mem_cons.mp hcs
    obtain ⟨hne, hk⟩ := not_or.mp (mt List.mem_cons.mpr hk)
    have hown : Json.valuesAt e.expand k (c.entries r.1) = [] := by
      refine Json.valuesAt_eq_nil e fun x hx => ?_
      rw [hc.own _ x hx, e.expand_of_not_opens hc.plain]
      exact Ne.symm hne
    show Json.valuesAt e.expand k (c.entries r.1 ++ entries R cs r.2) = _
    rw [Json.valuesAt_append, hown, List.nil_append, ih hcs hk]
    rfl

theorem expanded_of_reads {cs : List Cell} (hcs : ∀ c ∈ cs, c.Named)
    (hnames : (cs.map Cell.name).Nodup) {names : List String} {fs : List (String × Draft)}
    {r r' : Row R.Value cs} (hfs : ∀ c ∈ cs, Keyed.get? fs c.name =
      (Json.valuesAt e.expand c.name (entries R cs r)).getLast?.map fun x => x.2.draft)
    (h : Reads R names fs cs r') : Expanded e (R.entries (rest cs r)) cs r r' := by
  induction cs with
  | nil => trivial
  | cons c cs ih =>
    obtain ⟨hc, hcs'⟩ := List.forall_mem_cons.mp hcs
    obtain ⟨hnew, hnames⟩ := List.nodup_cons.mp hnames
    obtain ⟨hget, hgets⟩ := List.forall_mem_cons.mp hfs
    obtain ⟨⟨hsome, hnone⟩, hrow⟩ := h
    constructor
    · have hat : Json.valuesAt e.expand c.name (c.entries r.1 ++ entries R cs r.2) =
          Json.valuesAt e.expand c.name (c.entries r.1 ++ R.entries (rest cs r.2)) := by
        rw [Json.valuesAt_append, Json.valuesAt_append, valuesAt_entries hcs' hnew]
      rw [show entries R (c :: cs) r = c.entries r.1 ++ entries R cs r.2 from rfl, hat] at hget
      refine ⟨fun j hj => ?_, fun hj => ?_⟩
      · obtain ⟨x, hx, rfl⟩ := Option.map_eq_some_iff.mp hj
        refine hsome _ ?_
        rw [hget]
        exact Option.mem_map_of_mem _ hx
      · refine hnone ?_
        rw [hget]
        exact Option.map_eq_none_iff.mpr (Option.map_eq_none_iff.mp hj)
    · refine ih hcs' hnames (fun c' hc' => ?_) hrow
      -- What is written for the first cell does not come to stand under the name of another one.
      have hown : Json.valuesAt e.expand c'.name (c.entries r.1) = [] := by
        refine Json.valuesAt_eq_nil e fun x hx => ?_
        rw [hc.own _ x hx, e.expand_of_not_opens hc.plain]
        exact fun he => hnew (he ▸ List.mem_map_of_mem hc')
      rw [hgets c' hc', show entries R (c :: cs) r = c.entries r.1 ++ entries R cs r.2 from rfl,
        Json.valuesAt_append, hown, List.nil_append]

end Row

/-- **What was written of an object, expanded and read goes cell by cell**, but for what the keys
expand to that are not modelled. -/
theorem Shape.Describes.expanded_of_read {α : Type} {S : Shape α} {read : Draft → Reading α}
    {write : α → Json} (h : S.Describes read write) (hcells : ∀ c ∈ S.cells, c.Named)
    {e : Expander} {a b : α} (hread : read ((write a).mapText e.expand).draft = .ok b) :
    Row.Expanded e (S.rest.entries (Row.rest S.cells (S.view.get a))) S.cells (S.view.get a)
      (S.view.get b) := by
  obtain ⟨fs, hfs, hrow⟩ := h.reads_of_read hread
  rw [h.write_eq] at hfs
  obtain ⟨rfl, -⟩ := Draft.record.inj hfs
  refine Row.expanded_of_reads hcells S.nodup_names (fun c _ => ?_) hrow
  rw [Json.draftFields_eq_mapValues, Keyed.get?_mapValues, Keyed.get?_ofList, Option.map_map]
  rfl

end ApiAssembly
