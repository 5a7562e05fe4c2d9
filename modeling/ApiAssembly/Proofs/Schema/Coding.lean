import ApiAssembly.Proofs.Reading.Shape

/-!
# Proofs — Schema — schemas are read as they are written

`Schema.ofDraft` and `Schema.toJson` walk a tree by hand.  Seen from one node they are the reader
and the writer of a shape, whose cells for the properties, the items and the entries of `allOf` use
them again (`ofDraft_eq`, `toJson_eq`).  So **a schema that was read is read again from what is
written of it** (`Schema.roundTrips`), by induction on the draft.
-/

namespace ApiAssembly

namespace Schema

/-! ### Writing -/

theorem propertiesJson_eq (ps : Keyed Schema) : propertiesJson ps = ps.mapValues toJson := by
  induction ps with
  | nil => rfl
  | cons p r ih =>
    obtain ⟨k, s⟩ := p
    rw [propertiesJson, ih]
    rfl

theorem schemasJson_eq (es : List Schema) : schemasJson es = es.map toJson := by
  induction es with
  | nil => rfl
  | cons s r ih => rw [schemasJson, ih, List.map_cons]

/-- A schema is written as its keywords, with what is below it in between, and its extensions. -/
theorem toJson_eq (s : Schema) :
    s.toJson = .obj (s.own.entriesBefore ++
      mapEntry "properties" (Keyed.mapValues toJson s.properties) ++
      listEntry "required" (s.own.required.map .str) ++
      listEntry "allOf" (s.allOf.map toJson) ++ optionalEntry "items" toJson s.items ++
      s.own.extensions) := by
  obtain ⟨own, properties, items, allOf⟩ := s
  rw [toJson, propertiesJson_eq, schemasJson_eq]
  cases items <;> rfl

/-! ### The shape of a node -/

/-- The keywords of a node, in the order in which they are written. -/
def cells : List Cell := [
  .optional "$ref" Draft.text .str,
  .optional "type" SchemaType.ofDraft SchemaType.toJson,
  .optional "title" Draft.scalarText .str,
  .optional "description" Draft.scalarText .str,
  .optional "default" Draft.free id,
  .map "properties" ofDraft toJson,
  .list "required" Draft.text .str,
  .list "allOf" ofDraft toJson,
  .optional "items" ofDraft toJson]

/-- A node, but for its name as a component. -/
def shape : Shape Schema where
  kind := .schema
  rest := .kept
  cells := cells
  view := {
    get := fun s => (s.own.reference, s.own.type, s.own.title, s.own.description, s.own.default,
      s.properties, s.own.required, s.allOf, s.items, s.own.extensions)
    set := fun (reference, type, title, description, default, properties, required, allOf, items,
        extensions) s =>
      ⟨⟨s.own.name, reference, type, title, description, default, required, extensions⟩,
        properties, items, allOf⟩
    set_get := fun ⟨_, _, _, _⟩ => rfl
  }
  required := []
  empty := {}
  required_written := fun _ h => absurd h List.not_mem_nil

/-- Seen from one node, writing is the writer of the shape. -/
theorem toJson_eq_write (s : Schema) : s.toJson = shape.write s := by
  rw [toJson_eq]
  simp only [Keywords.entriesBefore, List.append_assoc]
  rfl

/-! ### Reading -/

/-- A keyword of a node, as a field of the node. -/
def ownField (f : Field Keywords) : Field Schema :=
  ⟨f.name, fun d s => (f.read d s.own).map fun own => { s with own := own }⟩

/-- A slot of a node, as a field of the node. -/
def slotField (name : String) (slot : Slot) : Field Schema := ⟨name, fun d s => s.ofSlot slot d⟩

theorem ofEntries_eq (fs : List (String × Draft)) :
    ofEntries fs = Draft.entriesOf ofDraft fs := by
  induction fs with
  | nil => rfl
  | cons f fs ih =>
    obtain ⟨k, d⟩ := f
    rw [ofEntries, ih, Draft.entriesOf]
    cases Reading.under (.key k) (ofDraft d) with
    | error f => rfl
    | ok s => cases Draft.entriesOf ofDraft fs <;> rfl

theorem ofItems_eq (i : Nat) (ds : List Draft) : ofItems i ds = Draft.itemsFrom ofDraft i ds := by
  induction ds generalizing i with
  | nil => rfl
  | cons d ds ih =>
    rw [ofItems, ih, Draft.itemsFrom]
    cases Reading.under (.index i) (ofDraft d) with
    | error f => rfl
    | ok s => cases Draft.itemsFrom ofDraft (i + 1) ds <;> rfl

/-- The properties are read as a map of schemas. -/
theorem ofSlot_properties (s : Schema) (d : Draft) :
    s.ofSlot .properties d = (d.mapOf ofDraft).map fun m => { s with properties := m } := by
  cases d with
  | record fs e =>
    rw [ofSlot, ofEntries_eq]
    show _ = (Draft.entriesOf ofDraft fs >>= fun es =>
      if e.stops then .error .malformed else .ok (Keyed.ofList es)).map _
    cases Draft.entriesOf ofDraft fs with
    | error f => rfl
    | ok es => cases e <;> rfl
  | num n => cases n <;> rfl
  | beyond d => cases d <;> rfl
  | _ => rfl

/-- The items are read as an optional schema. -/
theorem ofSlot_items (s : Schema) (d : Draft) :
    s.ofSlot .items d = (d.optional ofDraft).map fun t => { s with items := t } := by
  cases d with
  | null => rfl
  | record fs e =>
    rw [ofSlot]
    show _ = ((ofDraft (.record fs e)).map some).map _
    rw [ofDraft]
    cases ofFields ⟨{}, []⟩ e fs <;> rfl
  | num n => cases n <;> rfl
  | beyond d => cases d <;> rfl
  | _ => rfl

/-- The entries are read as a list of schemas. -/
theorem ofSlot_allOf (s : Schema) (d : Draft) :
    s.ofSlot .allOf d = (d.listOf ofDraft).map fun ss => { s with allOf := ss } := by
  cases d with
  | list ds =>
    rw [ofSlot, ofItems_eq]
    show _ = (Draft.itemsFrom ofDraft 0 ds).map _
    cases Draft.itemsFrom ofDraft 0 ds <;> rfl
  | num n => cases n <;> rfl
  | beyond d => cases d <;> rfl
  | _ => rfl

/-- The fields of the shape are the keywords of a node and its slots. -/
theorem table_eq : shape.table =
    (Keywords.table.take 5).map ownField ++ [slotField "properties" .properties] ++
      (Keywords.table.drop 5).map ownField ++
      [slotField "allOf" .allOf, slotField "items" .items] := by
  have set_own : ∀ {β : Type} (x : Reading β) (set : β → Keywords) (s : Schema),
      (do .ok { s with own := set (← x) } : Reading Schema) =
        (do .ok (set (← x)) : Reading Keywords).map fun own => { s with own := own } := by
    intro β x set s
    cases x <;> rfl
  have set : ∀ {β : Type} (x : Reading β) (set : β → Schema),
      (do .ok (set (← x)) : Reading Schema) = x.map set := by
    intro β x set
    cases x <;> rfl
  have own : ∀ {name : String} {read : Draft → Schema → Reading Schema} {f : Field Keywords},
      name = f.name → (∀ d s, read d s = (f.read d s.own).map fun own => { s with own := own }) →
      Field.mk name read = ownField f := by
    rintro _ read f rfl h
    exact congrArg (Field.mk f.name) (funext fun d => funext fun s => h d s)
  have slot : ∀ {name : String} {read : Draft → Schema → Reading Schema} {slot : Slot},
      (∀ d s, read d s = s.ofSlot slot d) → Field.mk name read = slotField name slot := by
    intro name read slot h
    exact congrArg (Field.mk name) (funext fun d => funext fun s => h d s)
  -- In the order of the cells: five keywords, a slot, a keyword, and two slots.
  iterate 5 refine congrArg₂ List.cons (own rfl fun d s => set_own _ _ s) ?_
  refine congrArg₂ List.cons (slot fun d s => (set _ _).trans (s.ofSlot_properties d).symm) ?_
  refine congrArg₂ List.cons (own rfl fun d s => set_own _ _ s) ?_
  refine congrArg₂ List.cons (slot fun d s => (set _ _).trans (s.ofSlot_allOf d).symm) ?_
  exact congrArg₂ List.cons (slot fun d s => (set _ _).trans (s.ofSlot_items d).symm) rfl

/-- A key is a slot, or else a keyword of the node. -/
theorem find?_table (k : String) : shape.table.find? (fun f => f.name == k) =
    match Slot.of? k with
    | some slot => some (slotField k slot)
    | none      => (Keywords.table.find? fun f => f.name == k).map ownField := by
  rw [table_eq]
  by_cases hp : k = "properties"
  · subst hp; rfl
  by_cases ha : k = "allOf"
  · subst ha; rfl
  by_cases hi : k = "items"
  · subst hi; rfl
  have hslot : Slot.of? k = none := by rw [Slot.of?, if_neg hp, if_neg ha, if_neg hi]
  rw [hslot]
  show _ = (Keywords.table.find? fun f => f.name == k).map ownField
  simp only [List.find?_append, slotField, List.find?_cons, List.find?_nil,
    beq_eq_false_iff_ne.mpr (Ne.symm hp), beq_eq_false_iff_ne.mpr (Ne.symm ha),
    beq_eq_false_iff_ne.mpr (Ne.symm hi), Option.or_none]
  rw [← List.find?_append, ← List.map_append, List.take_append_drop, List.find?_map]
  rfl

/-- Keywords that are not modelled are kept among the own ones of the node. -/
theorem other_eq (k : String) (d : Draft) (s : Schema) :
    Row.other shape.rest shape.cells shape.view k d s =
      (Keywords.extend k d s.own).map fun own => { s with own := own } := by
  show (keepEntry s.own.extensions k d >>= _) = _
  rw [keepEntry, Keywords.extend]
  cases d.free <;> rfl

/-- Reading an entry of a node reads one of its keywords, or one of its slots. -/
theorem readField_eq (p : Partial Schema) (k : String) (d : Draft) :
    p.readField shape.table (Row.other shape.rest shape.cells shape.view) k d =
      match Slot.of? k with
      | none      =>
        (Partial.readField Keywords.table Keywords.extend ⟨p.object.own, p.seen⟩ k d).map
          fun q => ⟨{ p.object with own := q.object }, q.seen⟩
      | some slot =>
        if p.seen.contains k then (Mismatch.duplicateField k).here
        else (Reading.under (.key k) (p.object.ofSlot slot d)).map fun s => ⟨s, k :: p.seen⟩ := by
  rw [Partial.readField, find?_table]
  cases Slot.of? k with
  | some slot => rfl
  | none =>
    simp only [Partial.readField]
    cases Keywords.table.find? fun f => f.name == k with
    | none =>
      simp only [Option.map_none, other_eq]
      cases Keywords.extend k d p.object.own <;> rfl
    | some f =>
      simp only [Option.map_some, ownField]
      cases p.seen.contains k with
      | true => rfl
      | false => cases f.read d p.object.own <;> rfl

/-- Reading the fields by hand is reading them by the table of the shape. -/
theorem ofFields_eq (p : Partial Schema) (e : Ending) (fs : List (String × Draft)) :
    ofFields p e fs = (do
      let q ← p.readFields shape.table (Row.other shape.rest shape.cells shape.view) fs
      if e.stops then .error .malformed else .ok q.object) := by
  induction fs generalizing p with
  | nil => rw [ofFields]; rfl
  | cons f fs ih =>
    obtain ⟨k, d⟩ := f
    rw [ofFields, Partial.readFields, readField_eq]
    cases Slot.of? k with
    | none =>
      cases Partial.readField Keywords.table Keywords.extend ⟨p.object.own, p.seen⟩ k d with
      | error f => rfl
      | ok q => exact ih _
    | some slot =>
      dsimp only
      cases p.seen.contains k with
      | true => rfl
      | false =>
        simp only [Bool.false_eq_true, if_false]
        cases Reading.under (.key k) (p.object.ofSlot slot d) with
        | error f => rfl
        | ok s => exact ih _

/-- Reading a node is reading its shape. -/
theorem ofDraft_eq (d : Draft) : ofDraft d = shape.read d := by
  cases d with
  | record fs e =>
    rw [ofDraft, ofFields_eq]
    show _ = (Partial.readFields shape.table _ ⟨{}, []⟩ fs >>= _)
    cases Partial.readFields shape.table _ ⟨{}, []⟩ fs with
    | error f => rfl
    | ok q => cases e <;> rfl
  | num n => cases n <;> rfl
  | beyond d => cases d <;> rfl
  | _ => rfl

/-! ### Both -/

/-- The cells of a schema are sound when the schemas below it are read again. -/
theorem soundAt_cells {d : Draft} (h : d.RoundTrips ofDraft toJson)
    (hchildren : ∀ x ∈ d.children, x.RoundTrips ofDraft toJson) : ∀ c ∈ cells, c.SoundAt d := by
  simp only [cells, List.forall_mem_cons]
  exact ⟨.text, .optional (SchemaType.roundTrips d) fun _ => nofun, .scalarText, .scalarText, .free,
    .map hchildren, .list fun x _ => x.roundTrips_text, .list hchildren,
    .optional h fun _ => nofun, nofun⟩

/-- **A schema that was read is read again from what is written of it.** -/
theorem roundTrips (d : Draft) : d.RoundTrips ofDraft toJson := by
  have below : ∀ x : Draft, sizeOf x < sizeOf d → x.RoundTrips ofDraft toJson :=
    fun x _ => roundTrips x
  -- A cell looks at a value below the draft and at what is right below that, as for the nodes of
  -- `properties` and `allOf`: two levels, so the recursion is on the size.
  have hshape : d.RoundTrips shape.read shape.write := by
    refine Shape.roundTrips rfl fun x hx => ?_
    have hlt := Draft.sizeOf_lt_of_mem_children hx
    exact soundAt_cells (below x hlt) fun y hy =>
      below y (Nat.lt_trans (Draft.sizeOf_lt_of_mem_children hy) hlt)
  obtain hread : ofDraft = shape.read := funext ofDraft_eq
  obtain hwrite : toJson = shape.write := funext toJson_eq_write
  rwa [← hread, ← hwrite] at hshape
termination_by sizeOf d

theorem shape_describes : shape.Describes ofDraft toJson where
  read_eq := funext ofDraft_eq
  write_eq := funext toJson_eq_write
  soundAt d := soundAt_cells (roundTrips d) fun x _ => roundTrips x

end Schema

end ApiAssembly
