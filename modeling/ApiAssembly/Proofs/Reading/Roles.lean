import ApiAssembly.Config.Flatten
import ApiAssembly.Document.Coding
import ApiAssembly.Proofs.Reading.Texts

/-!
# Proofs — Reading — what reading keeps, place by place

A place of a document has a `Role`: it may hold a value that the model does not look into, a text, a
list of objects, and so on.  `Kind.fields` says it for the fields of every kind of object, and
`Role.at?` goes from the root down.

`Role.Keeps` says when what is written at a place holds what was read there.  A free value has to be
the same, null included.  A modelled value that is null or an empty list or map may go; any other
has to be there: with the same value, a number or a flag in a lenient field as its text, a list with
as many items, a map with the same keys.

Read from objects that have no key twice, everything is kept but a null in a field that holds a free
value, which stands for no value there (`Draft.Kept`).  It is said draft by draft and goes from the
parts to the whole: a list and a map have it when the drafts right in them do, and an object when
its cells do (`Shape.Describes.readKeeps`).
-/

namespace ApiAssembly

/-! ### Roles -/

/-- What a place of a document holds. -/
inductive Role where
  /-- A value that the model does not look into, under a key that is not modelled. -/
  | free
  /-- A value that the model does not look into, in a field of its own. -/
  | value
  | text
  /-- A text that may stand there as a number or a flag. -/
  | scalar
  | flag
  /-- One type name, or a list of them. -/
  | type
  | object (kind : Kind)
  | list (item : Role)
  | map (entry : Role)
  deriving DecidableEq

/-- The fields of an object, in the order in which they are written. -/
def Kind.fields : Kind → List (String × Role)
  | .document    => [("openapi", .scalar), ("info", .object .info), ("externalDocs", .value),
      ("servers", .list (.object .server)), ("security", .list (.map (.list .text))),
      ("tags", .list (.object .tag)), ("paths", .map (.object .pathItem)),
      ("components", .object .components)]
  | .info        => [("title", .scalar), ("version", .scalar), ("description", .scalar)]
  | .tag         => [("name", .scalar), ("description", .scalar)]
  | .server      => [("url", .text), ("description", .scalar)]
  | .components  => [("schemas", .map (.object .schema)), ("responses", .map (.object .response)),
      ("parameters", .map (.object .parameter)), ("examples", .map .free),
      ("requestBodies", .map (.object .requestBody)), ("headers", .map .free),
      ("securitySchemes", .map .free), ("links", .map .free), ("callbacks", .map .free)]
  | .pathItem    => Method.all.map (fun m => (m.key, .object .operation)) ++
      [("parameters", .list (.object .parameter))]
  | .operation   => [("tags", .list .text), ("summary", .scalar), ("description", .scalar),
      ("operationId", .scalar), ("parameters", .list (.object .parameter)),
      ("requestBody", .object .requestBody), ("responses", .map (.object .response)),
      ("deprecated", .flag), ("security", .list (.map (.list .text)))]
  | .parameter   => [("$ref", .text), ("name", .scalar), ("in", .text), ("description", .scalar),
      ("required", .flag), ("schema", .object .schema)]
  | .mediaType   => [("schema", .object .schema)]
  | .requestBody => [("$ref", .text), ("description", .scalar),
      ("content", .map (.object .mediaType)), ("required", .flag)]
  | .response    => [("$ref", .text), ("description", .scalar),
      ("content", .map (.object .mediaType))]
  | .schema      => [("$ref", .text), ("type", .type), ("title", .scalar), ("description", .scalar),
      ("default", .value), ("properties", .map (.object .schema)), ("required", .list .text),
      ("allOf", .list (.object .schema)), ("items", .object .schema)]
  | .endpoint    => []

/-- The role of what an object has under a key. -/
def Kind.field (k : Kind) (name : String) : Role := (Keyed.get? k.fields name).getD .free

/-! ### Places -/

/-- The role of a part, none where the model has no part. -/
def Role.part? : Role → Step → Option Role
  | .object k, .key name => some (k.field name)
  | .list r,   .index _  => some r
  | .map r,    .key _    => some r
  | _,         _         => none

/-- The role of a place. -/
def Role.at? (r : Role) : Place → Option Role
  | []     => some r
  | s :: p => (r.part? s).bind fun r => r.at? p

/-- A part of a draft. -/
def Draft.part? : Draft → Step → Option Draft
  | .record fs _, .key name => Keyed.get? fs name
  | .list ds,     .index i  => ds[i]?
  | _,            _         => none

/-- What stands at a place of a draft. -/
def Draft.at? (d : Draft) : Place → Option Draft
  | []     => some d
  | s :: p => (d.part? s).bind fun d => d.at? p

/-- A part of a value. -/
def Json.part? : Json → Step → Option Json
  | .obj fs, .key name => Keyed.get? fs name
  | .arr js, .index i  => js[i]?
  | _,       _         => none

/-- What stands at a place of a value. -/
def Json.at? (j : Json) : Place → Option Json
  | []     => some j
  | s :: p => (j.part? s).bind fun j => j.at? p

/-- No object of the draft has a key twice. -/
def Draft.KeysApart (d : Draft) : Prop :=
  ∀ p fs e, d.at? p = some (.record fs e) → (Keyed.keys fs).Nodup

/-- The draft is null, or an empty list or map. -/
def Draft.isBlank : Draft → Bool
  | .null        => true
  | .list ds     => ds.isEmpty
  | .record fs _ => fs.isEmpty
  | _            => false

/-- What is written at a place of the role, if anything is, holds what was read there. -/
def Role.Keeps : Role → Draft → Option Json → Prop
  | .free,     x, o | .value, x, o           => ∃ j, x.json? = some j ∧ o = some j
  | .text,     x, o | .flag, x, o | .type, x, o =>
    x.isBlank ∨ ∃ j, x.json? = some j ∧ o = some j
  | .scalar,   x, o =>
    x.isBlank ∨ ∃ j t, x.json? = some j ∧ j.scalarText? = some t ∧ o = some (.str t)
  | .object _, x, o => x.isBlank ∨ ∃ es, o = some (.obj es)
  | .list _,   x, o =>
    x.isBlank ∨ ∃ ds js, x = .list ds ∧ o = some (.arr js) ∧ js.length = ds.length
  | .map _,    x, o =>
    x.isBlank ∨ ∃ fs e es, x = .record fs e ∧ o = some (.obj es) ∧ Keyed.keys es = Keyed.keys fs

namespace Draft

/-- At every place below a place of the role, what is written holds what was read, unless that is a
null in a field for a free value. -/
def Kept (r : Role) (d : Draft) (o : Option Json) : Prop :=
  ∀ p r' x, r.at? p = some r' → d.at? p = some x →
    (r'.Keeps x (o.bind fun j => j.at? p) ↔ ¬ (r' = .value ∧ x = .null))

/-- What is written of what was read from the draft keeps it. -/
def ReadKeeps {α : Type} (r : Role) (read : Draft → Reading α) (write : α → Json) (d : Draft) :
    Prop :=
  d.KeysApart → ∀ a, read d = .ok a → d.Kept r (some (write a))

/-! ### The parts of a draft -/

/-- What is below a draft without repeated keys has none either. -/
theorem KeysApart.part {d x : Draft} (h : d.KeysApart) {s : Step} (hx : d.part? s = some x) :
    x.KeysApart :=
  fun p fs e hp => h (s :: p) fs e (Option.bind_eq_some_iff.mpr ⟨x, hx, hp⟩)

/-- A record without repeated keys holds each of them once. -/
theorem KeysApart.nodup_keys {fs : List (String × Draft)} {e : Ending}
    (h : (record fs e).KeysApart) : (Keyed.keys fs).Nodup :=
  h [] fs e rfl

/-- The keys of a draft are apart when its own are, and those of its parts. -/
theorem keysApart_of_parts {d : Draft} (hroot : ∀ fs e, d = .record fs e → (Keyed.keys fs).Nodup)
    (hparts : ∀ s x, d.part? s = some x → x.KeysApart) : d.KeysApart := by
  intro p fs e hp
  cases p with
  | nil => exact hroot fs e (Option.some.inj hp)
  | cons s p =>
    obtain ⟨x, hx, hp⟩ := Option.bind_eq_some_iff.mp hp
    exact hparts s x hx p fs e hp

/-- A record has no repeated keys when it holds each key once and its values have none. -/
theorem keysApart_record {fs : List (String × Draft)} (e : Ending)
    (hkeys : (Keyed.keys fs).Nodup) (h : ∀ f ∈ fs, f.2.KeysApart) : (record fs e).KeysApart := by
  refine keysApart_of_parts (fun gs e' he => (record.inj he).1 ▸ hkeys) fun s x hx => ?_
  cases s with
  | key name => exact h _ (Keyed.mem_of_get? hx)
  | index i => cases hx

/-- A part is one of the drafts right below. -/
theorem mem_children_of_part? {d x : Draft} {s : Step} (hx : d.part? s = some x) :
    x ∈ d.children := by
  unfold part? at hx
  split at hx
  · exact List.mem_map_of_mem (f := Prod.snd) (Keyed.mem_of_get? hx)
  · exact List.mem_of_getElem? hx
  · cases hx

/-- A blank draft has no parts. -/
theorem part?_of_isBlank {d : Draft} (h : d.isBlank) (s : Step) : d.part? s = none := by
  unfold part?
  split
  · rw [List.isEmpty_iff.mp h]; rfl
  · rw [List.isEmpty_iff.mp h]; rfl
  · rfl

/-! ### From the parts to the whole -/

variable {r : Role} {d : Draft} {o : Option Json}

/-- What is kept at the root and in every part is kept. -/
theorem kept_of_parts (hroot : r.Keeps d o ↔ ¬ (r = .value ∧ d = .null))
    (hparts : ∀ s r' x, r.part? s = some r' → d.part? s = some x →
      x.Kept r' (o.bind fun j => j.part? s)) : d.Kept r o := by
  intro p r' x hr' hx
  cases p with
  | nil =>
    obtain rfl := Option.some.inj hr'
    obtain rfl := Option.some.inj hx
    cases o <;> exact hroot
  | cons s p =>
    obtain ⟨r₁, hr₁, hr'⟩ := Option.bind_eq_some_iff.mp hr'
    obtain ⟨x₁, hx₁, hx⟩ := Option.bind_eq_some_iff.mp hx
    have h := hparts s r₁ x₁ hr₁ hx₁ p r' x hr' hx
    rwa [Option.bind_assoc] at h

/-- Where a role has no parts, there is nothing to keep below it. -/
theorem kept_of_leaf (hr : ∀ s, r.part? s = none) (h : r.Keeps d o ↔ ¬ (r = .value ∧ d = .null)) :
    d.Kept r o :=
  kept_of_parts h fun s _ _ hr' => absurd (hr' ▸ hr s) nofun

/-- Nothing has to be written for what is null or empty and not free. -/
theorem kept_of_isBlank (h : d.isBlank) (hfree : r ≠ .free) (hvalue : r ≠ .value) :
    d.Kept r o := by
  refine kept_of_parts (iff_of_true ?_ fun hn => hvalue hn.1) fun s r' x _ hx =>
    absurd (hx ▸ part?_of_isBlank h s) nofun
  cases r with
  | free => exact absurd rfl hfree
  | value => exact absurd rfl hvalue
  | _ => exact .inl h

/-- Where nothing is written for a null, it is kept but in a field for a free value. -/
theorem kept_null (hfree : r ≠ .free) : null.Kept r none := by
  by_cases hvalue : r = .value
  · subst hvalue
    refine kept_of_leaf (fun s => rfl) (iff_of_false ?_ fun h => h ⟨rfl, rfl⟩)
    rintro ⟨j, -, hj⟩
    cases hj
  · exact kept_of_isBlank rfl hfree hvalue

/-! ### Values, lists and maps -/

section Values

variable {α : Type} {read : Draft → Reading α}

theorem boolean_eq_ok {b : Bool} (h : d.boolean = .ok b) : d = .bool b := by
  unfold boolean at h
  split at h
  · exact congrArg bool (Except.ok.inj h)
  · exact absurd h (refuse_ne_ok _ _ b)

/-- The items of a list are read one by one. -/
theorem getElem?_of_itemsFrom {i : Nat} {ds : List Draft} {l : List α}
    (h : itemsFrom read i ds = .ok l) :
    l.length = ds.length ∧ ∀ (k : Nat) (x : Draft), ds[k]? = some x →
      ∃ a, l[k]? = some a ∧ read x = .ok a := by
  induction ds generalizing i l with
  | nil =>
    obtain rfl := Except.ok.inj h
    exact ⟨rfl, nofun⟩
  | cons d ds ih =>
    obtain ⟨a, ha, h⟩ := Reading.exists_of_bind_eq_ok h
    obtain ⟨as, has, h⟩ := Reading.exists_of_bind_eq_ok h
    obtain rfl := Except.ok.inj h
    obtain ⟨hlength, hitems⟩ := ih has
    refine ⟨congrArg (· + 1) hlength, fun k x hx => ?_⟩
    cases k with
    | zero =>
      obtain rfl := Option.some.inj hx
      exact ⟨a, rfl, Reading.of_under_eq_ok ha⟩
    | succ k => exact hitems k x hx

/-- The entries of a map are read key by key. -/
theorem get?_of_entriesOf {fs : List (String × Draft)} {es : List (String × α)}
    (h : entriesOf read fs = .ok es) {name : String} {x : Draft}
    (hx : Keyed.get? fs name = some x) : ∃ a, Keyed.get? es name = some a ∧ read x = .ok a := by
  induction fs generalizing es with
  | nil => cases hx
  | cons f fs ih =>
    obtain ⟨k, d⟩ := f
    obtain ⟨a, ha, h⟩ := Reading.exists_of_bind_eq_ok h
    obtain ⟨as, has, h⟩ := Reading.exists_of_bind_eq_ok h
    obtain rfl := Except.ok.inj h
    rw [Keyed.get?_cons] at hx ⊢
    split at hx
    case isTrue hk =>
      obtain rfl := Option.some.inj hx
      exact ⟨a, if_pos hk, Reading.of_under_eq_ok ha⟩
    case isFalse hk => rw [if_neg hk]; exact ih has hx

end Values

namespace ReadKeeps

variable {α : Type} {read : Draft → Reading α} {write : α → Json}

/-- A free value is kept as it is. -/
theorem free (d : Draft) : d.ReadKeeps .free free id := by
  intro _ j hj
  exact kept_of_leaf (fun _ => rfl) (iff_of_true ⟨j, free_eq_ok_iff.mp hj, rfl⟩ nofun)

/-- A text is kept as it is. -/
theorem text (d : Draft) : d.ReadKeeps .text text .str := by
  intro _ s hs
  obtain rfl := text_eq_ok hs
  exact kept_of_leaf (fun _ => rfl) (iff_of_true (.inr ⟨_, rfl, rfl⟩) nofun)

theorem boolean (d : Draft) : d.ReadKeeps .flag boolean .bool := by
  intro _ b hb
  obtain rfl := boolean_eq_ok hb
  exact kept_of_leaf (fun _ => rfl) (iff_of_true (.inr ⟨_, rfl, rfl⟩) nofun)

/-- A number or a flag in a lenient field is kept as its text. -/
theorem scalarText (d : Draft) : d.ReadKeeps .scalar scalarText .str := by
  intro _ t ht
  obtain ⟨j, hj, ht⟩ := Reading.exists_of_bind_eq_ok ht
  have hscalar : j.scalarText? = some t := by
    cases j with
    | bool b => cases b <;> exact congrArg some (Except.ok.inj ht)
    | str s => exact congrArg some (Except.ok.inj ht)
    | num n => exact congrArg some (Except.ok.inj ht)
    | _ => cases ht
  exact kept_of_leaf (fun _ => rfl)
    (iff_of_true (.inr ⟨j, t, free_eq_ok_iff.mp hj, hscalar, rfl⟩) nofun)

/-- A type is kept, be it one or several. -/
theorem type (d : Draft) : d.ReadKeeps .type SchemaType.ofDraft SchemaType.toJson := by
  intro _ t ht
  have hfree := free_eq_ok_iff.mp (SchemaType.free_of_ofDraft ht)
  exact kept_of_leaf (fun _ => rfl) (iff_of_true (.inr ⟨_, hfree, rfl⟩) nofun)

/-- A list is kept when its items are. -/
theorem listOf (h : ∀ x ∈ d.children, x.ReadKeeps r read write) :
    d.ReadKeeps (.list r) (listOf read) fun l => .arr (l.map write) := by
  intro hkeys l hl
  obtain ⟨ds, hds, hl⟩ := Reading.exists_of_bind_eq_ok hl
  obtain rfl := items_eq_ok hds
  obtain ⟨hlength, hitems⟩ := getElem?_of_itemsFrom hl
  refine kept_of_parts (iff_of_true (.inr ⟨ds, _, rfl, rfl, ?_⟩) nofun) ?_
  · rw [List.length_map, hlength]
  · intro s r' x hr' hx
    cases s with
    | key name => cases hr'
    | index i =>
      obtain rfl := Option.some.inj hr'
      obtain ⟨a, ha, hread⟩ := hitems i x hx
      have hout : (some (Json.arr (l.map write))).bind (fun j => j.part? (.index i)) =
          some (write a) := by
        show (l.map write)[i]? = _
        rw [List.getElem?_map, ha]
        rfl
      rw [hout]
      exact h x (mem_children_of_part? hx) (hkeys.part hx) a hread

/-- A map is kept when its values are. -/
theorem mapOf (h : ∀ x ∈ d.children, x.ReadKeeps r read write) :
    d.ReadKeeps (.map r) (mapOf read) fun m => .obj (m.mapValues write) := by
  intro hkeys m hm
  obtain ⟨fs, es, rfl, hes, rfl⟩ := mapOf_eq_ok hm
  have hsame : Keyed.keys es = Keyed.keys fs := keys_of_entriesOf hes
  rw [Keyed.ofList_of_nodup (hsame ▸ hkeys.nodup_keys)]
  refine kept_of_parts (iff_of_true (.inr ⟨fs, .closed, _, rfl, rfl, ?_⟩) nofun) ?_
  · rw [Keyed.keys_mapValues, hsame]
  · intro s r' x hr' hx
    cases s with
    | index i => cases hr'
    | key name =>
      obtain rfl := Option.some.inj hr'
      obtain ⟨a, ha, hread⟩ := get?_of_entriesOf hes hx
      have hout : (some (Json.obj (Keyed.mapValues write es))).bind (fun j => j.part? (.key name)) =
          some (write a) := by
        show Keyed.get? (Keyed.mapValues write es) name = _
        rw [Keyed.get?_mapValues, ha]
        rfl
      rw [hout]
      exact h x (mem_children_of_part? hx) (hkeys.part hx) a hread

end ReadKeeps

end Draft

/-! ### Cells -/

/-- What is written in the cell of what was read from the draft keeps it. -/
def Cell.Keeps (c : Cell) (r : Role) (d : Draft) : Prop :=
  d.KeysApart → ∀ v, c.read d = .ok v → d.Kept r (Keyed.get? (c.entries v) c.name)

namespace Cell.Keeps

variable {α : Type} {name : String} {read : Draft → Reading α} {write : α → Json} {r : Role}
  {d : Draft}

theorem get?_self (name : String) (j : Json) : Keyed.get? [(name, j)] name = some j := if_pos rfl

/-- A cell that is always written keeps its value. -/
theorem always {absent : α} {h : read (write absent).draft = .ok absent}
    {hback : (write absent).ReadsBack} (hd : d.ReadKeeps r read write) :
    (Cell.always name read write absent h hback).Keeps r d := by
  intro hkeys v hv
  show d.Kept r (Keyed.get? [(name, write v)] name)
  rw [get?_self]
  exact hd hkeys v hv

/-- Where a null stands for no value, nothing is written for it. -/
theorem optional (hd : d.ReadKeeps r read write) (hfree : r ≠ .free := by simp) :
    (Cell.optional name read write).Keeps r d := by
  intro hkeys v hv
  by_cases hnull : d = .null
  · subst hnull
    obtain rfl : v = none := (Except.ok.inj hv).symm
    exact Draft.kept_null hfree
  · replace hv : d.optional read = .ok v := hv
    rw [Draft.optional_of_ne_null hnull] at hv
    obtain ⟨a, ha, rfl⟩ := Reading.exists_of_map_eq_ok hv
    show d.Kept r (Keyed.get? [(name, write a)] name)
    rw [get?_self]
    exact hd hkeys a ha

/-- A list is left out where it is empty, and may be. -/
theorem list (hd : ∀ x ∈ d.children, x.ReadKeeps r read write) :
    (Cell.list name read write).Keeps (.list r) d := by
  intro hkeys l hl
  have hkept := Draft.ReadKeeps.listOf hd hkeys l hl
  cases l with
  | nil =>
    obtain ⟨ds, hds, hitems⟩ := Reading.exists_of_bind_eq_ok hl
    obtain rfl := Draft.items_eq_ok hds
    have hblank : ds = [] :=
      List.eq_nil_of_length_eq_zero (Draft.getElem?_of_itemsFrom hitems).1.symm
    exact Draft.kept_of_isBlank (List.isEmpty_iff.mpr hblank) nofun nofun
  | cons a l =>
    show d.Kept _ (Keyed.get? [(name, .arr ((a :: l).map write))] name)
    rwa [get?_self]

/-- A map is left out where it is empty, and may be. -/
theorem map (hd : ∀ x ∈ d.children, x.ReadKeeps r read write) :
    (Cell.map name read write).Keeps (.map r) d := by
  intro hkeys m hm
  have hkept := Draft.ReadKeeps.mapOf hd hkeys m hm
  cases m with
  | nil =>
    obtain ⟨fs, es, rfl, hes, hm⟩ := Draft.mapOf_eq_ok hm
    have hsame : Keyed.keys es = Keyed.keys fs := Draft.keys_of_entriesOf hes
    rw [Keyed.ofList_of_nodup (hsame ▸ hkeys.nodup_keys)] at hm
    have hblank : fs = [] := List.map_eq_nil_iff.mp (hsame.symm.trans (hm ▸ rfl))
    exact Draft.kept_of_isBlank (List.isEmpty_iff.mpr hblank) nofun nofun
  | cons e m =>
    show d.Kept _ (Keyed.get? [(name, .obj (Keyed.mapValues write (e :: m)))] name)
    rwa [get?_self]

theorem text (d : Draft) : (Cell.optional name Draft.text .str).Keeps .text d :=
  optional (.text d)

theorem scalarText (d : Draft) : (Cell.optional name Draft.scalarText .str).Keeps .scalar d :=
  optional (.scalarText d)

theorem flag (d : Draft) : (Cell.optional name Draft.boolean .bool).Keeps .flag d :=
  optional (.boolean d)

/-- A free value that is not null is written as it is, and no value is written for null. -/
theorem value (d : Draft) : (Cell.optional name Draft.free id).Keeps .value d := by
  intro hkeys v hv
  by_cases hnull : d = .null
  · subst hnull
    obtain rfl : v = none := (Except.ok.inj hv).symm
    exact Draft.kept_null nofun
  · replace hv : d.optional Draft.free = .ok v := hv
    rw [Draft.optional_of_ne_null hnull] at hv
    obtain ⟨j, hj, rfl⟩ := Reading.exists_of_map_eq_ok hv
    refine Draft.kept_of_leaf (fun _ => rfl) (iff_of_true ⟨j, Draft.free_eq_ok_iff.mp hj, ?_⟩
      fun h => hnull h.2)
    exact get?_self name j

end Cell.Keeps

/-! ### Objects -/

theorem Keyed.get?_append {α : Type} (m m' : Keyed α) (k : String) :
    Keyed.get? (m ++ m') k = (m.get? k).or (m'.get? k) := by
  induction m with
  | nil => rfl
  | cons e m ih =>
    obtain ⟨k', v⟩ := e
    rw [List.cons_append, Keyed.get?_cons, Keyed.get?_cons, ih]
    split <;> rfl

theorem Keyed.get?_eq_none_of {α : Type} {m : Keyed α} {k : String} (h : ∀ e ∈ m, e.1 ≠ k) :
    m.get? k = none := by
  rw [Option.eq_none_iff_forall_ne_some]
  exact fun v hv => h _ (Keyed.mem_of_get? hv) rfl

/-- A cell is written under its own name. -/
theorem Cell.Restores.name_eq {c : Cell} {n : Nat} {v : c.Value} (h : c.Restores n v) :
    ∀ e ∈ c.entries v, e.1 = c.name := by
  rcases h with ⟨hnone, -⟩ | ⟨j, hone, -⟩
  · rw [hnone]; exact fun e he => absurd he List.not_mem_nil
  · rw [hone]; exact List.forall_mem_singleton.mpr rfl

/-- Cells that are the fields of a kind have their names. -/
theorem Cell.names_eq_of_fields {cs : List Cell} {fields : List (String × Role)} {d : Draft}
    (h : List.Forall₂ (fun c f => c.name = f.1 ∧ c.Keeps f.2 d) cs fields) :
    cs.map Cell.name = Keyed.keys fields := by
  induction h with
  | nil => rfl
  | cons hc _ ih => exact congrArg₂ List.cons hc.1 ih

/-- Each cell has the field of its name. -/
theorem Cell.exists_field {cs : List Cell} {fields : List (String × Role)} {d : Draft}
    (h : List.Forall₂ (fun c f => c.name = f.1 ∧ c.Keeps f.2 d) cs fields) {c : Cell}
    (hc : c ∈ cs) : ∃ f ∈ fields, c.name = f.1 ∧ c.Keeps f.2 d := by
  induction h with
  | nil => exact absurd hc List.not_mem_nil
  | @cons c' f _ _ hf _ ih =>
    rcases List.mem_cons.mp hc with rfl | hc
    · exact ⟨f, List.mem_cons_self, hf⟩
    · obtain ⟨g, hg, hcg⟩ := ih hc
      exact ⟨g, List.mem_cons_of_mem _ hg, hcg⟩

/-- A cell keeps what the field of its name is to keep. -/
theorem Cell.keeps_field {cs : List Cell} {kind : Kind} {d : Draft}
    (h : List.Forall₂ (fun c f => c.name = f.1 ∧ c.Keeps f.2 d) cs kind.fields)
    (hnames : (cs.map Cell.name).Nodup) {c : Cell} (hc : c ∈ cs) :
    c.Keeps (kind.field c.name) d := by
  obtain ⟨f, hf, hname, hkeeps⟩ := exists_field h hc
  have hget : Keyed.get? kind.fields f.1 = some f.2 :=
    Keyed.get?_of_mem (names_eq_of_fields h ▸ hnames) hf
  rw [Kind.field, hname, hget]
  exact hkeeps

/-- A key that is not modelled holds a free value. -/
theorem Kind.field_of_not_mem {kind : Kind} {name : String}
    (h : name ∉ Keyed.keys kind.fields) : kind.field name = .free := by
  rw [Kind.field, Keyed.get?_eq_none_iff.mpr h]
  rfl

/-- What is remembered of keys that are apart is written under them as it was read. -/
def Rest.Keeps (R : Rest) : Prop :=
  ∀ (fs : List (String × Draft)) (x : R.Value), (Keyed.keys fs).Nodup →
    fs.foldlM (fun x e => R.keep e.1 e.2 x) R.absent = .ok x →
    ∀ k d, Keyed.get? fs k = some d → ∃ j, d.json? = some j ∧ Keyed.get? (R.entries x) k = some j

namespace Rest

/-- Entries under other keys do not count. -/
theorem get?_keepEntries {fs : List (String × Draft)} {m m' : Keyed Json}
    (h : fs.foldlM (fun m e => keepEntry m e.1 e.2) m = .ok m') {k : String}
    (hk : k ∉ Keyed.keys fs) : m'.get? k = m.get? k := by
  induction fs generalizing m with
  | nil =>
    obtain rfl := Except.ok.inj h
    rfl
  | cons f fs ih =>
    obtain ⟨hne, hk⟩ := not_or.mp (mt List.mem_cons.mpr hk)
    rw [List.foldlM_cons] at h
    obtain ⟨m₁, hm₁, h⟩ := Reading.exists_of_bind_eq_ok h
    obtain ⟨j, -, rfl⟩ := keepEntry_eq_ok hm₁
    rw [ih h hk, Keyed.get?_insert_of_ne _ _ (Ne.symm hne)]

/-- Keys that are kept are kept with their values. -/
theorem keeps_kept : kept.Keeps := by
  suffices H : ∀ (fs : List (String × Draft)) (m m' : Keyed Json), (Keyed.keys fs).Nodup →
      fs.foldlM (fun m e => keepEntry m e.1 e.2) m = .ok m' →
      ∀ k d, Keyed.get? fs k = some d → ∃ j, d.json? = some j ∧ m'.get? k = some j from
    fun fs m => H fs [] m
  intro fs
  induction fs with
  | nil => exact fun _ _ _ _ _ _ hd => nomatch hd
  | cons f fs ih =>
    obtain ⟨k', d'⟩ := f
    intro m m' hkeys h k d hd
    obtain ⟨hnew, hkeys⟩ := List.nodup_cons.mp hkeys
    rw [List.foldlM_cons] at h
    obtain ⟨m₁, hm₁, h⟩ := Reading.exists_of_bind_eq_ok h
    obtain ⟨j, hj, rfl⟩ := keepEntry_eq_ok hm₁
    rw [Keyed.get?_cons] at hd
    split at hd
    case isTrue hk =>
      -- No later field writes over the entry.
      obtain rfl := hk
      obtain rfl := Option.some.inj hd
      exact ⟨j, hj, by rw [get?_keepEntries h hnew, Keyed.get?_insert_self]⟩
    case isFalse => exact ih _ _ hkeys h k d hd

end Rest

namespace Row

variable {R : Rest} {names : List String} {n : Nat} {fs : List (String × Draft)}

/-- Under the name of a cell stands what the cell writes. -/
theorem get?_entries_of_cell {cs : List Cell} {r : Row R.Value cs} (hr : Restores R names n cs r)
    (hreads : Reads R names fs cs r) (hnames : (cs.map Cell.name).Nodup)
    (hsub : cs.map Cell.name ⊆ names) {c : Cell} (hc : c ∈ cs) {d : Draft}
    (hd : Keyed.get? fs c.name = some d) :
    ∃ v, c.read d = .ok v ∧
      Keyed.get? (entries R cs r) c.name = Keyed.get? (c.entries v) c.name := by
  induction cs with
  | nil => exact absurd hc List.not_mem_nil
  | cons c' cs ih =>
    obtain ⟨hcell, hrow⟩ := hr
    obtain ⟨⟨hsome, -⟩, hreads⟩ := hreads
    obtain ⟨hnew, hnames⟩ := List.nodup_cons.mp hnames
    obtain ⟨hc', hsub⟩ := List.cons_subset.mp hsub
    have happend := Keyed.get?_append (c'.entries r.1) (entries R cs r.2) c.name
    rcases List.mem_cons.mp hc with rfl | hc
    · have hlater : Keyed.get? (entries R cs r.2) c.name = none :=
        Keyed.get?_eq_none_of fun e he hname =>
          (mem_names_or_of_mem_entries hrow e he).elim (fun h => hnew (hname ▸ h))
            fun h => h (hname ▸ hc')
      rw [hlater, Option.or_none] at happend
      exact ⟨r.1, hsome d hd, happend⟩
    · have hbefore : Keyed.get? (c'.entries r.1) c.name = none :=
        Keyed.get?_eq_none_of fun e he hname =>
          hnew ((hcell.name_eq e he).symm.trans hname ▸ List.mem_map_of_mem hc)
      rw [hbefore, Option.none_or] at happend
      obtain ⟨v, hv, hget⟩ := ih hrow hreads hnames hsub hc
      exact ⟨v, hv, happend.trans hget⟩

/-- Under a key that is not modelled stands what was read there. -/
theorem get?_entries_of_rest (hR : R.Keeps) (hkeys : (Keyed.keys fs).Nodup) {cs : List Cell}
    {r : Row R.Value cs} (hr : Restores R names n cs r) (hreads : Reads R names fs cs r)
    (hsub : cs.map Cell.name ⊆ names) {k : String} (hk : k ∉ names) {d : Draft}
    (hd : Keyed.get? fs k = some d) :
    ∃ j, d.json? = some j ∧ Keyed.get? (entries R cs r) k = some j := by
  induction cs with
  | nil =>
    refine hR _ r ?_ hreads k d ?_
    · exact hkeys.sublist (List.filter_sublist.map _)
    · have hmem : (k, d) ∈ fs.filter fun e => e.1 ∉ names :=
        List.mem_filter.mpr ⟨Keyed.mem_of_get? hd, by simpa using hk⟩
      exact Keyed.get?_of_mem (hkeys.sublist (List.filter_sublist.map _)) hmem
  | cons c cs ih =>
    obtain ⟨hcell, hrow⟩ := hr
    obtain ⟨hc, hsub⟩ := List.cons_subset.mp hsub
    have hbefore : Keyed.get? (c.entries r.1) k = none :=
      Keyed.get?_eq_none_of fun e he hname => hk (hname ▸ (hcell.name_eq e he).symm ▸ hc)
    obtain ⟨j, hj, hget⟩ := ih hrow hreads.2 hsub
    refine ⟨j, hj, ?_⟩
    show Keyed.get? (c.entries r.1 ++ entries R cs r.2) k = _
    rw [Keyed.get?_append, hbefore, Option.none_or, hget]

end Row

/-- **An object keeps what its cells keep.**  Its cells are the fields of its kind, and a key that
is none of them is kept with its value. -/
theorem Shape.Describes.readKeeps {α : Type} {S : Shape α} {read : Draft → Reading α}
    {write : α → Json} (h : S.Describes read write) (hrest : S.rest.Keeps) {d : Draft}
    (hd : ∀ x ∈ d.children,
      List.Forall₂ (fun c f => c.name = f.1 ∧ c.Keeps f.2 x) S.cells S.kind.fields) :
    d.ReadKeeps (.object S.kind) read write := by
  intro hkeys a ha
  obtain ⟨fs, rfl, hreads⟩ := h.reads_of_read ha
  have hrestored : S.Restored (max S.base (Draft.record fs .closed).depth) a :=
    restored_read (fun x _ => h.soundAt x) (Nat.le_max_left _ _)
      (Nat.le_succ_of_le (Nat.le_max_right _ _)) (h.read_eq ▸ ha)
  refine Draft.kept_of_parts (iff_of_true (.inr ⟨_, by rw [h.write_eq]; rfl⟩) nofun) ?_
  intro s r' x hr' hx
  cases s with
  | index i => cases hx
  | key name =>
    obtain rfl := Option.some.inj hr'
    have hwritten : (some (write a)).bind (fun j => j.part? (.key name)) =
        Keyed.get? (Row.entries S.rest S.cells (S.view.get a)) name := by
      rw [h.write_eq]
      rfl
    have hfields := hd x (Draft.mem_children_of_part? hx)
    rw [hwritten]
    by_cases hname : name ∈ S.names
    · obtain ⟨c, hc, rfl⟩ := List.mem_map.mp hname
      obtain ⟨v, hv, hget⟩ := Row.get?_entries_of_cell hrestored.2 hreads S.nodup_names
        (List.Subset.refl _) hc hx
      rw [hget]
      exact Cell.keeps_field hfields S.nodup_names hc (hkeys.part hx) v hv
    · obtain ⟨j, hj, hget⟩ := Row.get?_entries_of_rest hrest hkeys.nodup_keys hrestored.2 hreads
        (List.Subset.refl _) hname hx
      rw [hget, Kind.field_of_not_mem (Cell.names_eq_of_fields hfields ▸ hname)]
      exact Draft.kept_of_leaf (fun _ => rfl) (iff_of_true ⟨j, hj, rfl⟩ nofun)

end ApiAssembly
