import ApiAssembly.Schema.Basic

/-!
# Normal — Schema — the normal form of schema trees

A tree is normalized from its leaves up. A node then simplifies its own `allOf` list:

* a single entry under a node that does nothing but wrap it takes the node's place, as long as the
  node's default and type do not contradict the entry;
* of several entries the references come first, each kind in its order, and an entry that is no
  reference loses a description or default that repeats the one of the node.

A schema in a slot — a component, a property, the items, a parameter, a body — that says nothing at
all becomes `type: object`; an entry of an `allOf` list may say nothing.
-/

namespace ApiAssembly

/-- Equality of values that may be absent, without regard to the order of keys. -/
def sameValue : Option Json → Option Json → Bool
  | none,   none   => true
  | some a, some b => a.same b
  | _,      _      => false

namespace Schema

/-- Whether a wrapper's default and type let a single entry take its place. -/
def agrees (s entry : Schema) : Bool :=
  (s.own.default.isNone || sameValue s.own.default entry.own.default) &&
    (s.own.type.isNone || entry.own.type.isNone || s.own.type == entry.own.type)

/-- An entry without the description and default that it has in common with its node. -/
def withoutRepeats (s entry : Schema) : Schema :=
  { entry with own := { entry.own with
      description :=
        if entry.own.description == s.own.description then none else entry.own.description
      default :=
        if sameValue entry.own.default s.own.default then none else entry.own.default } }

/-- The entries with the references first and the others without repeats. -/
def orderedEntries (s : Schema) (entries : List Schema) : List Schema :=
  entries.filter hasReference ++
    (entries.filter fun e => !e.hasReference).map s.withoutRepeats

/-- Simplifies the `allOf` list of a node. Where an entry takes the node's place it comes second,
and the node is left without it. -/
def simplify (s : Schema) : Schema × Option Schema :=
  match s.allOf with
  | []      => (s, none)
  | [entry] =>
    if s.isWrapper && s.agrees entry then ({ s with allOf := [] }, some entry) else (s, none)
  | entries => ({ s with allOf := s.orderedEntries entries }, none)

/-- A node after simplification: what takes its place, or else the node. -/
def settle (r : Schema × Option Schema) : Schema := r.2.getD r.1

/-- A schema that says nothing, in a slot, is an object. -/
def fill (s : Schema) : Schema :=
  if s.isEmpty then { s with own := { s.own with type := some (.single "object") } } else s

mutual

/-- The normal form of a node, as an entry of an `allOf` list. -/
def normalEntry : Schema → Schema
  | ⟨own, properties, items, allOf⟩ =>
    settle (simplify
      ⟨own, normalProperties properties, normalItems items, normalEntries allOf⟩)

/-- The normal form of properties. -/
def normalProperties : List (String × Schema) → List (String × Schema)
  | []          => []
  | (k, s) :: r => (k, fill s.normalEntry) :: normalProperties r

/-- The normal form of the items. -/
def normalItems : Option Schema → Option Schema
  | none   => none
  | some s => some (fill s.normalEntry)

/-- The normal form of the entries of an `allOf` list. -/
def normalEntries : List Schema → List Schema
  | []     => []
  | s :: r => s.normalEntry :: normalEntries r

end

/-- The normal form of a schema in a slot. -/
def normalSlot (s : Schema) : Schema := fill s.normalEntry

/-- Normalizes a tree: the node as it is left, and what takes its place if anything does. -/
def normalize (s : Schema) : Schema × Option Schema :=
  simplify ⟨s.own, normalProperties s.properties, normalItems s.items, normalEntries s.allOf⟩

theorem normalEntry_eq (s : Schema) : s.normalEntry = settle s.normalize := by
  cases s; rfl

theorem normalProperties_eq (ps : Keyed Schema) :
    normalProperties ps = ps.mapValues normalSlot := by
  induction ps with
  | nil => rfl
  | cons p r ih =>
    obtain ⟨k, s⟩ := p
    simpa [normalProperties, Keyed.mapValues, normalSlot] using ih

theorem normalItems_eq (it : Option Schema) : normalItems it = it.map normalSlot := by
  cases it <;> rfl

theorem normalEntries_eq (es : List Schema) : normalEntries es = es.map normalEntry := by
  induction es with
  | nil => rfl
  | cons s r ih => simp [normalEntries, ih]

end Schema

end ApiAssembly
