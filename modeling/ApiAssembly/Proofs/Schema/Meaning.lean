import ApiAssembly.Proofs.Schema.Tree

/-!
# Proofs — Schema — what a schema accepts

A schema says which JSON values, its *instances*, it accepts.  The constraints of a node are its
type, its required names, the schemas of its properties and of its items and those of its `allOf`
list, and an instance has to meet all of them.  What the target of a reference says, and what a
keyword says that is not modelled, is left open (`Meaning`).  Title, description and default
constrain nothing.

`AcceptsBut` does not look at the types of some nodes, those that are *lifted*; `Accepts` looks at
all of them.
-/

namespace ApiAssembly

/-! ### Instances -/

/-- Whether the number is an integer, however it is written. -/
def Number.isWhole : Number → Bool
  | .int _   => true
  | .float d => d.ratio.1 % d.ratio.2 == 0

namespace Json

/-- The names of the types that a value is of. -/
def types : Json → List String
  | .null   => ["null"]
  | .bool _ => ["boolean"]
  | .num n  => if n.isWhole then ["number", "integer"] else ["number"]
  | .str _  => ["string"]
  | .arr _  => ["array"]
  | .obj _  => ["object"]

/-- The value is an object with a member of the name. -/
def HasMember (j : Json) (name : String) (v : Json) : Prop :=
  ∃ entries, j = .obj entries ∧ (name, v) ∈ entries

/-- The value is an array with the item. -/
def HasItem (j v : Json) : Prop := ∃ items, j = .arr items ∧ v ∈ items

/-- The value has a member of the name, if it is an object. -/
def Requires (j : Json) (name : String) : Prop :=
  ∀ entries, j = .obj entries → name ∈ Keyed.keys entries

end Json

/-- An instance is of the type, or of one of the types. -/
def SchemaType.Admits : SchemaType → Json → Prop
  | .single name, j    => name ∈ j.types
  | .multiple names, j => ∃ name ∈ names, name ∈ j.types

instance : (t : SchemaType) → (j : Json) → Decidable (t.Admits j)
  | .single name, j    => inferInstanceAs (Decidable (name ∈ j.types))
  | .multiple names, j => inferInstanceAs (Decidable (∃ name ∈ names, name ∈ j.types))

/-! ### Schemas -/

/-- What the targets of references say of an instance, and what the values of the keywords say that
are not modelled. -/
structure Meaning where
  reference : String → Json → Prop
  keyword : String → Json → Json → Prop

/-- An instance meets the keywords of a node, its type apart. -/
structure Keywords.AcceptsUntyped (m : Meaning) (k : Keywords) (j : Json) : Prop where
  reference : ∀ r ∈ k.reference, m.reference r j
  required : ∀ name ∈ k.required, j.Requires name
  extensions : ∀ e ∈ k.extensions, m.keyword e.1 e.2 j

namespace Schema

/-- An instance meets a schema, but for the types of the nodes that are lifted. -/
inductive AcceptsBut (lifted : Schema → Prop) (m : Meaning) : Schema → Json → Prop where
  | node {s : Schema} {j : Json} (own : s.own.AcceptsUntyped m j)
      (type : ¬ lifted s → ∀ t ∈ s.own.type, t.Admits j)
      (properties : ∀ p ∈ s.properties, ∀ v, j.HasMember p.1 v → AcceptsBut lifted m p.2 v)
      (items : ∀ t ∈ s.items, ∀ v, j.HasItem v → AcceptsBut lifted m t v)
      (allOf : ∀ e ∈ s.allOf, AcceptsBut lifted m e j) : AcceptsBut lifted m s j

/-- An instance meets a schema. -/
def Accepts (m : Meaning) (s : Schema) (j : Json) : Prop := s.AcceptsBut (fun _ => False) m j

variable {lifted : Schema → Prop} {m : Meaning} {s : Schema} {j : Json}

theorem acceptsBut_iff :
    s.AcceptsBut lifted m j ↔ s.own.AcceptsUntyped m j ∧
      (¬ lifted s → ∀ t ∈ s.own.type, t.Admits j) ∧
      (∀ p ∈ s.properties, ∀ v, j.HasMember p.1 v → p.2.AcceptsBut lifted m v) ∧
      (∀ t ∈ s.items, ∀ v, j.HasItem v → t.AcceptsBut lifted m v) ∧
      ∀ e ∈ s.allOf, e.AcceptsBut lifted m j := by
  constructor
  · rintro ⟨own, type, properties, items, allOf⟩
    exact ⟨own, type, properties, items, allOf⟩
  · rintro ⟨own, type, properties, items, allOf⟩
    exact .node own type properties items allOf

theorem accepts_iff :
    s.Accepts m j ↔ s.own.AcceptsUntyped m j ∧ (∀ t ∈ s.own.type, t.Admits j) ∧
      (∀ p ∈ s.properties, ∀ v, j.HasMember p.1 v → p.2.Accepts m v) ∧
      (∀ t ∈ s.items, ∀ v, j.HasItem v → t.Accepts m v) ∧ ∀ e ∈ s.allOf, e.Accepts m j := by
  rw [Accepts, acceptsBut_iff, forall_prop_of_true not_false]
  rfl

/-- A node with no schema in it has its keywords only to meet. -/
theorem accepts_leaf_iff (k : Keywords) :
    Accepts m { own := k } j ↔ k.AcceptsUntyped m j ∧ ∀ t ∈ k.type, t.Admits j := by
  rw [accepts_iff]
  simp

/-- A tree without a lifted node is accepted as it stands. -/
theorem accepts_of_acceptsBut (hs : ∀ n ∈ s.nodes, ¬ lifted n) (h : s.AcceptsBut lifted m j) :
    s.Accepts m j := by
  induction s using induct generalizing j with
  | node s hp hi ha =>
    obtain ⟨hroot, hps, his, has⟩ := forall_nodes_iff.mp hs
    obtain ⟨own, type, properties, items, allOf⟩ := acceptsBut_iff.mp h
    exact accepts_iff.mpr ⟨own, type hroot,
      fun p hpm v hv => hp p hpm (hps p hpm) (properties p hpm v hv),
      fun t ht v hv => hi t ht (his t ht) (items t ht v hv),
      fun e he => ha e he (has e he) (allOf e he)⟩

end Schema

end ApiAssembly
