import ApiAssembly.Naming.Strategy
import ApiAssembly.Proofs.Keyed.FirstWins
import Mathlib.Data.List.Find

/-!
# Proofs — Naming — required names in step with properties

A node *demands* a name that it requires and that it or one of its `allOf` entries declares as a
property (`Schema.Demands`).  Properties are renamed in step with the required names when every name
that a node demands is demanded in its new spelling afterwards, by the node at the place where the
first one is then (`Document.KeepsInStep`).

Renaming reaches the component schemas themselves and no node below them, and of the properties that
get one name the first is kept with all that is below it (`Schema.at?_rename`).  So a component
schema is in step as far as the names go that it declares itself.  A name that an entry declares
needs its new spelling among the properties or the entries, and a node below needs the new spellings
next to the old ones (`Document.keepsInStep_iff`).
-/

namespace ApiAssembly

namespace Schema

/-- An edge of a tree: it leads from a node to one right below it. -/
inductive Edge where
  | property (name : String)
  | items
  | entry (index : Nat)

/-- The node that an edge leads to. -/
def below? (s : Schema) : Edge → Option Schema
  | .property name => Keyed.get? s.properties name
  | .items         => s.items
  | .entry i       => s.allOf[i]?

/-- The node at a place, which is the list of the edges to it. -/
def at? (s : Schema) : List Edge → Option Schema
  | []           => some s
  | edge :: rest => (s.below? edge).bind fun t => t.at? rest

/-- Where a node of a component schema is once the properties of the schema are renamed. -/
def newPlace (translate : String → String) : List Edge → List Edge
  | .property name :: rest => .property (translate name) :: rest
  | place                  => place

/-- A node declares the names of its properties and of those of its entries. -/
def Declares (s : Schema) (name : String) : Prop :=
  name ∈ Keyed.keys s.properties ∨ ∃ e ∈ s.allOf, name ∈ Keyed.keys e.properties

instance (s : Schema) (name : String) : Decidable (s.Declares name) :=
  inferInstanceAs (Decidable (_ ∨ _))

/-- A node demands the names that it requires and declares. -/
def Demands (s : Schema) (name : String) : Prop := name ∈ s.own.required ∧ s.Declares name

instance (s : Schema) (name : String) : Decidable (s.Demands name) :=
  inferInstanceAs (Decidable (_ ∧ _))

end Schema

/-- The node at a place of a component schema. -/
def Document.node? (d : Document) (component : String) (place : List Schema.Edge) :
    Option Schema :=
  (d.componentsOrEmpty.schemas.get? component).bind fun s => s.at? place

/-- Every name that a node of a component schema demands is demanded in its new spelling once the
properties are renamed. -/
def Document.KeepsInStep (translate : String → String) (d : Document) : Prop :=
  ∀ component place, ∀ s ∈ d.node? component place, ∀ name, s.Demands name →
    ∃ t ∈ (d.rename translate).node? component (Schema.newPlace translate place),
      t.Demands (translate name)

/-! ### A renamed schema -/

namespace Schema

variable {translate : String → String} {s : Schema}

/-- The node that an edge leads to once the properties are renamed: the first of those that get one
name. -/
def heir? (translate : String → String) (s : Schema) : Edge → Option Schema
  | .property name =>
    (s.properties.find? fun p => translate p.1 = translate name).map Prod.snd
  | edge           => s.below? edge

theorem properties_rename (translate : String → String) (s : Schema) :
    (s.rename translate).properties =
      Keyed.extendNew [] (s.properties.map fun p => (translate p.1, p.2)) := by
  rw [Keyed.extendNew, List.foldl_map]
  rfl

theorem mem_keys_properties_rename {name : String} :
    name ∈ Keyed.keys (s.rename translate).properties ↔
      ∃ other ∈ Keyed.keys s.properties, translate other = name := by
  rw [properties_rename, Keyed.extendNew_eq, Keyed.keys, mem_map_addAllNew]
  simp [Keyed.keys]

theorem get?_properties_rename (name : String) :
    Keyed.get? (s.rename translate).properties name =
      (s.properties.find? fun p => translate p.1 = name).map Prod.snd := by
  rw [properties_rename, Keyed.get?_extendNew, Keyed.get?_nil, Option.none_or,
    Keyed.get?_eq_map_find?, List.find?_map, Option.map_map]
  rfl

/-- Below a renamed schema is what was below it, but for properties that got the name of an earlier
one. -/
theorem at?_rename (translate : String → String) (s : Schema) (edge : Edge) (rest : List Edge) :
    (s.rename translate).at? (newPlace translate (edge :: rest)) =
      (s.heir? translate edge).bind fun t => t.at? rest := by
  cases edge with
  | property name => rw [newPlace, at?, below?, get?_properties_rename, heir?]
  | items => rfl
  | entry i => rfl

theorem declares_rename_iff {name : String} :
    (s.rename translate).Declares name ↔
      (∃ other ∈ Keyed.keys s.properties, translate other = name) ∨
        ∃ e ∈ s.allOf, name ∈ Keyed.keys e.properties :=
  or_congr_left mem_keys_properties_rename

/-- A renamed schema demands the new spelling of a name that it required exactly when it declares
it. -/
theorem demands_rename_iff {name : String} (h : name ∈ s.own.required) :
    (s.rename translate).Demands (translate name) ↔
      (s.rename translate).Declares (translate name) :=
  and_iff_right (List.mem_map_of_mem h)

/-- The nodes of a component schema are in step once its properties are renamed.  The new spelling
of a required name that an entry declares is that of a property or declared by an entry; and a node
below that demands a name has its new spelling demanded by the node that is found in its place. -/
structure StaysInStep (translate : String → String) (s : Schema) : Prop where
  entries : ∀ name ∈ s.own.required, ∀ e ∈ s.allOf, name ∈ Keyed.keys e.properties →
    (∃ other ∈ Keyed.keys s.properties, translate other = translate name) ∨
      ∃ e' ∈ s.allOf, translate name ∈ Keyed.keys e'.properties
  below : ∀ edge rest, ∀ n ∈ (s.below? edge).bind (fun t => t.at? rest), ∀ name, n.Demands name →
    ∃ n' ∈ (s.heir? translate edge).bind (fun t => t.at? rest), n'.Demands (translate name)

/-- The schema itself is in step exactly when the names are that its entries declare. -/
theorem demands_rename_all_iff :
    (∀ name, s.Demands name → (s.rename translate).Demands (translate name)) ↔
      ∀ name ∈ s.own.required, ∀ e ∈ s.allOf, name ∈ Keyed.keys e.properties →
        (∃ other ∈ Keyed.keys s.properties, translate other = translate name) ∨
          ∃ e' ∈ s.allOf, translate name ∈ Keyed.keys e'.properties := by
  constructor
  · intro h name hname e he hkey
    exact declares_rename_iff.mp (h name ⟨hname, .inr ⟨e, he, hkey⟩⟩).2
  · rintro h name ⟨hname, hdeclared⟩
    rw [demands_rename_iff hname, declares_rename_iff]
    rcases hdeclared with hown | ⟨e, he, hkey⟩
    · exact .inl ⟨name, hown, rfl⟩
    · exact h name hname e he hkey

end Schema

/-! ### A renamed document -/

namespace Document

variable {translate : String → String} {d : Document}

theorem node?_rename (component : String) (place : List Schema.Edge) :
    (d.rename translate).node? component place =
      (d.componentsOrEmpty.schemas.get? component).bind fun s =>
        (s.rename translate).at? place := by
  have hschemas : (d.rename translate).componentsOrEmpty.schemas =
      d.componentsOrEmpty.schemas.mapValues (Schema.rename translate) := by
    rw [rename, componentsOrEmpty, componentsOrEmpty]
    cases d.components <;> rfl
  rw [node?, hschemas, Keyed.get?_mapValues, Option.bind_map]
  rfl

/-- **When required names stay in step with properties.**  They do exactly when they do in every
component schema: the names that its entries declare have their new spelling declared, and every
node below demands the new spelling of all that the node demanded which it stands for. -/
theorem keepsInStep_iff (translate : String → String) (d : Document) :
    d.KeepsInStep translate ↔
      ∀ component, ∀ s ∈ d.componentsOrEmpty.schemas.get? component, s.StaysInStep translate := by
  have hnode {component s} (hs : s ∈ d.componentsOrEmpty.schemas.get? component) (place) :
      d.node? component place = s.at? place := by
    rw [node?, Option.mem_def.mp hs, Option.bind_some]
  have hrenamed {component s} (hs : s ∈ d.componentsOrEmpty.schemas.get? component) (place) :
      (d.rename translate).node? component place = (s.rename translate).at? place := by
    rw [node?_rename, Option.mem_def.mp hs, Option.bind_some]
  constructor
  · intro h component s hs
    refine ⟨Schema.demands_rename_all_iff.mp fun name hname => ?_,
      fun edge rest n hn name hname => ?_⟩
    · -- The schema itself, at the empty place.
      obtain ⟨t, ht, hdemands⟩ := h component [] s (hnode hs []) name hname
      rw [hrenamed hs] at ht
      exact Option.some.inj ht ▸ hdemands
    · have hkept := h component (edge :: rest) n (hnode hs _ ▸ hn) name hname
      rwa [hrenamed hs, Schema.at?_rename] at hkept
  · intro h component place n hn name hname
    obtain ⟨s, hs, -⟩ := Option.bind_eq_some_iff.mp hn
    rw [hnode hs] at hn
    rw [hrenamed hs]
    cases place with
    | nil =>
      obtain rfl : s = n := Option.some.inj hn
      exact ⟨_, rfl, Schema.demands_rename_all_iff.mpr (h component s hs).entries name hname⟩
    | cons edge rest =>
      rw [Schema.at?_rename]
      exact (h component s hs).below edge rest n hn name hname

/-- A schema that requires a name of one of its entries. -/
def composedPet : Document where
  components := some { schemas := [("Pet", {
    own := { required := ["petName"] }, allOf := [{ properties := [("petName", {})] }] })] }

/-- A schema whose items require one of their properties. -/
def listedPets : Document where
  components := some { schemas := [("Pets", {
    items := some { own := { required := ["petName"] }, properties := [("petName", {})] } })] }

/-- The required names of a schema are renamed without the properties of its entries, and those of a
node below it are not renamed at all. -/
theorem not_keepsInStep_snakeCase :
    ¬ composedPet.KeepsInStep NamingStrategy.snakeCase.translate ∧
      ¬ listedPets.KeepsInStep NamingStrategy.snakeCase.translate := by
  refine ⟨fun h => ?_, fun h => ?_⟩
  · obtain ⟨t, ht, hdemands⟩ := h "Pet" [] _ rfl "petName" (by decide)
    obtain rfl := Option.some.inj ht
    exact absurd hdemands (by decide +kernel)
  · obtain ⟨t, ht, hdemands⟩ := h "Pets" [.items] _ rfl "petName" (by decide)
    obtain rfl := Option.some.inj ht
    exact absurd hdemands (by decide +kernel)

end Document

end ApiAssembly
