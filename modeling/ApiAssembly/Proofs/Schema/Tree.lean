import ApiAssembly.Schema.Basic
import Mathlib.Algebra.GroupWithZero.Nat
import Mathlib.Data.List.Basic

/-!
# Proofs — Schema — the nodes of a tree

`Schema.nodes` lists the node itself and all nodes below it: those of its properties, of its items
and of the entries of its `allOf` list.  What is said of a whole tree is said of the members of this
list (`forall_nodes_iff`), and the size of a tree is its length (`size_eq`).

`Schema.induct` is the induction that follows a tree: a node comes after the nodes right below it.
-/

namespace ApiAssembly

namespace Schema

/-- Induction along a tree: a statement holds of a node when it holds of the nodes right below. -/
@[elab_as_elim]
theorem induct {P : Schema → Prop}
    (node : ∀ s : Schema, (∀ p ∈ s.properties, P p.2) → (∀ t ∈ s.items, P t) →
      (∀ e ∈ s.allOf, P e) → P s) : ∀ s, P s := by
  refine Schema.rec (motive_1 := P) (motive_2 := fun ps => ∀ p ∈ ps, P p.2)
    (motive_3 := fun it => ∀ t ∈ it, P t) (motive_4 := fun es => ∀ e ∈ es, P e)
    (motive_5 := fun p => P p.2) ?mk ?pnil ?pcons ?none ?some ?enil ?econs ?pair
  case mk => exact fun own properties items allOf => node ⟨own, properties, items, allOf⟩
  case pnil => exact fun p hp => absurd hp List.not_mem_nil
  case pcons =>
    intro p ps hp hps q hq
    rcases List.mem_cons.mp hq with rfl | hq
    · exact hp
    · exact hps q hq
  case none => exact fun t ht => absurd ht (by simp)
  case some =>
    intro t ht u hu
    obtain rfl : t = u := by simpa using hu
    exact ht
  case enil => exact fun e he => absurd he List.not_mem_nil
  case econs =>
    intro e es he hes f hf
    rcases List.mem_cons.mp hf with rfl | hf
    · exact he
    · exact hes f hf
  case pair => exact fun _ _ h => h

/-! ### Nodes -/

mutual

/-- A node and all nodes below it. -/
def nodes : Schema → List Schema
  | ⟨own, properties, items, allOf⟩ =>
    ⟨own, properties, items, allOf⟩ ::
      (propertyNodes properties ++ itemNodes items ++ entryNodes allOf)

/-- The nodes of properties. -/
def propertyNodes : List (String × Schema) → List Schema
  | []          => []
  | (_, s) :: r => s.nodes ++ propertyNodes r

/-- The nodes of the items. -/
def itemNodes : Option Schema → List Schema
  | none   => []
  | some s => s.nodes

/-- The nodes of the entries of an `allOf` list. -/
def entryNodes : List Schema → List Schema
  | []     => []
  | s :: r => s.nodes ++ entryNodes r

end

theorem propertyNodes_eq (ps : List (String × Schema)) :
    propertyNodes ps = ps.flatMap fun p => p.2.nodes := by
  induction ps with
  | nil => rfl
  | cons p r ih => rw [propertyNodes, ih, List.flatMap_cons]

theorem itemNodes_eq (it : Option Schema) : itemNodes it = it.toList.flatMap nodes := by
  cases it <;> simp [itemNodes]

theorem entryNodes_eq (es : List Schema) : entryNodes es = es.flatMap nodes := by
  induction es with
  | nil => rfl
  | cons s r ih => rw [entryNodes, ih, List.flatMap_cons]

/-- A tree is made of its root and the trees right below it. -/
theorem nodes_eq (s : Schema) :
    s.nodes = s :: ((s.properties.flatMap fun p => p.2.nodes) ++ s.items.toList.flatMap nodes ++
      s.allOf.flatMap nodes) := by
  obtain ⟨own, properties, items, allOf⟩ := s
  rw [nodes, propertyNodes_eq, itemNodes_eq, entryNodes_eq]

theorem mem_nodes_self (s : Schema) : s ∈ s.nodes := by
  rw [nodes_eq]; exact List.mem_cons_self

/-- A node is the node itself or a node of a tree right below. -/
theorem mem_nodes_iff {s n : Schema} :
    n ∈ s.nodes ↔ n = s ∨ (∃ p ∈ s.properties, n ∈ p.2.nodes) ∨ (∃ t ∈ s.items, n ∈ t.nodes) ∨
      ∃ e ∈ s.allOf, n ∈ e.nodes := by
  rw [nodes_eq]
  simp only [List.mem_cons, List.mem_append, List.mem_flatMap, Option.mem_toList,
    Option.mem_def, or_assoc]

/-- The nodes of a property are nodes of the tree. -/
theorem nodes_subset_of_mem_properties {s : Schema} {p : String × Schema}
    (h : p ∈ s.properties) : p.2.nodes ⊆ s.nodes :=
  fun _ hn => mem_nodes_iff.mpr (.inr (.inl ⟨p, h, hn⟩))

/-- The nodes of the items are nodes of the tree. -/
theorem nodes_subset_of_mem_items {s t : Schema} (h : t ∈ s.items) : t.nodes ⊆ s.nodes :=
  fun _ hn => mem_nodes_iff.mpr (.inr (.inr (.inl ⟨t, h, hn⟩)))

/-- The nodes of an entry are nodes of the tree. -/
theorem nodes_subset_of_mem_allOf {s e : Schema} (h : e ∈ s.allOf) : e.nodes ⊆ s.nodes :=
  fun _ hn => mem_nodes_iff.mpr (.inr (.inr (.inr ⟨e, h, hn⟩)))

/-- What holds of all nodes holds of the node itself and of all nodes of the trees right below. -/
theorem forall_nodes_iff {P : Schema → Prop} {s : Schema} :
    (∀ n ∈ s.nodes, P n) ↔ P s ∧ (∀ p ∈ s.properties, ∀ n ∈ p.2.nodes, P n) ∧
      (∀ t ∈ s.items, ∀ n ∈ t.nodes, P n) ∧ ∀ e ∈ s.allOf, ∀ n ∈ e.nodes, P n := by
  constructor
  · intro h
    exact ⟨h s s.mem_nodes_self, fun p hp n hn => h n (mem_nodes_iff.mpr (.inr (.inl ⟨p, hp, hn⟩))),
      fun t ht n hn => h n (mem_nodes_iff.mpr (.inr (.inr (.inl ⟨t, ht, hn⟩)))),
      fun e he n hn => h n (mem_nodes_iff.mpr (.inr (.inr (.inr ⟨e, he, hn⟩))))⟩
  · rintro ⟨hs, hp, hi, ha⟩ n hn
    rcases mem_nodes_iff.mp hn with rfl | ⟨p, hpm, hn⟩ | ⟨t, ht, hn⟩ | ⟨e, he, hn⟩
    · exact hs
    · exact hp p hpm n hn
    · exact hi t ht n hn
    · exact ha e he n hn

/-! ### Size -/

/-- The number of nodes. -/
def size (s : Schema) : Nat := s.nodes.length

/-- The size of a tree is that of the trees right below it, and one more for its root. -/
theorem size_eq (s : Schema) :
    s.size = 1 + (s.properties.map fun p => p.2.size).sum +
      (s.items.toList.map fun t => t.size).sum + (s.allOf.map fun e => e.size).sum := by
  rw [size, nodes_eq]
  simp only [List.length_cons, List.length_append, List.length_flatMap, size]
  omega

theorem size_pos (s : Schema) : 0 < s.size := by
  rw [size_eq]; omega

end Schema

end ApiAssembly
