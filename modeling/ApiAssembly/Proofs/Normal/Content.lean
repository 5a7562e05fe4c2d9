import ApiAssembly.Proofs.Json.Same
import ApiAssembly.Proofs.Normal.Schema

/-!
# Proofs — Normal — what the nodes of a normal form say

Normalizing moves nodes, takes wrappers away and clears what an entry of an `allOf` list repeats.
The nodes of the tree account for those of its normal form (`accounted_normalSlot`): each of them
stays and keeps its lasting keywords and the names of its properties, or is gone and was a wrapper
of a single entry.  Since a wrapper has none of these, they are there as often as before
(`Accounted.perm_flatMap`).

Descriptions and defaults can be cleared, and the default of a wrapper goes with it.  Each time the
like is found next to it: at the entry that takes the wrapper's place, or at the node whose entry
repeats it (`Carried`).  That node may lose it in turn, to a node further up, so what carries the
induction is that the whole tree holds it, and not a certain node (`Holds.normalEntry`).

* `conserves_normalSlot`: references, titles, property names, lists of required names and
  extensions are there as often as before, and the same descriptions and defaults are there.
-/

namespace ApiAssembly

/-- The keywords of a node that normalization leaves alone. -/
def Keywords.lasting (k : Keywords) : Keywords :=
  { k with type := none, description := none, default := none }

namespace Schema

/-! ### What the nodes of a tree say -/

/-- The references of all nodes. -/
def references (s : Schema) : List String := s.nodes.flatMap fun n => n.own.reference.toList

/-- The titles of all nodes. -/
def titles (s : Schema) : List String := s.nodes.flatMap fun n => n.own.title.toList

/-- The names of the properties of all nodes. -/
def propertyNames (s : Schema) : List String := s.nodes.flatMap fun n => Keyed.keys n.properties

/-- The lists of required names of all nodes that require some. -/
def requiredLists (s : Schema) : List (List String) :=
  s.nodes.flatMap fun n => [n.own.required].filter (· ≠ [])

/-- The entries of all nodes for keywords that are not modelled. -/
def extensionEntries (s : Schema) : List (String × Json) :=
  s.nodes.flatMap fun n => n.own.extensions

/-- The descriptions of all nodes. -/
def descriptions (s : Schema) : List String := s.nodes.flatMap fun n => n.own.description.toList

/-- The defaults of all nodes. -/
def defaults (s : Schema) : List Json := s.nodes.flatMap fun n => n.own.default.toList

/-! ### What becomes of the nodes -/

/-- What a node is afterwards, if it stays: it has the same keywords and property names, except that
its description and its default may be gone, and that it has become an object if it says nothing
else. -/
structure Remains (n m : Schema) : Prop where
  names : Keyed.keys m.properties = Keyed.keys n.properties
  lasting : m.own.lasting = n.own.lasting
  type : m.own.type = n.own.type ∨ n.own.type = none ∧ m.own.type = some (.single "object") ∧
    isEmpty { m with own := { m.own with type := none } }
  description : m.own.description = n.own.description ∨ m.own.description = none
  default : m.own.default = n.own.default ∨ m.own.default = none

/-- The nodes of the second list are what remains of those of the first one, in some order; those
that are gone did nothing but wrap a single entry. -/
inductive Accounted : List Schema → List Schema → Prop where
  | nil : Accounted [] []
  | remains {n m : Schema} {l l' : List Schema} (h : n.Remains m) (hl : Accounted l l') :
      Accounted (n :: l) (m :: l')
  | gone {n : Schema} {l l' : List Schema} (hw : n.isWrapper) (hone : n.allOf.length = 1)
      (hl : Accounted l l') : Accounted (n :: l) l'
  | perm {l k l' : List Schema} (hp : l.Perm k) (hk : Accounted k l') : Accounted l l'

/-! ### Nodes that stay and wrappers -/

/-- A wrapper says nothing that lasts; as a component it has a name. -/
theorem lasting_of_isWrapper {s : Schema} (h : s.isWrapper) :
    s.own.lasting = { name := s.own.name } := by
  simp only [isWrapper, Bool.and_eq_true, Option.isNone_iff_eq_none, List.isEmpty_iff] at h
  simp [Keywords.lasting, h]

theorem Remains.of_own {n m : Schema} (ho : m.own = n.own)
    (hn : Keyed.keys m.properties = Keyed.keys n.properties) : n.Remains m :=
  ⟨hn, by rw [ho], .inl (by rw [ho]), .inl (by rw [ho]), .inl (by rw [ho])⟩

/-- A node that loses its description or default is the node that it was. -/
theorem Remains.withoutRepeats {n m : Schema} (h : n.Remains m) (s : Schema) :
    n.Remains (s.withoutRepeats m) where
  names := h.names
  lasting := h.lasting
  type := by
    refine h.type.imp_right fun ⟨hn, hm, he⟩ => ⟨hn, hm, ?_⟩
    simp only [isEmpty, Bool.and_eq_true, Option.isNone_iff_eq_none] at he ⊢
    simp [Schema.withoutRepeats, he]
  description := by
    simp only [Schema.withoutRepeats]
    split
    · exact .inr rfl
    · exact h.description
  default := by
    simp only [Schema.withoutRepeats]
    split
    · exact .inr rfl
    · exact h.default

/-- A node that stays gets no other description. -/
theorem Remains.description_of_mem {n m : Schema} (h : n.Remains m) {text : String}
    (ht : text ∈ m.own.description) : text ∈ n.own.description := by
  rcases h.description with hd | hd
  · exact hd ▸ ht
  · simp [hd] at ht

/-- A node that stays gets no other default. -/
theorem Remains.default_of_mem {n m : Schema} (h : n.Remains m) {value : Json}
    (hv : value ∈ m.own.default) : value ∈ n.own.default := by
  rcases h.default with hd | hd
  · exact hd ▸ hv
  · simp [hd] at hv

theorem Remains.fill {n m : Schema} (h : n.Remains m) : n.Remains (fill m) := by
  rw [Schema.fill]
  split
  case isFalse => exact h
  case isTrue he =>
    have hm : m.own.type = none := by simp_all [isEmpty]
    have hn : n.own.type = none := by
      rcases h.type with ht | ⟨hn, -⟩
      · rw [← ht, hm]
      · exact hn
    refine ⟨h.names, h.lasting, .inr ⟨hn, rfl, ?_⟩, h.description, h.default⟩
    simp_all [isEmpty]

/-! ### Lists of nodes -/

namespace Accounted

variable {l l' k k' : List Schema} {n m : Schema}

/-- Accounts of two lists make one of both. -/
theorem append (h : Accounted l l') (hk : Accounted k k') : Accounted (l ++ k) (l' ++ k') := by
  induction h with
  | nil => exact hk
  | remains h _ ih => exact .remains h ih
  | gone hw hone _ ih => exact .gone hw hone ih
  | perm hp _ ih => exact .perm (hp.append_right k) ih

theorem flatMap {α : Type} {xs : List α} {f g : α → List Schema}
    (h : ∀ x ∈ xs, Accounted (f x) (g x)) : Accounted (xs.flatMap f) (xs.flatMap g) := by
  induction xs with
  | nil => exact .nil
  | cons x xs ih =>
    obtain ⟨hx, hxs⟩ := List.forall_mem_cons.mp h
    exact hx.append (ih hxs)

/-- The first node may change further, as long as what has become of it has. -/
theorem root {r : List Schema} {m' : Schema} (h : Accounted l (m :: r))
    (hm : ∀ n : Schema, n.Remains m → n.Remains m') : Accounted l (m' :: r) := by
  generalize hk : m :: r = k at h
  induction h with
  | nil => cases hk
  | remains h hl =>
    obtain ⟨rfl, rfl⟩ := List.cons.inj hk
    exact .remains (hm _ h) hl
  | gone hw hone _ ih => exact .gone hw hone (ih hk)
  | perm hp _ ih => exact .perm hp (ih hk)

/-- Every node that is there afterwards is what remains of one. -/
theorem exists_remains (h : Accounted l l') (hm : m ∈ l') : ∃ n ∈ l, n.Remains m := by
  induction h with
  | nil => cases hm
  | remains h _ ih =>
    rcases List.mem_cons.mp hm with rfl | hm
    · exact ⟨_, List.mem_cons_self, h⟩
    · obtain ⟨n, hn, hr⟩ := ih hm
      exact ⟨n, List.mem_cons_of_mem _ hn, hr⟩
  | gone _ _ _ ih =>
    obtain ⟨n, hn, hr⟩ := ih hm
    exact ⟨n, List.mem_cons_of_mem _ hn, hr⟩
  | perm hp _ ih =>
    obtain ⟨n, hn, hr⟩ := ih hm
    exact ⟨n, hp.mem_iff.mpr hn, hr⟩

/-- What a wrapper does not say, and what a node that stays goes on to say, is said as often as
before. -/
theorem perm_flatMap {α : Type} {content : Schema → List α} (h : Accounted l l')
    (hw : ∀ n : Schema, n.isWrapper → content n = [])
    (hr : ∀ n m : Schema, n.Remains m → content m = content n) :
    (l.flatMap content).Perm (l'.flatMap content) := by
  induction h with
  | nil => exact .nil
  | remains h _ ih =>
    rw [List.flatMap_cons, List.flatMap_cons, hr _ _ h]
    exact ih.append_left _
  | gone hwrap _ _ ih =>
    rw [List.flatMap_cons, hw _ hwrap, List.nil_append]
    exact ih
  | perm hp _ ih => exact (hp.flatMap_right content).trans ih

/-- What the lasting keywords say is said as often as before. -/
theorem perm_flatMap_own {α : Type} (content : Keywords → List α) (h : Accounted l l')
    (hlasting : ∀ k : Keywords, content k.lasting = content k)
    (hname : ∀ name : Option String, content { name := name } = []) :
    (l.flatMap fun n => content n.own).Perm (l'.flatMap fun n => content n.own) := by
  refine h.perm_flatMap (fun n hn => ?_) fun n m hr => ?_
  · rw [← hlasting, lasting_of_isWrapper hn, hname]
  · rw [← hlasting, hr.lasting, hlasting]

end Accounted

/-! ### Trees -/

/-- The nodes below the root. -/
def innerNodes (s : Schema) : List Schema :=
  (s.properties.flatMap fun p => p.2.nodes) ++ s.items.toList.flatMap nodes ++ s.allOf.flatMap nodes

theorem nodes_eq_cons_innerNodes (s : Schema) : s.nodes = s :: s.innerNodes := s.nodes_eq

theorem innerNodes_fill (s : Schema) : (fill s).innerNodes = s.innerNodes := by
  rw [fill]
  split <;> rfl

theorem innerNodes_withoutRepeats (s e : Schema) :
    (s.withoutRepeats e).innerNodes = e.innerNodes := rfl

/-- Below a wrapper there is its entry and nothing else. -/
theorem innerNodes_of_isWrapper {s e : Schema} (h : s.isWrapper) (he : s.allOf = [e]) :
    s.innerNodes = e.nodes := by
  obtain ⟨hp, hi⟩ := below_of_isWrapper h
  simp [innerNodes, hp, hi, he]

/-- Filling a slot keeps its root. -/
theorem accounted_fill {l : List Schema} {s : Schema} (h : Accounted l s.nodes) :
    Accounted l (fill s).nodes := by
  rw [nodes_eq_cons_innerNodes] at h ⊢
  rw [innerNodes_fill]
  exact h.root fun _ hn => hn.fill

/-- Clearing what an entry repeats keeps its root. -/
theorem accounted_withoutRepeats {l : List Schema} {e : Schema} (h : Accounted l e.nodes)
    (s : Schema) : Accounted l (s.withoutRepeats e).nodes := by
  rw [nodes_eq_cons_innerNodes] at h ⊢
  rw [innerNodes_withoutRepeats]
  exact h.root fun _ hn => hn.withoutRepeats s

/-- The entries of a list are accounted for once they are in order. -/
theorem accounted_orderedEntries (s : Schema) {es : List Schema}
    (h : ∀ e ∈ es, Accounted e.nodes e.normalEntry.nodes) :
    Accounted (es.flatMap nodes) ((s.orderedEntries (es.map normalEntry)).flatMap nodes) := by
  have hsplit := (List.filter_append_perm (fun e => e.normalEntry.hasReference) es).symm
  refine .perm (hsplit.flatMap_right nodes) ?_
  rw [orderedEntries, List.filter_map, List.filter_map, List.map_map, List.flatMap_append,
    List.flatMap_append, List.flatMap_map, List.flatMap_map]
  refine .append (.flatMap fun e he => ?_) (.flatMap fun e he => ?_)
  · exact h e (List.mem_filter.mp he).1
  · exact accounted_withoutRepeats (h e (List.mem_filter.mp he).1) s

/-- **Nothing but wrappers goes.**  Every other node of a tree stays, each of them once. -/
theorem accounted_normalEntry (s : Schema) : Accounted s.nodes s.normalEntry.nodes := by
  induction s using induct with
  | node s hp hi ha =>
    rcases s.normalEntry_cases with ⟨e, he, hw, hs⟩ | ⟨ho, hps, his, has⟩
    · rw [hs, nodes_eq_cons_innerNodes, innerNodes_of_isWrapper hw he]
      exact .gone hw (by rw [he, List.length_singleton]) (ha e (by simp [he]))
    · have names : Keyed.keys s.normalEntry.properties = Keyed.keys s.properties := by
        rw [hps]
        exact Keyed.keys_mapValues _ _
      have properties : Accounted (s.properties.flatMap fun p => p.2.nodes)
          (s.normalEntry.properties.flatMap fun p => p.2.nodes) := by
        rw [hps, normalChildren, Keyed.mapValues, List.flatMap_map]
        exact .flatMap fun p hpm => accounted_fill (hp p hpm)
      have items : Accounted (s.items.toList.flatMap nodes)
          (s.normalEntry.items.toList.flatMap nodes) := by
        rw [his, normalChildren, Option.toList_map, List.flatMap_map]
        exact .flatMap fun t ht => accounted_fill (hi t (Option.mem_toList.mp ht))
      have allOf : Accounted (s.allOf.flatMap nodes) (s.normalEntry.allOf.flatMap nodes) := by
        rcases has with ⟨-, -, has⟩ | ⟨-, has⟩
        · rw [has, List.flatMap_map]
          exact .flatMap ha
        · rw [has]
          exact accounted_orderedEntries s ha
      rw [nodes_eq_cons_innerNodes s, nodes_eq_cons_innerNodes s.normalEntry]
      exact .remains (.of_own ho names) ((properties.append items).append allOf)

/-! ### What is found elsewhere -/

/-- Something that a node may say, such that whatever a node does not go on to say is said next to
it: by the entry that takes the place of a wrapper, or by the node whose entry repeats it. -/
structure Carried {α : Type} (content : Keywords → Option α) (R : α → α → Prop) : Prop where
  refl : ∀ x, R x x
  trans : ∀ x y z, R x y → R y z → R x z
  entry : ∀ s e : Schema, s.isWrapper → s.agrees e → ∀ x ∈ content s.own, ∃ y ∈ content e.own, R x y
  node : ∀ s e : Schema, ∀ x ∈ content e.own,
    x ∈ content (s.withoutRepeats e).own ∨ ∃ y ∈ content s.own, R x y
  slot : ∀ s : Schema, content (fill s).own = content s.own

/-- Some node of the tree says it, or something it is related to. -/
def Holds {α : Type} (content : Keywords → Option α) (R : α → α → Prop) (s : Schema) (x : α) :
    Prop := ∃ n ∈ s.nodes, ∃ y ∈ content n.own, R x y

section Carried

variable {α : Type} {content : Keywords → Option α} {R : α → α → Prop} {s t : Schema} {x : α}

/-- What a part of a tree holds the whole holds. -/
theorem Holds.of_nodes_subset (h : Holds content R s x) (hst : s.nodes ⊆ t.nodes) :
    Holds content R t x := by
  obtain ⟨n, hn, hy⟩ := h
  exact ⟨n, hst hn, hy⟩

theorem Holds.fill (hc : Carried content R) (h : Holds content R s x) :
    Holds content R (fill s) x := by
  obtain ⟨n, hn, y, hy, hxy⟩ := h
  rw [nodes_eq_cons_innerNodes] at hn
  rcases List.mem_cons.mp hn with rfl | hn
  · exact ⟨_, mem_nodes_self _, y, (hc.slot n).symm ▸ hy, hxy⟩
  · refine ⟨n, ?_, y, hy, hxy⟩
    rw [nodes_eq_cons_innerNodes, innerNodes_fill]
    exact List.mem_cons_of_mem _ hn

/-- What an entry holds is still held by its node with the entries in order. -/
theorem Holds.orderedEntries (hc : Carried content R) {e : Schema} (he : e ∈ s.allOf)
    (h : Holds content R e x) :
    Holds content R { s with allOf := s.orderedEntries s.allOf } x := by
  by_cases hr : e.hasReference
  · have hm : e ∈ s.orderedEntries s.allOf := mem_orderedEntries.mpr (.inl ⟨he, hr⟩)
    exact h.of_nodes_subset (nodes_subset_of_mem_allOf hm)
  · have hm : s.withoutRepeats e ∈ s.orderedEntries s.allOf :=
      mem_orderedEntries.mpr (.inr ⟨e, he, hr, rfl⟩)
    have hnodes := nodes_subset_of_mem_allOf
      (s := { s with allOf := s.orderedEntries s.allOf }) hm
    rw [nodes_eq_cons_innerNodes (s.withoutRepeats e), innerNodes_withoutRepeats,
      List.cons_subset] at hnodes
    obtain ⟨n, hn, y, hy, hxy⟩ := h
    rw [nodes_eq_cons_innerNodes] at hn
    rcases List.mem_cons.mp hn with rfl | hn
    -- The entry itself: it keeps what it says, or its node says the like.
    · rcases hc.node s n y hy with hy | ⟨z, hz, hyz⟩
      · exact ⟨_, hnodes.1, y, hy, hxy⟩
      · exact ⟨_, mem_nodes_self _, z, hz, hc.trans x y z hxy hyz⟩
    · exact ⟨n, hnodes.2 hn, y, hy, hxy⟩

/-- Simplifying a node loses nothing of the kind. -/
theorem Holds.settle (hc : Carried content R) (h : Holds content R s x) :
    Holds content R (settle (simplify s)) x := by
  rcases s.settle_simplify_cases with ⟨e, he, hw, ha, hs⟩ | ⟨-, -, hs⟩ | ⟨-, -, hs⟩
  · rw [hs]
    obtain ⟨n, hn, y, hy, hxy⟩ := h
    rw [nodes_eq_cons_innerNodes, innerNodes_of_isWrapper hw he] at hn
    rcases List.mem_cons.mp hn with rfl | hn
    · obtain ⟨z, hz, hyz⟩ := hc.entry n e hw ha y hy
      exact ⟨e, e.mem_nodes_self, z, hz, hc.trans x y z hxy hyz⟩
    · exact ⟨n, hn, y, hy, hxy⟩
  · rw [hs]
    exact h
  · rw [hs]
    obtain ⟨n, hn, y, hy, hxy⟩ := h
    rcases mem_nodes_iff.mp hn with rfl | ⟨p, hp, hn⟩ | ⟨t, ht, hn⟩ | ⟨e, he, hn⟩
    · exact ⟨_, mem_nodes_self _, y, hy, hxy⟩
    · exact ⟨n, mem_nodes_iff.mpr (.inr (.inl ⟨p, hp, hn⟩)), y, hy, hxy⟩
    · exact ⟨n, mem_nodes_iff.mpr (.inr (.inr (.inl ⟨t, ht, hn⟩))), y, hy, hxy⟩
    · exact Holds.orderedEntries hc he ⟨n, hn, y, hy, hxy⟩

/-- **What is said next to where it goes stays in the tree.**  No level takes the last copy that a
level below it has kept. -/
theorem Holds.normalEntry (hc : Carried content R) (h : Holds content R s x) :
    Holds content R s.normalEntry x := by
  induction s using induct with
  | node s hp hi ha =>
    rw [normalEntry_eq_settle]
    refine Holds.settle hc ?_
    obtain ⟨n, hn, y, hy, hxy⟩ := h
    rcases mem_nodes_iff.mp hn with rfl | ⟨p, hpm, hn⟩ | ⟨t, ht, hn⟩ | ⟨e, he, hn⟩
    · exact ⟨_, mem_nodes_self _, y, hy, hxy⟩
    · have hm : (p.1, p.2.normalSlot) ∈ s.normalChildren.properties := List.mem_map_of_mem hpm
      exact ((hp p hpm ⟨n, hn, y, hy, hxy⟩).fill hc).of_nodes_subset
        (nodes_subset_of_mem_properties hm)
    · have hm : t.normalSlot ∈ s.normalChildren.items := Option.mem_map_of_mem _ ht
      exact ((hi t ht ⟨n, hn, y, hy, hxy⟩).fill hc).of_nodes_subset (nodes_subset_of_mem_items hm)
    · have hm : e.normalEntry ∈ s.normalChildren.allOf := List.mem_map_of_mem he
      exact (ha e he ⟨n, hn, y, hy, hxy⟩).of_nodes_subset (nodes_subset_of_mem_allOf hm)

/-- What a tree holds its normal form holds. -/
theorem Holds.normalSlot (hc : Carried content R) (h : Holds content R s x) :
    Holds content R s.normalSlot x :=
  (h.normalEntry hc).fill hc

end Carried

/-- A wrapper has no description, and what an entry loses is the one of its node. -/
theorem carried_description : Carried Keywords.description Eq where
  refl _ := rfl
  trans _ _ _ := Eq.trans
  entry s e hw _ x hx := by
    simp only [isWrapper, Bool.and_eq_true, Option.isNone_iff_eq_none] at hw
    simp [hw] at hx
  node s e x hx := by
    simp only [Schema.withoutRepeats]
    split
    case isTrue h => exact .inr ⟨x, (beq_iff_eq.mp h) ▸ hx, rfl⟩
    case isFalse => exact .inl hx
  slot s := by
    rw [Schema.fill]
    split <;> rfl

theorem exists_same_of_sameValue {a b : Option Json} (h : sameValue a b) {x : Json} (hx : x ∈ a) :
    ∃ y ∈ b, x.same y := by
  obtain rfl := Option.mem_def.mp hx
  cases b with
  | none => cases h
  | some y => exact ⟨y, rfl, h⟩

/-- A wrapper goes only for an entry with its default, and what an entry loses is the default of
its node. -/
theorem carried_default : Carried Keywords.default Json.Alike where
  refl := Json.Alike.refl
  trans _ _ _ := Json.Alike.trans
  entry s e _ ha x hx := by
    simp only [agrees, Bool.and_eq_true, Bool.or_eq_true, Option.isNone_iff_eq_none] at ha
    rcases ha.1 with hn | hsame
    · rw [hn] at hx
      cases hx
    · obtain ⟨y, hy, hxy⟩ := exists_same_of_sameValue hsame hx
      exact ⟨y, hy, .inr hxy⟩
  node s e x hx := by
    simp only [Schema.withoutRepeats]
    split
    case isTrue h =>
      obtain ⟨y, hy, hxy⟩ := exists_same_of_sameValue h hx
      exact .inr ⟨y, hy, .inr hxy⟩
    case isFalse => exact .inl hx
  slot s := by
    rw [Schema.fill]
    split <;> rfl

/-! ### The content of a tree -/

/-- The nodes of a tree account for those of its normal form. -/
theorem accounted_normalSlot (s : Schema) : Accounted s.nodes s.normalSlot.nodes :=
  accounted_fill s.accounted_normalEntry

/-- The content of one tree is in another, and nothing else is: as often as before where nodes keep
it, and at some node where it may be cleared.  Defaults are compared without regard to the order of
keys. -/
structure Conserves (s t : Schema) : Prop where
  nodes : Accounted s.nodes t.nodes
  references : s.references.Perm t.references
  titles : s.titles.Perm t.titles
  propertyNames : s.propertyNames.Perm t.propertyNames
  requiredLists : s.requiredLists.Perm t.requiredLists
  extensionEntries : s.extensionEntries.Perm t.extensionEntries
  descriptions : ∀ text, text ∈ s.descriptions ↔ text ∈ t.descriptions
  defaults : ∀ value ∈ s.defaults, ∃ value' ∈ t.defaults, value.Alike value'
  defaults_back : ∀ value ∈ t.defaults, value ∈ s.defaults

theorem mem_descriptions_iff {s : Schema} {text : String} :
    text ∈ s.descriptions ↔ ∃ n ∈ s.nodes, text ∈ n.own.description := by
  simp [descriptions]

theorem mem_defaults_iff {s : Schema} {value : Json} :
    value ∈ s.defaults ↔ ∃ n ∈ s.nodes, value ∈ n.own.default := by
  simp [defaults]

/-- **Normalizing conserves what a schema says.**  Only wrappers, descriptions that are repeated and
defaults that are repeated disappear. -/
theorem conserves_normalSlot (s : Schema) : s.Conserves s.normalSlot where
  nodes := s.accounted_normalSlot
  references :=
    s.accounted_normalSlot.perm_flatMap_own (·.reference.toList) (fun _ => rfl) fun _ => rfl
  titles := s.accounted_normalSlot.perm_flatMap_own (·.title.toList) (fun _ => rfl) fun _ => rfl
  propertyNames := by
    refine s.accounted_normalSlot.perm_flatMap (fun n hn => ?_) fun n m h => h.names
    rw [(below_of_isWrapper hn).1]
    rfl
  requiredLists :=
    s.accounted_normalSlot.perm_flatMap_own (fun k => [k.required].filter (· ≠ []))
      (fun _ => rfl) fun _ => rfl
  extensionEntries :=
    s.accounted_normalSlot.perm_flatMap_own Keywords.extensions (fun _ => rfl) fun _ => rfl
  descriptions := by
    refine fun text => ⟨fun h => ?_, fun h => ?_⟩
    · obtain ⟨n, hn, hx⟩ := mem_descriptions_iff.mp h
      have hs : Holds Keywords.description Eq s text := ⟨n, hn, text, hx, rfl⟩
      obtain ⟨m, hm, y, hy, rfl⟩ := hs.normalSlot carried_description
      exact mem_descriptions_iff.mpr ⟨m, hm, hy⟩
    · obtain ⟨m, hm, hx⟩ := mem_descriptions_iff.mp h
      obtain ⟨n, hn, hr⟩ := s.accounted_normalSlot.exists_remains hm
      exact mem_descriptions_iff.mpr ⟨n, hn, hr.description_of_mem hx⟩
  defaults := by
    intro value h
    obtain ⟨n, hn, hx⟩ := mem_defaults_iff.mp h
    have hs : Holds Keywords.default Json.Alike s value := ⟨n, hn, value, hx, .refl value⟩
    obtain ⟨m, hm, y, hy, hxy⟩ := hs.normalSlot carried_default
    exact ⟨y, mem_defaults_iff.mpr ⟨m, hm, hy⟩, hxy⟩
  defaults_back := by
    intro value h
    obtain ⟨m, hm, hx⟩ := mem_defaults_iff.mp h
    obtain ⟨n, hn, hr⟩ := s.accounted_normalSlot.exists_remains hm
    exact mem_defaults_iff.mpr ⟨n, hn, hr.default_of_mem hx⟩

end Schema

end ApiAssembly
