import ApiAssembly.Proofs.Normal.Stability

/-!
# Proofs — Normal — what a normal form looks like

`InNormalForm` says what normalizing brings about at a node: the schemas in its slots say something,
and of several `allOf` entries the references come first and no other entry repeats the description
or default of the node.

A node is brought into this form when it is simplified, and what happens to it afterwards keeps it
there: an entry that loses its description or default holds the same schemas and says less
(`inNormalForm_withoutRepeats`), and so does a slot that is filled (`inNormalForm_fill`).  So all
nodes of a normal form are in it (`inNormalForm_of_mem_nodes`).  Every schema slot of a normalized
document is the normal form of one that was there (`exists_of_mem_slots_normalize`), which gives
`inNormalForm_normalize` for documents.
-/

namespace ApiAssembly

namespace Schema

/-- What normalizing brings about at a node. -/
structure InNormalForm (s : Schema) : Prop where
  properties : ∀ p ∈ s.properties, ¬ p.2.isEmpty
  items : ∀ t ∈ s.items, ¬ t.isEmpty
  /-- A reference stands before every entry that is none. -/
  referencesFirst : 2 ≤ s.allOf.length → s.allOf.Pairwise fun e f => f.hasReference → e.hasReference
  /-- An entry that is no reference repeats neither the description nor the default. -/
  noRepeats : 2 ≤ s.allOf.length → ∀ e ∈ s.allOf, ¬ e.hasReference →
    (∀ t ∈ e.own.description, t ∉ s.own.description) ∧
      ∀ j ∈ e.own.default, ∀ i ∈ s.own.default, ¬ j.same i

/-! ### One node -/

/-- Of several entries those with a reference come first. -/
theorem pairwise_orderedEntries (s : Schema) (es : List Schema) :
    (s.orderedEntries es).Pairwise fun e f => f.hasReference → e.hasReference := by
  refine List.pairwise_append.mpr ⟨?_, ?_, fun e he f _ _ => (List.mem_filter.mp he).2⟩
  · exact List.Pairwise.imp_of_mem (fun he _ _ _ => (List.mem_filter.mp he).2)
      (List.pairwise_of_forall fun _ _ => trivial)
  · refine List.Pairwise.imp_of_mem (fun _ hf _ hr => ?_)
      (List.pairwise_of_forall fun _ _ => trivial)
    obtain ⟨g, hg, rfl⟩ := List.mem_map.mp hf
    have hn := (List.mem_filter.mp hg).2
    rw [hasReference_withoutRepeats] at hr
    simp [hr] at hn

/-- What an entry has left is not what its node says. -/
theorem noRepeats_withoutRepeats (s e : Schema) :
    (∀ t ∈ (s.withoutRepeats e).own.description, t ∉ s.own.description) ∧
      ∀ j ∈ (s.withoutRepeats e).own.default, ∀ i ∈ s.own.default, ¬ j.same i := by
  constructor
  · intro t ht hs
    simp only [withoutRepeats] at ht
    split at ht
    · cases ht
    case isFalse hne =>
      exact hne (by rw [Option.mem_def.mp ht, Option.mem_def.mp hs, beq_self_eq_true])
  · intro j hj i hi hsame
    simp only [withoutRepeats] at hj
    split at hj
    · cases hj
    case isFalse hne =>
      exact hne (by rw [Option.mem_def.mp hj, Option.mem_def.mp hi, sameValue, hsame])

/-- No other entry repeats the description or default of the node. -/
theorem noRepeats_orderedEntries {s x : Schema} {es : List Schema} (hx : x ∈ s.orderedEntries es)
    (hr : ¬ x.hasReference) :
    (∀ t ∈ x.own.description, t ∉ s.own.description) ∧
      ∀ j ∈ x.own.default, ∀ i ∈ s.own.default, ¬ j.same i := by
  rcases mem_orderedEntries.mp hx with ⟨-, hx⟩ | ⟨e, -, -, rfl⟩
  · exact absurd hx hr
  · exact s.noRepeats_withoutRepeats e

/-- A node that keeps its slots and entries and says no more stays in normal form. -/
theorem InNormalForm.of_less {s t : Schema} (h : s.InNormalForm) (hp : t.properties = s.properties)
    (hi : t.items = s.items) (ha : t.allOf = s.allOf)
    (hdesc : ∀ x ∈ t.own.description, x ∈ s.own.description)
    (hdef : ∀ j ∈ t.own.default, j ∈ s.own.default) : t.InNormalForm where
  properties := hp ▸ h.properties
  items := hi ▸ h.items
  referencesFirst := ha ▸ h.referencesFirst
  noRepeats hl e he hr := by
    rw [ha] at hl he
    obtain ⟨hd, hj⟩ := h.noRepeats hl e he hr
    exact ⟨fun x hx hs => hd x hx (hdesc x hs), fun j hje i hi => hj j hje i (hdef i hi)⟩

/-- What holds of all nodes goes on to a tree with the same trees below its root. -/
theorem inNormalForm_of_same_children {s t : Schema} (h : ∀ n ∈ s.nodes, n.InNormalForm)
    (hp : t.properties = s.properties) (hi : t.items = s.items) (ha : t.allOf = s.allOf)
    (ht : s.InNormalForm → t.InNormalForm) : ∀ n ∈ t.nodes, n.InNormalForm := by
  obtain ⟨hs, hps, his, has⟩ := forall_nodes_iff.mp h
  exact forall_nodes_iff.mpr ⟨ht hs, hp ▸ hps, hi ▸ his, ha ▸ has⟩

/-- An entry that loses its description or default holds the same schemas and says less. -/
theorem inNormalForm_withoutRepeats (s : Schema) {y : Schema} (h : ∀ n ∈ y.nodes, n.InNormalForm) :
    ∀ n ∈ (s.withoutRepeats y).nodes, n.InNormalForm := by
  refine inNormalForm_of_same_children h rfl rfl rfl fun hy => hy.of_less rfl rfl rfl ?_ ?_
  · intro x hx
    simp only [withoutRepeats] at hx
    split at hx
    · cases hx
    · exact hx
  · intro j hj
    simp only [withoutRepeats] at hj
    split at hj
    · cases hj
    · exact hj

/-- A slot that is filled holds the same schemas. -/
theorem inNormalForm_fill {s : Schema} (h : ∀ n ∈ s.nodes, n.InNormalForm) :
    ∀ n ∈ (fill s).nodes, n.InNormalForm := by
  rw [fill]
  split
  · exact inNormalForm_of_same_children h rfl rfl rfl fun hs =>
      hs.of_less rfl rfl rfl (fun _ hx => hx) fun _ hj => hj
  · exact h

/-! ### Trees -/

/-- **All nodes of a normal form are in normal form.** -/
theorem inNormalForm_of_mem_nodes (s : Schema) : ∀ n ∈ s.normalEntry.nodes, n.InNormalForm := by
  induction s using induct with
  | node s hp hi ha =>
    rcases s.normalEntry_cases with ⟨e, he, -, hs⟩ | ⟨ho, hps, his, has⟩
    · rw [hs]
      exact ha e (by simp [he])
    · -- Every entry is the normal form of one that was there, or such a form without its repeats.
      have entries : ∀ x ∈ s.normalEntry.allOf, ∀ n ∈ x.nodes, n.InNormalForm := by
        intro x hx
        rcases has with ⟨-, -, has⟩ | ⟨-, has⟩
        · obtain ⟨e, he, rfl⟩ := List.mem_map.mp (has ▸ hx)
          exact ha e he
        · rcases mem_orderedEntries.mp (has ▸ hx) with ⟨hx, -⟩ | ⟨y, hy, -, rfl⟩
          · obtain ⟨e, he, rfl⟩ := List.mem_map.mp hx
            exact ha e he
          · obtain ⟨e, he, rfl⟩ := List.mem_map.mp hy
            exact inNormalForm_withoutRepeats s (ha e he)
      -- Several entries are those that were put in order under what the node says.
      have ordered : 2 ≤ s.normalEntry.allOf.length →
          s.normalEntry.allOf = s.normalEntry.orderedEntries (s.allOf.map normalEntry) := by
        intro hl
        rcases has with ⟨hlt, -, has⟩ | ⟨-, has⟩
        · rw [has, List.length_map] at hl
          omega
        · rw [has, orderedEntries_congr ho]
      refine forall_nodes_iff.mpr ⟨⟨?_, ?_, fun hl => ?_, fun hl e he hr => ?_⟩, ?_, ?_, entries⟩
      · intro p hpm
        obtain ⟨q, -, rfl⟩ := List.mem_map.mp (hps ▸ hpm)
        exact isEmpty_fill _
      · intro t ht
        obtain ⟨u, -, rfl⟩ := Option.map_eq_some_iff.mp (his ▸ ht)
        exact isEmpty_fill _
      · rw [ordered hl]
        exact pairwise_orderedEntries _ _
      · exact noRepeats_orderedEntries (ordered hl ▸ he) hr
      · intro p hpm
        obtain ⟨q, hq, rfl⟩ := List.mem_map.mp (hps ▸ hpm)
        exact inNormalForm_fill (hp q hq)
      · intro t ht
        obtain ⟨u, hu, rfl⟩ := Option.map_eq_some_iff.mp (his ▸ ht)
        exact inNormalForm_fill (hi u hu)

/-- A schema in a slot says something, and all of its nodes are in normal form. -/
theorem inNormalForm_normalSlot (s : Schema) :
    ¬ s.normalSlot.isEmpty ∧ ∀ n ∈ s.normalSlot.nodes, n.InNormalForm :=
  ⟨isEmpty_fill _, inNormalForm_fill s.inNormalForm_of_mem_nodes⟩

end Schema

/-! ### The slots of a normalized document -/

theorem Keyed.flatMap_mapValues {α β γ : Type} (m : Keyed α) (f : α → β) (g : β → List γ) :
    (m.mapValues f).flatMap (fun entry => g entry.2) = m.flatMap fun entry => g (f entry.2) := by
  rw [mapValues, List.flatMap_map]

theorem Schema.toList_map_normalSlot (o : Option Schema) :
    (o.map normalSlot).toList = o.toList.map normalSlot := by
  cases o <;> rfl

theorem Parameter.slots_normalize (p : Parameter) :
    p.normalize.slots = p.slots.map Schema.normalSlot :=
  Schema.toList_map_normalSlot p.schema

theorem MediaType.slots_normalize (m : MediaType) :
    m.normalize.slots = m.slots.map Schema.normalSlot :=
  Schema.toList_map_normalSlot m.schema

theorem RequestBody.slots_normalize (b : RequestBody) :
    b.normalize.slots = b.slots.map Schema.normalSlot := by
  rw [slots, slots, normalize, Keyed.flatMap_mapValues, List.map_flatMap]
  simp only [MediaType.slots_normalize]

theorem Response.slots_normalize (r : Response) :
    r.normalize.slots = r.slots.map Schema.normalSlot := by
  rw [slots, slots, normalize, Keyed.flatMap_mapValues, List.map_flatMap]
  simp only [MediaType.slots_normalize]

/-- The slots of a normalized operation are the normal forms of its slots. -/
theorem Operation.slots_normalize (o : Operation) :
    o.normalize.slots = o.slots.map Schema.normalSlot := by
  have hbody : (o.requestBody.map RequestBody.normalize).toList.flatMap RequestBody.slots =
      o.requestBody.toList.flatMap fun b => b.slots.map Schema.normalSlot := by
    cases o.requestBody <;> simp [RequestBody.slots_normalize]
  simp only [slots, normalize, Keyed.flatMap_mapValues, List.flatMap_map, List.map_append,
    List.map_flatMap, Parameter.slots_normalize, Response.slots_normalize, hbody]

theorem PathItem.operations_normalize (p : PathItem) :
    p.normalize.operations = p.operations.map fun o => (o.1, o.2.normalize) := by
  simp only [operations, operation_normalize, List.map_filterMap, Option.map_map,
    Function.comp_def]

/-- The slots of a normalized path item are the normal forms of its slots. -/
theorem PathItem.slots_normalize (p : PathItem) :
    p.normalize.slots = p.slots.map Schema.normalSlot := by
  have hparameters : p.normalize.parameters = p.parameters.map Parameter.normalize := rfl
  simp only [slots, operations_normalize, hparameters, List.flatMap_map, List.map_append,
    List.map_flatMap, Parameter.slots_normalize, Operation.slots_normalize]

namespace Components

/-- The slots of a map that was put in order come from those of the map. -/
theorem exists_of_mem_slots {α : Type} {m : Keyed α} {normalize : α → α} {slots : α → List Schema}
    (h : ∀ x, slots (normalize x) = (slots x).map Schema.normalSlot) {s : Schema}
    (hs : s ∈ (m.mapValues normalize).sortKeys.flatMap fun entry => slots entry.2) :
    ∃ t ∈ m.flatMap fun entry => slots entry.2, t.normalSlot = s := by
  obtain ⟨entry, he, hs⟩ := List.mem_flatMap.mp hs
  obtain ⟨old, hold, rfl⟩ := List.mem_map.mp (Keyed.mem_sortKeys.mp he)
  rw [h] at hs
  obtain ⟨t, ht, rfl⟩ := List.mem_map.mp hs
  exact ⟨t, List.mem_flatMap.mpr ⟨old, hold, ht⟩, rfl⟩

/-- A slot of normalized components is the normal form of one that was there. -/
theorem exists_of_mem_outerSlots_normalize {c : Components} {s : Schema}
    (hs : s ∈ c.normalize.outerSlots) : ∃ t ∈ c.outerSlots, t.normalSlot = s := by
  rw [outerSlots, List.mem_append, List.mem_append] at hs
  rw [outerSlots]
  rcases hs with (hs | hs) | hs
  · obtain ⟨t, ht, he⟩ := exists_of_mem_slots Response.slots_normalize hs
    exact ⟨t, List.mem_append_left _ (List.mem_append_left _ ht), he⟩
  · obtain ⟨t, ht, he⟩ := exists_of_mem_slots Parameter.slots_normalize hs
    exact ⟨t, List.mem_append_left _ (List.mem_append_right _ ht), he⟩
  · obtain ⟨t, ht, he⟩ := exists_of_mem_slots RequestBody.slots_normalize hs
    exact ⟨t, List.mem_append_right _ ht, he⟩

end Components

namespace Document

/-- All schema slots of a document. -/
def slots (d : Document) : List Schema :=
  d.outerSlots ++ d.componentsOrEmpty.schemas.map Prod.snd

/-- What is left of the components comes from the normalized ones. -/
theorem exists_of_mem_components_normalize {d : Document} {c : Components}
    (h : d.normalize.components = some c) :
    ∃ old, d.components = some old ∧ c.outerSlots = old.normalize.outerSlots ∧
      ∀ entry ∈ c.schemas, entry ∈ old.normalize.schemas := by
  rw [components_normalize, components_dropUnused_normalizeParts] at h
  obtain ⟨old, hold, rfl⟩ := Option.map_eq_some_iff.mp (Option.filter_eq_some_iff.mp h).1
  exact ⟨old, hold, rfl, fun entry he => (List.mem_filter.mp he).1⟩

/-- **The slots of a normalized document are normal forms** of slots that were there. -/
theorem exists_of_mem_slots_normalize {d : Document} {s : Schema} (hs : s ∈ d.normalize.slots) :
    ∃ t ∈ d.slots, t.normalSlot = s := by
  rw [slots, outerSlots, List.mem_append, List.mem_append] at hs
  rw [slots, outerSlots]
  rcases hs with (hs | hs) | hs
  · rw [paths_normalize, Keyed.flatMap_mapValues] at hs
    obtain ⟨entry, he, hs⟩ := List.mem_flatMap.mp hs
    rw [PathItem.slots_normalize] at hs
    obtain ⟨t, ht, rfl⟩ := List.mem_map.mp hs
    refine ⟨t, List.mem_append_left _ (List.mem_append_left _ ?_), rfl⟩
    exact List.mem_flatMap.mpr ⟨entry, Keyed.mem_sortKeys.mp he, ht⟩
  · rw [componentsOrEmpty] at hs ⊢
    cases hc : d.normalize.components with
    | none => rw [hc] at hs; exact absurd hs List.not_mem_nil
    | some c =>
      obtain ⟨old, hold, hslots, -⟩ := exists_of_mem_components_normalize hc
      rw [hc, Option.getD_some, hslots] at hs
      obtain ⟨t, ht, he⟩ := Components.exists_of_mem_outerSlots_normalize hs
      rw [hold]
      exact ⟨t, List.mem_append_left _ (List.mem_append_right _ ht), he⟩
  · obtain ⟨entry, he, rfl⟩ := List.mem_map.mp hs
    rw [componentsOrEmpty] at he ⊢
    cases hc : d.normalize.components with
    | none => rw [hc] at he; exact absurd he List.not_mem_nil
    | some c =>
      obtain ⟨old, hold, -, hschemas⟩ := exists_of_mem_components_normalize hc
      rw [hc, Option.getD_some] at he
      obtain ⟨t, ht, rfl⟩ := List.mem_map.mp (Keyed.mem_sortKeys.mp (hschemas entry he))
      rw [hold]
      exact ⟨t.2, List.mem_append_right _ (List.mem_map_of_mem ht), rfl⟩

/-- **The normal form.**  After normalizing, the schema of every slot of a document says something,
and every node in it, at any depth, is in normal form: the schemas of its properties and items say
something, and of several `allOf` entries the references come first and no other one has a
description or default like the node's. -/
theorem inNormalForm_normalize (d : Document) {s : Schema} (hs : s ∈ d.normalize.slots) :
    ¬ s.isEmpty ∧ ∀ n ∈ s.nodes, n.InNormalForm := by
  obtain ⟨t, -, rfl⟩ := exists_of_mem_slots_normalize hs
  exact t.inNormalForm_normalSlot

theorem mem_slots_describedTwiceDocument :
    describedTwice.normalSlot ∈ describedTwiceDocument.normalize.slots := by
  have hp : describedTwiceDocument.paths.sortKeys = describedTwiceDocument.paths :=
    Keyed.sortKeys_of_sorted (List.pairwise_singleton _ _)
  refine List.mem_append_left _ (List.mem_append_left _ ?_)
  rw [paths_normalize, hp, Keyed.flatMap_mapValues]
  exact List.mem_singleton_self _

/-- The body that is described twice is in normal form after one run, although a second run would
change it. -/
theorem inNormalForm_describedTwiceDocument :
    describedTwice.normalSlot ∈ describedTwiceDocument.normalize.slots ∧
      ¬ describedTwice.normalSlot.isEmpty ∧
      ∀ n ∈ describedTwice.normalSlot.nodes, n.InNormalForm :=
  ⟨mem_slots_describedTwiceDocument,
    inNormalForm_normalize describedTwiceDocument mem_slots_describedTwiceDocument⟩

end Document

end ApiAssembly
