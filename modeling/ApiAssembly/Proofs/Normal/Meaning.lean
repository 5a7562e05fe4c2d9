import ApiAssembly.Proofs.Normal.Schema
import ApiAssembly.Proofs.Schema.Meaning

/-!
# Proofs — Normal — what a normal form still demands

Every instance that the normal form of a tree accepts has to be accepted by the tree.  Putting
entries in order and taking away what repeats a description or a default constrains nothing
(`forall_accepts_orderedEntries_iff`), and `type: object` in a slot that says nothing constrains
more (`accepts_of_accepts_fill`).

A wrapper is another matter.  Its single entry takes its place as long as the types do not
contradict each other, and an entry that has no type contradicts none: the type of the wrapper is
then gone (`givesUpType`).  Nothing else is lost:

* `accepts_of_accepts_normalSlot`: an instance that the normal form accepts meets every constraint
  of the tree but the types that wrappers give up, and is accepted when none of them does.
-/

namespace ApiAssembly

namespace Schema

variable {m : Meaning} {s e : Schema} {j : Json}

/-! ### One node -/

/-- Whether the node is a wrapper with a type, and its single entry, which has none in normal form,
takes its place. -/
def givesUpType (s : Schema) : Bool :=
  match s.allOf with
  | [e] => s.own.type.isSome && s.isWrapper && s.agrees e.normalEntry &&
      e.normalEntry.own.type.isNone
  | _   => false

/-- A description and a default constrain nothing. -/
theorem accepts_withoutRepeats_iff : (s.withoutRepeats e).Accepts m j ↔ e.Accepts m j := by
  have hown : (s.withoutRepeats e).own.AcceptsUntyped m j ↔ e.own.AcceptsUntyped m j :=
    ⟨fun h => ⟨h.reference, h.required, h.extensions⟩,
      fun h => ⟨h.reference, h.required, h.extensions⟩⟩
  rw [accepts_iff, accepts_iff, hown]
  rfl

/-- Entries in order accept what the entries accept. -/
theorem forall_accepts_orderedEntries_iff {es : List Schema} :
    (∀ x ∈ s.orderedEntries es, x.Accepts m j) ↔ ∀ x ∈ es, x.Accepts m j := by
  constructor
  · intro h x hx
    by_cases hr : x.hasReference
    · exact h x (mem_orderedEntries.mpr (.inl ⟨hx, hr⟩))
    · exact accepts_withoutRepeats_iff.mp (h _ (mem_orderedEntries.mpr (.inr ⟨x, hx, hr, rfl⟩)))
  · intro h x hx
    rcases mem_orderedEntries.mp hx with ⟨hx, -⟩ | ⟨y, hy, -, rfl⟩
    · exact h x hx
    · exact accepts_withoutRepeats_iff.mpr (h y hy)

theorem accepts_of_accepts_fill (h : (fill s).Accepts m j) : s.Accepts m j := by
  rw [fill] at h
  split at h
  case isFalse => exact h
  case isTrue hempty =>
    obtain ⟨own, -, below⟩ := accepts_iff.mp h
    simp only [isEmpty, Bool.and_eq_true, Option.isNone_iff_eq_none] at hempty
    have htype : s.own.type = none := by simp [hempty]
    refine accepts_iff.mpr ⟨⟨own.reference, own.required, own.extensions⟩, ?_, below⟩
    simp [htype]

/-- A wrapper constrains nothing by itself, its type apart. -/
theorem acceptsUntyped_of_isWrapper (h : s.isWrapper) : s.own.AcceptsUntyped m j := by
  simp only [isWrapper, Bool.and_eq_true, Option.isNone_iff_eq_none, List.isEmpty_iff] at h
  constructor <;> simp [h]

theorem type_eq_of_agrees (h : s.agrees e) (hs : s.own.type ≠ none) (he : e.own.type ≠ none) :
    e.own.type = s.own.type := by
  simp only [agrees, Bool.and_eq_true, Bool.or_eq_true, Option.isNone_iff_eq_none, beq_iff_eq] at h
  exact ((h.2.resolve_left (not_or.mpr ⟨hs, he⟩))).symm

/-! ### Trees -/

/-- The entry of a wrapper has taken its place, or the node has stayed over normal forms. -/
theorem accepts_normalEntry_cases (h : s.normalEntry.Accepts m j) :
    (∃ e, s.allOf = [e] ∧ s.isWrapper ∧ s.agrees e.normalEntry ∧ e.normalEntry.Accepts m j) ∨
      s.normalChildren.Accepts m j := by
  rw [normalEntry_eq_settle] at h
  rcases settle_simplify_cases s.normalChildren with ⟨f, hf, hw, ha, hs⟩ | ⟨-, -, hs⟩ | ⟨-, -, hs⟩
  · obtain ⟨e, he, rfl⟩ := allOf_normalChildren_eq_singleton.mp hf
    exact .inl ⟨e, he, s.isWrapper_normalChildren ▸ hw, ha, hs ▸ h⟩
  · exact .inr (hs ▸ h)
  · obtain ⟨own, type, properties, items, allOf⟩ := accepts_iff.mp (hs ▸ h)
    exact .inr (accepts_iff.mpr
      ⟨own, type, properties, items, forall_accepts_orderedEntries_iff.mp allOf⟩)

/-- **All that a normal form lets go of is the types that wrappers give up.** -/
theorem acceptsBut_of_accepts_normalEntry (h : s.normalEntry.Accepts m j) :
    s.AcceptsBut (·.givesUpType) m j := by
  induction s using induct generalizing j with
  | node s hp hi ha =>
    rcases accepts_normalEntry_cases h with ⟨e, he, hw, hagrees, hacc⟩ | h
    · obtain ⟨hps, his⟩ := below_of_isWrapper hw
      refine .node (acceptsUntyped_of_isWrapper hw) ?type (by simp [hps]) (by simp [his]) ?allOf
      -- The entry has the type of the wrapper, or else the wrapper gives it up.
      case type =>
        intro hkeeps t ht
        have hs : s.own.type ≠ none := Option.ne_none_iff_exists'.mpr ⟨t, ht⟩
        have hne : e.normalEntry.own.type ≠ none := fun hn =>
          hkeeps (by simp [givesUpType, he, hw, hagrees, hn, Option.isSome_iff_ne_none, hs])
        exact (accepts_iff.mp hacc).2.1 t (type_eq_of_agrees hagrees hs hne ▸ ht)
      case allOf =>
        intro f hf
        obtain rfl : f = e := List.mem_singleton.mp (he ▸ hf)
        exact ha f hf hacc
    · obtain ⟨own, type, properties, items, allOf⟩ := accepts_iff.mp h
      refine .node own (fun _ => type) ?properties ?items ?allOf
      case properties =>
        intro p hpm v hv
        have hacc : p.2.normalSlot.Accepts m v :=
          properties (p.1, p.2.normalSlot) (List.mem_map_of_mem hpm) v hv
        exact hp p hpm (accepts_of_accepts_fill hacc)
      case items =>
        intro t ht v hv
        exact hi t ht (accepts_of_accepts_fill (items _ (Option.mem_map_of_mem _ ht) v hv))
      case allOf =>
        intro e he
        exact ha e he (allOf _ (List.mem_map_of_mem he))

/-- **Normalizing weakens a schema by the types that wrappers give up, and by nothing else.**  An
instance that the normal form of a tree accepts meets every other constraint of the tree, and it is
accepted by the tree when no wrapper in it gives up its type. -/
theorem accepts_of_accepts_normalSlot (h : s.normalSlot.Accepts m j) :
    s.AcceptsBut (·.givesUpType) m j ∧ ((∀ n ∈ s.nodes, ¬ n.givesUpType) → s.Accepts m j) := by
  have hbut := acceptsBut_of_accepts_normalEntry (accepts_of_accepts_fill h)
  exact ⟨hbut, fun hkeeps => accepts_of_acceptsBut hkeeps hbut⟩

/-- A pet: its name is a text in a wrapper of the same type, and it is an animal besides. -/
def petSchema : Schema :=
  { own := { type := some (.single "object"), description := some "a pet", required := ["name"] }
    properties := [("name",
      { own := { type := some (.single "string") }
        allOf := [{ own := { type := some (.single "string"), title := some "Name" } }] })]
    allOf := [{ own := { description := some "a pet" } },
      { own := { reference := some (schemaReference "Animal") } }] }

/-- What is an animal has legs; a keyword that is not modelled says nothing. -/
def animals : Meaning where
  reference r j := r = schemaReference "Animal" ∧ ∃ v, j.HasMember "legs" v
  keyword _ _ _ := True

/-- A dog with a name and legs. -/
def dog : Json := .obj [("name", .str "Rex"), ("legs", .num (.int 4))]

theorem normalSlot_petSchema : petSchema.normalSlot =
    { own := petSchema.own
      properties := [("name",
        { own := { type := some (.single "string"), title := some "Name" } })]
      allOf := [{ own := { reference := some (schemaReference "Animal") } }, {}] } := rfl

theorem accepts_normalSlot_petSchema : petSchema.normalSlot.Accepts animals dog := by
  rw [normalSlot_petSchema, accepts_iff]
  refine ⟨⟨by simp [petSchema], ?required, by simp [petSchema]⟩, ?type, ?properties, by simp,
    ?allOf⟩
  case required =>
    rintro name hname entries ⟨⟩
    obtain rfl : name = "name" := by simpa [petSchema] using hname
    decide
  case type =>
    rintro t ⟨⟩
    exact List.mem_singleton_self _
  case properties =>
    rintro p hp v ⟨entries, ⟨⟩, hv⟩
    obtain rfl := List.mem_singleton.mp hp
    obtain rfl : v = .str "Rex" := by simpa using hv
    rw [accepts_leaf_iff]
    exact ⟨⟨by simp, by simp, by simp⟩, by simp [SchemaType.Admits, Json.types]⟩
  case allOf =>
    refine List.forall_mem_cons.mpr ⟨?_, List.forall_mem_singleton.mpr ?_⟩
    · rw [accepts_leaf_iff]
      refine ⟨⟨?_, by simp, by simp⟩, by simp⟩
      rintro r ⟨⟩
      exact ⟨rfl, _, _, rfl, List.mem_cons_of_mem _ (List.mem_singleton_self _)⟩
    · exact (accepts_leaf_iff {}).mpr ⟨⟨by simp, by simp, by simp⟩, by simp⟩

/-- A pet that the normal form accepts is one that the schema accepts. -/
theorem accepts_petSchema :
    petSchema.normalSlot.Accepts animals dog ∧ (∀ n ∈ petSchema.nodes, ¬ n.givesUpType) ∧
      petSchema.Accepts animals dog := by
  have hkeeps : ∀ n ∈ petSchema.nodes, ¬ n.givesUpType := by decide
  exact ⟨accepts_normalSlot_petSchema, hkeeps,
    (accepts_of_accepts_normalSlot accepts_normalSlot_petSchema).2 hkeeps⟩

/-- A wrapper of type object around what requires a name. -/
def namedObject : Schema :=
  { own := { type := some (.single "object") }, allOf := [{ own := { required := ["name"] } }] }

theorem normalSlot_namedObject : namedObject.normalSlot = { own := { required := ["name"] } } := rfl

/-- No entry is a reference, and still the type is gone: the normal form accepts a text. -/
theorem not_accepts_namedObject :
    (∀ n ∈ namedObject.nodes, n.own.type ≠ none → ∀ e ∈ n.allOf,
      e.own.reference = none ∧ e.normalEntry.own.reference = none) ∧
      namedObject.normalSlot.Accepts animals (.str "Rex") ∧
      ¬ namedObject.Accepts animals (.str "Rex") := by
  refine ⟨by decide, ?_, fun h => ?_⟩
  · rw [normalSlot_namedObject, accepts_leaf_iff]
    refine ⟨⟨by simp, ?_, by simp⟩, by simp⟩
    rintro name - entries ⟨⟩
  · have htype := (accepts_iff.mp h).2.1 _ rfl
    exact absurd htype (by decide)

end Schema

end ApiAssembly
