import ApiAssembly.Normal.Document
import ApiAssembly.Proofs.Keyed.Sorted

/-!
# Proofs — Normal — the schema slots of the objects of a document

The slots of an object are the schema trees that stand in it.  Normalizing an object replaces its
slots and, but for the order of maps, nothing else; so a second normalization changes nothing
exactly when it changes no slot.  That is `stable_iff` of each kind of object: a slot is stable when
its second normalization changes nothing (`Schema.Stable`).
-/

namespace ApiAssembly

/-- The second normalization of a tree in a slot changes nothing. -/
def Schema.Stable (s : Schema) : Prop := s.normalSlot.normalSlot = s.normalSlot

/-! ### Mapping twice -/

section Twice

variable {α : Type} {f : α → α}

/-- Mapping a second time changes nothing exactly when it does so for every item. -/
theorem list_map_map_eq_iff {l : List α} :
    (l.map f).map f = l.map f ↔ ∀ x ∈ l, f (f x) = f x := by
  rw [List.map_map, List.map_inj_left]
  rfl

theorem option_map_map_eq_iff {o : Option α} :
    (o.map f).map f = o.map f ↔ ∀ x ∈ o.toList, f (f x) = f x := by
  cases o <;> simp

/-- Where a second use of `f` changes nothing exactly on values with stable slots, it changes
nothing in a map exactly when all slots of its values are stable. -/
theorem Keyed.mapValues_stable_iff {slots : α → List Schema} {m : Keyed α}
    (h : ∀ x, f (f x) = f x ↔ ∀ s ∈ slots x, s.Stable) :
    (m.mapValues f).mapValues f = m.mapValues f ↔
      ∀ s ∈ m.flatMap fun entry => slots entry.2, s.Stable := by
  simp only [Keyed.mapValues_mapValues_eq_iff, h, List.forall_mem_flatMap]

/-- The same for the values of a map that was changed and put in order. -/
theorem Keyed.sortKeys_mapValues_stable_iff {slots : α → List Schema} {m : Keyed α}
    (h : ∀ x, f (f x) = f x ↔ ∀ s ∈ slots x, s.Stable) :
    (∀ entry ∈ (m.mapValues f).sortKeys, f entry.2 = entry.2) ↔
      ∀ s ∈ m.flatMap fun entry => slots entry.2, s.Stable := by
  simp only [Keyed.forall_mem_sortKeys, Keyed.forall_mem_mapValues, h, List.forall_mem_flatMap]

/-- A list is stable when the slots of all its items are. -/
theorem list_map_stable_iff {slots : α → List Schema} {l : List α}
    (h : ∀ x, f (f x) = f x ↔ ∀ s ∈ slots x, s.Stable) :
    (l.map f).map f = l.map f ↔ ∀ s ∈ l.flatMap slots, s.Stable := by
  simp only [list_map_map_eq_iff, h, List.forall_mem_flatMap]

/-- An optional part is stable when its slots are. -/
theorem option_map_stable_iff {slots : α → List Schema} {o : Option α}
    (h : ∀ x, f (f x) = f x ↔ ∀ s ∈ slots x, s.Stable) :
    (o.map f).map f = o.map f ↔ ∀ s ∈ o.toList.flatMap slots, s.Stable := by
  simp only [option_map_map_eq_iff, h, List.forall_mem_flatMap]

end Twice

/-! ### Parameters, bodies and responses -/

/-- An optional schema is a slot itself. -/
theorem Schema.slot_stable_iff {o : Option Schema} :
    (o.map Schema.normalSlot).map Schema.normalSlot = o.map Schema.normalSlot ↔
      ∀ s ∈ o.toList, s.Stable :=
  option_map_map_eq_iff

namespace Parameter

def slots (p : Parameter) : List Schema := p.schema.toList

/-- The slot of a parameter is its schema. -/
theorem stable_iff (p : Parameter) :
    p.normalize.normalize = p.normalize ↔ ∀ s ∈ p.slots, s.Stable := by
  rw [slots, ← Schema.slot_stable_iff]
  simp only [normalize, Parameter.mk.injEq, true_and, and_true]

end Parameter

namespace MediaType

def slots (m : MediaType) : List Schema := m.schema.toList

/-- The slot of a media type is its schema. -/
theorem stable_iff (m : MediaType) :
    m.normalize.normalize = m.normalize ↔ ∀ s ∈ m.slots, s.Stable := by
  rw [slots, ← Schema.slot_stable_iff]
  simp only [normalize, MediaType.mk.injEq, and_true]

end MediaType

namespace RequestBody

def slots (b : RequestBody) : List Schema := b.content.flatMap fun entry => entry.2.slots

/-- The slots of a request body are those of its media types. -/
theorem stable_iff (b : RequestBody) :
    b.normalize.normalize = b.normalize ↔ ∀ s ∈ b.slots, s.Stable := by
  rw [slots, ← Keyed.mapValues_stable_iff MediaType.stable_iff]
  simp only [normalize, RequestBody.mk.injEq, true_and, and_true]

end RequestBody

namespace Response

def slots (r : Response) : List Schema := r.content.flatMap fun entry => entry.2.slots

/-- The slots of a response are those of its media types. -/
theorem stable_iff (r : Response) :
    r.normalize.normalize = r.normalize ↔ ∀ s ∈ r.slots, s.Stable := by
  rw [slots, ← Keyed.mapValues_stable_iff MediaType.stable_iff]
  simp only [normalize, Response.mk.injEq, true_and, and_true]

end Response

/-! ### Operations and paths -/

namespace Operation

def slots (o : Operation) : List Schema :=
  o.parameters.flatMap Parameter.slots ++ o.requestBody.toList.flatMap RequestBody.slots ++
    o.responses.flatMap fun entry => entry.2.slots

/-- The slots of an operation are those of its parameters, its body and its responses. -/
theorem stable_iff (o : Operation) :
    o.normalize.normalize = o.normalize ↔ ∀ s ∈ o.slots, s.Stable := by
  rw [slots, List.forall_mem_append, List.forall_mem_append,
    ← list_map_stable_iff Parameter.stable_iff, ← option_map_stable_iff RequestBody.stable_iff,
    ← Keyed.mapValues_stable_iff Response.stable_iff]
  simp only [normalize, Operation.mk.injEq, true_and, and_true, and_assoc]

end Operation

namespace PathItem

def slots (p : PathItem) : List Schema :=
  p.operations.flatMap (fun o => o.2.slots) ++ p.parameters.flatMap Parameter.slots

/-- Each operation is changed where it stands. -/
theorem operation_mapOperations (f : Operation → Operation) (p : PathItem) (m : Method) :
    (p.mapOperations f).operation m = (p.operation m).map f := by
  cases m <;> rfl

theorem mem_operations {p : PathItem} {m : Method} {o : Operation} :
    (m, o) ∈ p.operations ↔ p.operation m = some o := by
  have hm : m ∈ Method.all := by cases m <;> decide
  rw [operations, List.mem_filterMap]
  constructor
  · rintro ⟨m', -, h⟩
    obtain ⟨o', ho, he⟩ := Option.map_eq_some_iff.mp h
    obtain ⟨rfl, rfl⟩ := Prod.mk.inj he
    exact ho
  · intro h
    exact ⟨m, hm, by rw [h, Option.map_some]⟩

/-- Two paths are the same when they are so in every operation and in the rest. -/
theorem ext_operation {p q : PathItem} (ho : ∀ m, p.operation m = q.operation m)
    (hp : p.parameters = q.parameters) (hx : p.extensions = q.extensions) : p = q := by
  obtain ⟨_, _, _, _, _, _, _, _, _, _⟩ := p
  obtain ⟨_, _, _, _, _, _, _, _, _, _⟩ := q
  rw [PathItem.mk.injEq]
  exact ⟨ho .get, ho .put, ho .post, ho .delete, ho .options, ho .head, ho .patch, ho .trace, hp,
    hx⟩

/-- Normalizing a path item normalizes the operation of each method. -/
theorem operation_normalize (p : PathItem) (m : Method) :
    p.normalize.operation m = (p.operation m).map Operation.normalize := by
  rw [← operation_mapOperations]
  cases m <;> rfl

/-- The slots of a path item are those of its operations. -/
theorem stable_iff (p : PathItem) :
    p.normalize.normalize = p.normalize ↔ ∀ s ∈ p.slots, s.Stable := by
  rw [slots, List.forall_mem_append, List.forall_mem_flatMap,
    ← list_map_stable_iff Parameter.stable_iff]
  constructor
  · intro h
    refine ⟨?_, congrArg parameters h⟩
    rintro ⟨m, o⟩ ho
    rw [← Operation.stable_iff]
    have := congrArg (fun q => q.operation m) h
    simpa [operation_normalize, mem_operations.mp ho] using this
  · rintro ⟨ho, hp⟩
    refine ext_operation (fun m => ?_) hp rfl
    simp only [operation_normalize]
    cases hm : p.operation m with
    | none => rfl
    | some o =>
      have := (Operation.stable_iff o).mpr (ho (m, o) (mem_operations.mpr hm))
      rw [Option.map_some, Option.map_some, this]

end PathItem

end ApiAssembly
