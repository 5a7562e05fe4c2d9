import ApiAssembly.Merge.Endpoint
import ApiAssembly.Proofs.Keyed.Entries
import ApiAssembly.Proofs.Normal.Slots

/-!
# Proofs — Merge — endpoints of different slots do not meet

An endpoint is merged into the slot of its path and method and leaves every other slot alone.  So
what a list of endpoints makes of a document goes by the endpoints of each slot: the operation of a
slot is that of the document, merged with those of its endpoints one after the other
(`PathItem.operation_addAll`, `Document.operationAt_addEndpoints`), and the entries under a path are
the item of the path with all of its endpoints (`entriesAt_addEndpoints`).

`SameSlots` is the order that counts: two lists have, for every slot, the same endpoints in the same
order.  Their paths then have the same entries (`sameEntries_addEndpoints`); the order of new paths
may differ.
-/

namespace ApiAssembly

/-- Two lists have, for every path and method, the same endpoints in the same order. -/
def SameSlots (es es' : List Endpoint) : Prop :=
  ∀ url method, es.filter (fun e => e.url = url ∧ e.method = method) =
    es'.filter fun e => e.url = url ∧ e.method = method

namespace SameSlots

variable {es es' fs fs' : List Endpoint}

theorem mem_iff (h : SameSlots es es') (e : Endpoint) : e ∈ es ↔ e ∈ es' := by
  have := congrArg (e ∈ ·) (h e.url e.method)
  simpa using this

/-- Endpoints that are picked by what they say stay in their order. -/
theorem filter (h : SameSlots es es') (p : Endpoint → Bool) :
    SameSlots (es.filter p) (es'.filter p) := by
  intro url method
  rw [List.filter_filter, List.filter_filter]
  simp only [Bool.and_comm _ (p _)]
  rw [← List.filter_filter, ← List.filter_filter, h url method]

theorem append (h : SameSlots es es') (h' : SameSlots fs fs') :
    SameSlots (es ++ fs) (es' ++ fs') := by
  intro url method
  rw [List.filter_append, List.filter_append, h url method, h' url method]

/-- Two endpoints of different slots can change places. -/
theorem swap {a b : Endpoint} (h : a.url ≠ b.url ∨ a.method ≠ b.method) (es : List Endpoint) :
    SameSlots (a :: b :: es) (b :: a :: es) := by
  intro url method
  simp only [List.filter_cons]
  split
  case isTrue ha =>
    split
    case isTrue hb =>
      simp only [decide_eq_true_eq] at ha hb
      rcases h with h | h
      · exact absurd (ha.1.trans hb.1.symm) h
      · exact absurd (ha.2.trans hb.2.symm) h
    case isFalse => rfl
  case isFalse => rfl

/-- The endpoints of a path: there are some in both lists or in neither, and for each method they
are the same. -/
theorem of_url (h : SameSlots es es') (url : String) :
    (es.filter (fun e => e.url = url) = [] ↔ es'.filter (fun e => e.url = url) = []) ∧
      ∀ method, (es.filter fun e => e.url = url).filter (fun e => e.method = method) =
        (es'.filter fun e => e.url = url).filter fun e => e.method = method := by
  constructor
  · simp only [List.filter_eq_nil_iff, h.mem_iff]
  · intro method
    simpa only [List.filter_filter, Bool.decide_and, Bool.and_comm] using h url method

end SameSlots

namespace PathItem

/-- Puts the operations of endpoints into the slots of their methods. -/
def addAll (p : PathItem) (es : List Endpoint) : PathItem :=
  es.foldl (fun p e => p.addOperation e.method e.operation) p

theorem addOperation_rest (p : PathItem) (m : Method) (op : Operation) :
    (p.addOperation m op).parameters = p.parameters ∧
      (p.addOperation m op).extensions = p.extensions := by
  cases m <;> exact ⟨rfl, rfl⟩

theorem addAll_rest (p : PathItem) (es : List Endpoint) :
    (p.addAll es).parameters = p.parameters ∧ (p.addAll es).extensions = p.extensions := by
  induction es generalizing p with
  | nil => exact ⟨rfl, rfl⟩
  | cons e es ih =>
    obtain ⟨hp, hx⟩ := ih (p.addOperation e.method e.operation)
    obtain ⟨hp', hx'⟩ := p.addOperation_rest e.method e.operation
    exact ⟨hp.trans hp', hx.trans hx'⟩

/-- The operation of a slot takes in those of its own endpoints, in their order. -/
theorem operation_addAll (p : PathItem) (es : List Endpoint) (m : Method) :
    (p.addAll es).operation m = (es.filter fun e => e.method = m).foldl
      (fun op e => mergeOptional Operation.merge op (some e.operation)) (p.operation m) := by
  induction es generalizing p with
  | nil => rfl
  | cons e es ih =>
    rw [addAll, List.foldl_cons, ← addAll, ih, List.filter_cons]
    by_cases hm : e.method = m
    · rw [if_pos (decide_eq_true hm), List.foldl_cons, addOperation, hm,
        operation_setOperation_self]
    · rw [if_neg (by simpa using hm), addOperation, operation_setOperation_of_ne _ _ hm]

/-- Only the order within a method counts. -/
theorem addAll_congr (p : PathItem) {es es' : List Endpoint}
    (h : ∀ m, es.filter (fun e => e.method = m) = es'.filter fun e => e.method = m) :
    p.addAll es = p.addAll es' := by
  obtain ⟨hp, hx⟩ := p.addAll_rest es
  obtain ⟨hp', hx'⟩ := p.addAll_rest es'
  refine ext_operation (fun m => ?_) (hp.trans hp'.symm) (hx.trans hx'.symm)
  rw [operation_addAll, operation_addAll, h m]

end PathItem

/-! ### Writing into a map -/

namespace Keyed

variable {α : Type}

theorem entriesAt_insert_of_ne (m : Keyed α) {k q : String} (v : α) (h : k ≠ q) :
    (m.insert k v).entriesAt q = m.entriesAt q := by
  induction m with
  | nil => simp [insert, entriesAt, h]
  | cons entry m ih =>
    obtain ⟨k', v'⟩ := entry
    by_cases hk : k' = k
    · subst hk
      rw [insert, if_pos rfl, entriesAt_cons, entriesAt_cons, if_neg h, if_neg h]
    · rw [insert, if_neg hk, entriesAt_cons, entriesAt_cons, ih]

/-- A value that is written takes the place of the first one of its key. -/
theorem entriesAt_insert_self (m : Keyed α) (k : String) (v : α) :
    (m.insert k v).entriesAt k = (k, v) :: (m.entriesAt k).tail := by
  induction m with
  | nil => simp [insert, entriesAt]
  | cons entry m ih =>
    obtain ⟨k', v'⟩ := entry
    by_cases hk : k' = k
    · subst hk
      rw [insert, if_pos rfl, entriesAt_cons, entriesAt_cons, if_pos rfl, if_pos rfl,
        List.tail_cons]
    · rw [insert, if_neg hk, entriesAt_cons, entriesAt_cons, if_neg hk, if_neg hk, ih]

end Keyed

/-! ### Endpoints in a document -/

namespace Document

theorem addEndpoints_append (d : Document) (es fs : List Endpoint) :
    d.addEndpoints (es ++ fs) = (d.addEndpoints es).addEndpoints fs :=
  List.foldl_append

/-- The entries under a path: the item of the path with its endpoints in it. -/
theorem entriesAt_addEndpoints (d : Document) (es : List Endpoint) (url : String) :
    (d.addEndpoints es).paths.entriesAt url =
      if es.filter (fun e => e.url = url) = [] then d.paths.entriesAt url
      else (url, ((d.paths.get? url).getD {}).addAll (es.filter fun e => e.url = url)) ::
        (d.paths.entriesAt url).tail := by
  induction es generalizing d with
  | nil => rw [List.filter_nil, if_pos rfl]; rfl
  | cons e es ih =>
    rw [addEndpoints, List.foldl_cons, ← addEndpoints, ih, List.filter_cons]
    by_cases hu : e.url = url
    · -- The item is written once for this endpoint and again for the later ones.
      subst hu
      have hnew : (d.addEndpoint e).paths = d.paths.insert e.url
          (((d.paths.get? e.url).getD {}).addOperation e.method e.operation) := rfl
      rw [if_pos (decide_eq_true rfl), if_neg (List.cons_ne_nil _ _), hnew,
        Keyed.entriesAt_insert_self, Keyed.get?_insert_self, Option.getD_some, List.tail_cons]
      split
      case isTrue h => rw [h]; rfl
      case isFalse => rfl
    · have hold : (d.addEndpoint e).paths.entriesAt url = d.paths.entriesAt url :=
        Keyed.entriesAt_insert_of_ne _ _ hu
      have hget : (d.addEndpoint e).paths.get? url = d.paths.get? url :=
        Keyed.get?_insert_of_ne _ _ hu
      rw [hold, hget, decide_eq_false hu, if_neg Bool.false_ne_true]

/-- The operation of a path and a method. -/
def operationAt (d : Document) (url : String) (method : Method) : Option Operation :=
  ((d.paths.get? url).getD {}).operation method

/-- The item of a path takes in the operations of the endpoints of the path. -/
theorem getD_get?_addEndpoints (d : Document) (es : List Endpoint) (url : String) :
    ((d.addEndpoints es).paths.get? url).getD {} =
      ((d.paths.get? url).getD {}).addAll (es.filter fun e => e.url = url) := by
  rw [Keyed.get?_eq_head?_entriesAt, entriesAt_addEndpoints]
  split
  case isTrue h =>
    rw [← Keyed.get?_eq_head?_entriesAt, h]
    rfl
  case isFalse => rfl

/-- Every slot takes in the operations of its endpoints, in their order. -/
theorem operationAt_addEndpoints (d : Document) (es : List Endpoint) (url : String)
    (method : Method) :
    (d.addEndpoints es).operationAt url method =
      (es.filter fun e => e.url = url ∧ e.method = method).foldl
        (fun op e => mergeOptional Operation.merge op (some e.operation))
        (d.operationAt url method) := by
  rw [operationAt, getD_get?_addEndpoints, PathItem.operation_addAll, List.filter_filter,
    operationAt]
  simp only [Bool.decide_and, Bool.and_comm]

/-- **Only the order within a slot counts.**  Lists with the same endpoints in every slot give
paths with the same entries. -/
theorem sameEntries_addEndpoints (d : Document) {es es' : List Endpoint} (h : SameSlots es es') :
    (d.addEndpoints es).paths.SameEntries (d.addEndpoints es').paths := by
  intro url
  obtain ⟨hnil, hmethod⟩ := h.of_url url
  rw [entriesAt_addEndpoints, entriesAt_addEndpoints, PathItem.addAll_congr _ hmethod]
  simp only [hnil]

end Document

end ApiAssembly
