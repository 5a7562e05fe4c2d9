import ApiAssembly.Proofs.Keyed.FirstWins
import ApiAssembly.Proofs.Merge.Slots

/-!
# Proofs — Merge — a document slot by slot

Endpoints are added to a document in one walk over their list, in which the slots of all paths and
methods grow together.  `Document.slots_addEndpoints` describes the outcome slot by slot: the
operations of a slot are that of the document and those of its own endpoints, in their order, and
the slot has the first of them with the others merged into it.  What a path says for all of its
operations stays, and so does everything that is not a path; new paths come behind the others, in
the order of their first endpoints.
-/

namespace ApiAssembly

/-- Operations that are taken in one after the other: the first one as it is, and the others merged
into it. -/
theorem foldl_mergeOptional_toList {α : Type} {f : α → α → α} (x : Option α) (ys : List α) :
    ys.foldl (fun x y => mergeOptional f x (some y)) x =
      (x.toList ++ ys).head?.map fun first => (x.toList ++ ys).tail.foldl f first := by
  have hsome (x : α) (ys : List α) :
      ys.foldl (fun x y => mergeOptional f x (some y)) (some x) = some (ys.foldl f x) := by
    induction ys generalizing x with
    | nil => rfl
    | cons y ys ih => exact ih (f x y)
  cases x with
  | some x => exact hsome x ys
  | none =>
    cases ys with
    | nil => rfl
    | cons y ys => exact hsome y ys

namespace Document

/-- The operations of a slot: that of a document, if any, and those of the endpoints of the slot, in
their order. -/
def slotOperations (d : Document) (es : List Endpoint) (url : String) (method : Method) :
    List Operation :=
  (d.operationAt url method).toList ++
    (es.filter fun e => e.url = url ∧ e.method = method).map Endpoint.operation

/-- A slot has the first of its operations, with the others merged into it. -/
theorem operationAt_addEndpoints_eq (d : Document) (es : List Endpoint) (url : String)
    (method : Method) :
    (d.addEndpoints es).operationAt url method =
      (d.slotOperations es url method).head?.map fun op =>
        (d.slotOperations es url method).tail.foldl Operation.merge op := by
  rw [operationAt_addEndpoints, slotOperations, ← foldl_mergeOptional_toList, List.foldl_map]

theorem operationAt_addEndpoints_of_none {d : Document} {es : List Endpoint} {url : String}
    {method : Method} (h : ∀ e ∈ es, ¬ (e.url = url ∧ e.method = method)) :
    (d.addEndpoints es).operationAt url method = d.operationAt url method := by
  have hnone : es.filter (fun e => e.url = url ∧ e.method = method) = [] :=
    List.filter_eq_nil_iff.mpr fun e he => by simpa using h e he
  rw [operationAt_addEndpoints, hnone, List.foldl_nil]

/-- The paths of a document, and then the new ones in the order of their first endpoints. -/
theorem keys_paths_addEndpoints (d : Document) (es : List Endpoint) :
    (d.addEndpoints es).paths.keys =
      d.paths.keys ++ ((es.map Endpoint.url).filter fun k => k ∉ d.paths.keys).eraseDups := by
  have hpaths : (d.addEndpoints es).paths = es.foldl (fun paths e => paths.insert e.url
      (((paths.get? e.url).getD {}).addOperation e.method e.operation)) d.paths :=
    (List.foldl_hom paths fun _ _ => rfl).symm
  rw [hpaths]
  exact Keyed.keys_foldl _ Endpoint.url (fun paths e => paths.keys_insert e.url _) d.paths es

theorem eq_of_addEndpoints (d : Document) (es : List Endpoint) :
    { d.addEndpoints es with paths := d.paths } = d :=
  congrArg (fun e : Document => { e with paths := d.paths }) (d.addEndpoints_but_paths es)

/-- **Adding endpoints, slot by slot.**  The operation of a slot is the first of those that come
together there, that of the document in front, with the others merged into it in their order; a slot
without endpoints stays as it is.  The parameters and extensions of every path stay, and a new path
has none.  Nothing but the paths changes, and they are those of the document and then the new ones,
in the order of their first endpoints. -/
theorem slots_addEndpoints (d : Document) (es : List Endpoint) :
    (∀ url method,
      (d.addEndpoints es).operationAt url method =
          ((d.slotOperations es url method).head?.map fun op =>
            (d.slotOperations es url method).tail.foldl Operation.merge op) ∧
        ((∀ e ∈ es, ¬ (e.url = url ∧ e.method = method)) →
          (d.addEndpoints es).operationAt url method = d.operationAt url method)) ∧
      (∀ url,
        (((d.addEndpoints es).paths.get? url).getD {}).parameters =
            ((d.paths.get? url).getD {}).parameters ∧
          (((d.addEndpoints es).paths.get? url).getD {}).extensions =
            ((d.paths.get? url).getD {}).extensions) ∧
      { d.addEndpoints es with paths := d.paths } = d ∧
      (d.addEndpoints es).paths.keys =
        d.paths.keys ++ ((es.map Endpoint.url).filter fun k => k ∉ d.paths.keys).eraseDups := by
  refine ⟨fun url method => ⟨d.operationAt_addEndpoints_eq es url method,
    operationAt_addEndpoints_of_none⟩, fun url => ?_, d.eq_of_addEndpoints es,
    d.keys_paths_addEndpoints es⟩
  rw [getD_get?_addEndpoints]
  exact PathItem.addAll_rest _ _

/-- A path with an operation and a parameter for all of its operations. -/
def petsPath : Document where
  paths := [("/pets", {
    get := some { summary := some "list" }
    parameters := [{ name := some "tenant", location := some "header" }] })]

/-- Endpoints of that path, and of another one in between. -/
def petsEndpoints : List Endpoint := [
  { url := "/pets", method := .post, operation := { summary := some "create" } },
  { url := "/owners" },
  { url := "/pets", operation := { summary := some "search", description := some "all pets" } },
  { url := "/pets", operation := { description := some "some pets" } }]

theorem slots_addEndpoints_petsEndpoints :
    (petsPath.addEndpoints petsEndpoints).operationAt "/pets" .get =
        some ((Operation.merge { summary := some "list" }
          { summary := some "search", description := some "all pets" }).merge
          { description := some "some pets" }) ∧
      (∀ e ∈ petsEndpoints, ¬ (e.url = "/pets" ∧ e.method = .delete)) ∧
      (petsPath.addEndpoints petsEndpoints).operationAt "/pets" .delete = none ∧
      (petsPath.addEndpoints petsEndpoints).paths.keys = ["/pets", "/owners"] := by
  obtain ⟨hslots, -, -, hkeys⟩ := slots_addEndpoints petsPath petsEndpoints
  have hnone : ∀ e ∈ petsEndpoints, ¬ (e.url = "/pets" ∧ e.method = .delete) := by decide
  exact ⟨(hslots "/pets" .get).1, hnone, (hslots "/pets" .delete).2 hnone,
    hkeys.trans (by decide)⟩

end Document

end ApiAssembly
