import ApiAssembly.Proofs.Keyed.Distinct
import ApiAssembly.Proofs.Partition.Order

/-!
# Proofs — Partition — where common endpoints go

The operation in a slot of a document is put together from those of its endpoints
(`Document.operationAt_addEndpoints`), so a document holds every endpoint that went into it
(`Document.holds_addEndpoints`).  A common endpoint goes into every output that there is, unless its
group stands in the way (`Partitioning.holds_of_mem_outputs`).

What there is goes by the other endpoints: outputs are made for the groups that they keep
(`Partitioning.Kept`).  When all endpoints are common there is the unified document, and when one of
the others keeps a group, or has none to lose, there is its output; when all of them are excluded
from all of their groups there is nothing, and the common endpoints are lost with them
(`Partitioning.outputs_ne_nil_iff`).
-/

namespace ApiAssembly

/-! ### Endpoints that a document holds -/

/-- Some operations of one slot, each merged into those before it. -/
def Operation.mergeAll (ops : List Operation) : Option Operation :=
  ops.foldl (fun merged op => mergeOptional Operation.merge merged (some op)) none

namespace Document

/-- The slot of an endpoint is put together from operations, and its own is one of them. -/
def Holds (d : Document) (e : Endpoint) : Prop :=
  ∃ ops, e.operation ∈ ops ∧ d.operationAt e.url e.method = Operation.mergeAll ops

theorem holds_addEndpoints (d : Document) {es : List Endpoint} {e : Endpoint} (h : e ∈ es) :
    (d.addEndpoints es).Holds e := by
  let own := (es.filter fun f => f.url = e.url ∧ f.method = e.method).map Endpoint.operation
  have hown : e.operation ∈ own := List.mem_map_of_mem (by simpa using h)
  -- What the document has in the slot counts as the first of the operations.
  refine ⟨(d.operationAt e.url e.method).toList ++ own, List.mem_append_right _ hown, ?_⟩
  rw [operationAt_addEndpoints, Operation.mergeAll, List.foldl_append, List.foldl_map]
  cases d.operationAt e.url e.method <;> rfl

end Document

namespace Partitioning

variable (p : Partitioning) {unified : Document} {es : List Endpoint}

/-- An endpoint that is not common has a document to go into: it has no group, or is not excluded
from one of its groups. -/
def Kept (e : Endpoint) : Prop :=
  ¬ p.Common e ∧ (p.groupsOf e = [] ∨ ∃ g ∈ p.groupsOf e, g ∉ p.excludedOf e)

theorem placements_ne_nil_iff (e : Endpoint) :
    p.placements e ≠ [] ↔ p.groupsOf e = [] ∨ ∃ g ∈ p.groupsOf e, g ∉ p.excludedOf e := by
  rw [placements]
  split
  case isTrue h => simp [h]
  case isFalse h => simp [h]

theorem keys_ne_nil_iff : p.keys es ≠ [] ↔ ∃ e ∈ es, p.Kept e := by
  constructor
  · intro h
    obtain ⟨key, hkey⟩ := List.exists_mem_of_ne_nil _ h
    obtain ⟨e, he, hc, hplaced⟩ := p.mem_keys.mp hkey
    exact ⟨e, he, hc, (p.placements_ne_nil_iff e).mp (List.ne_nil_of_mem hplaced)⟩
  · rintro ⟨e, he, hc, hgroups⟩
    obtain ⟨key, hplaced⟩ := List.exists_mem_of_ne_nil _ ((p.placements_ne_nil_iff e).mpr hgroups)
    exact List.ne_nil_of_mem (p.mem_keys.mpr ⟨e, he, hc, hplaced⟩)

/-- **There is an output exactly when all endpoints are common or one of the others is kept.** -/
theorem outputs_ne_nil_iff :
    p.outputs unified es ≠ [] ↔ (∀ e ∈ es, p.Common e) ∨ ∃ e ∈ es, p.Kept e := by
  by_cases h : ∀ e ∈ es, p.Common e
  · rw [p.outputs_of_common _ h]
    exact ⟨fun _ => .inl h, fun _ => List.cons_ne_nil _ _⟩
  · rw [p.outputs_of_not_common _ h, ne_eq, List.map_eq_nil_iff, or_iff_right h, ← keys_ne_nil_iff]

/-- A common endpoint that is excluded from no group is in every output, unless there are groups
that exclude common endpoints. -/
theorem holds_of_mem_outputs {e : Endpoint} (hu : unified.Holds e) (he : e ∈ es)
    (hc : p.Common e) (hx : p.excludedOf e = [])
    (hg : ∀ g ∈ p.groups, g.2.excludesCommon = false) {o : OutputDocument}
    (ho : o ∈ p.outputs unified es) : o.document.Holds e := by
  by_cases h : ∀ e ∈ es, p.Common e
  · rw [p.outputs_of_common _ h] at ho
    obtain rfl := List.mem_singleton.mp ho
    exact hu
  · rw [p.outputs_of_not_common _ h] at ho
    obtain ⟨key, -, rfl⟩ := List.mem_map.mp ho
    have hopen : p.excludesCommon key.group = false := by
      rw [excludesCommon]
      cases hget : key.group.bind p.groups.get? with
      | none => rfl
      | some g =>
        obtain ⟨name, -, hname⟩ := Option.bind_eq_some_iff.mp hget
        exact hg _ (Keyed.mem_of_get? hname)
    have hshared : e ∈ p.shared es key.group := by
      rw [shared, if_neg (by simp [hopen])]
      exact List.mem_filter.mpr ⟨he, by simp [hc, hx]⟩
    exact Document.holds_addEndpoints _ hshared

/-- **Where a common endpoint goes.**  The unified document holds the endpoints, and no group
excludes common ones.  Then a common endpoint that is excluded from no group is in an output exactly
when all endpoints are common or one of the others is kept, and in any other case there is no output
at all. -/
theorem exists_output_holds_iff {e : Endpoint} (hu : ∀ e ∈ es, unified.Holds e) (he : e ∈ es)
    (hc : p.Common e) (hx : p.excludedOf e = [])
    (hg : ∀ g ∈ p.groups, g.2.excludesCommon = false) :
    ((∃ o ∈ p.outputs unified es, o.document.Holds e) ↔
        (∀ e ∈ es, p.Common e) ∨ ∃ e ∈ es, p.Kept e) ∧
      (p.outputs unified es ≠ [] ↔ (∀ e ∈ es, p.Common e) ∨ ∃ e ∈ es, p.Kept e) ∧
      ∀ o ∈ p.outputs unified es, o.document.Holds e := by
  have hall : ∀ o ∈ p.outputs unified es, o.document.Holds e :=
    fun o ho => p.holds_of_mem_outputs (hu e he) he hc hx hg ho
  have hsome : p.outputs unified es ≠ [] ↔ _ := p.outputs_ne_nil_iff
  refine ⟨⟨fun ⟨_, ho, _⟩ => hsome.mp (List.ne_nil_of_mem ho), fun h => ?_⟩, hsome, hall⟩
  obtain ⟨o, ho⟩ := List.exists_mem_of_ne_nil _ (hsome.mpr h)
  exact ⟨o, ho, hall o ho⟩

/-- The common endpoint between one of a group and one of a version. -/
theorem exists_output_holds_mixedEndpoints :
    ∃ o ∈ outputs {} (Document.addEndpoints {} mixedEndpoints) mixedEndpoints,
      o.document.Holds { url := "/health" } :=
  (exists_output_holds_iff {} (fun _ => Document.holds_addEndpoints {})
    (List.mem_cons_of_mem _ List.mem_cons_self) (by decide) (by decide) (by decide)).1.mpr
    (.inr ⟨_, List.mem_cons_self, by decide, .inr (by decide)⟩)

/-- A common endpoint, and one that is excluded from its only group. -/
def withdrawnEndpoints : List Endpoint := [
  { url := "/health" },
  { url := "/pets", groups := .ofList ["public"], excludedGroups := .ofList ["public"] }]

/-- The common endpoint is lost with the one that has no output. -/
theorem outputs_withdrawnEndpoints :
    ({ url := "/health" } : Endpoint) ∈ withdrawnEndpoints ∧
      Common {} { url := "/health" } ∧ excludedOf {} { url := "/health" } = [] ∧
      outputs {} (Document.addEndpoints {} withdrawnEndpoints) withdrawnEndpoints = [] :=
  ⟨List.mem_cons_self, by decide, by decide, List.isEmpty_iff.mp (by decide)⟩

end Partitioning

end ApiAssembly
