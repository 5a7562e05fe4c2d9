import ApiAssembly.Proofs.Merge.Slots
import ApiAssembly.Proofs.Normal.Canonical
import ApiAssembly.Proofs.Partition.ByKey

/-!
# Proofs — Partition — the order of endpoints

Lists with the same endpoints in every slot have the same normalized outputs
(`normalize_outputs_of_sameSlots`).  The endpoints that are placed under a key, and the common ones
that its group takes, are picked by what they say themselves, so they are the same in every slot
too.  The document of a key is put together from both; its paths then have the same entries in
whatever order they came, and normalizing brings them in one.
-/

namespace ApiAssembly

namespace Partitioning

variable (p : Partitioning) {es es' : List Endpoint}

theorem mem_keys {key : OutputKey} :
    key ∈ p.keys es ↔ ∃ e ∈ es, ¬ p.Common e ∧ key ∈ p.placements e := by
  simp [keys, and_assoc]

/-- The endpoints of a key's document: those placed under it and then those that its group
shares. -/
theorem sameSlots_placed_append_shared (h : SameSlots es es') (key : OutputKey) :
    SameSlots (p.placed es key ++ p.shared es key.group)
      (p.placed es' key ++ p.shared es' key.group) := by
  refine (h.filter _).append ?_
  rw [shared, shared]
  split
  · exact fun _ _ => rfl
  · exact h.filter _

/-- What a group's documents start from does not look at the paths of the unified document. -/
theorem seed_congr {unified unified' : Document}
    (h : { unified with paths := [] } = { unified' with paths := [] }) (group : Option String) :
    p.seed unified group = p.seed unified' group := by
  have hseed (u : Document) : p.seed u group = p.seed { u with paths := [] } group := rfl
  rw [hseed, h, ← hseed]

/-- Endpoints in another order of the slots leave a document with the same entries. -/
theorem sameEntries_addEndpoints (d : Document) (h : SameSlots es es') :
    (d.addEndpoints es).SameEntries (d.addEndpoints es') :=
  .of_paths (d.sameEntries_addEndpoints h)
    ((d.addEndpoints_but_paths es).trans (d.addEndpoints_but_paths es').symm)

theorem sameEntries_documentOf (base : Document) (h : SameSlots es es') (key : OutputKey) :
    (p.documentOf (base.addEndpoints es) es key).SameEntries
      (p.documentOf (base.addEndpoints es') es' key) := by
  have hseed : p.seed (base.addEndpoints es) key.group = p.seed (base.addEndpoints es') key.group :=
    p.seed_congr ((base.addEndpoints_but_paths es).trans (base.addEndpoints_but_paths es').symm) _
  rw [documentOf, documentOf, ← Document.addEndpoints_append, ← Document.addEndpoints_append, hseed]
  exact sameEntries_addEndpoints _ (p.sameSlots_placed_append_shared h key)

/-- **The order of endpoints counts within their slots only.**  Lists with the same endpoints in
every slot, merged into one document and partitioned, give outputs of the same keys, and the
document of a key is the same once it is normalized. -/
theorem normalize_outputs_of_sameSlots (base : Document) (h : SameSlots es es') :
    (∀ key, key ∈ (p.outputs (base.addEndpoints es) es).map OutputDocument.key ↔
      key ∈ (p.outputs (base.addEndpoints es') es').map OutputDocument.key) ∧
    ∀ o ∈ p.outputs (base.addEndpoints es) es, ∀ o' ∈ p.outputs (base.addEndpoints es') es',
      o.key = o'.key → o.document.normalize = o'.document.normalize := by
  have hall : (∀ e ∈ es, p.Common e) ↔ ∀ e ∈ es', p.Common e := by simp only [h.mem_iff]
  by_cases hc : ∀ e ∈ es, p.Common e
  · -- One output on either side, which is the unified document.
    rw [p.outputs_of_common _ hc, p.outputs_of_common _ (hall.mp hc)]
    refine ⟨fun _ => Iff.rfl, ?_⟩
    rintro o ho o' ho' -
    rw [List.mem_singleton.mp ho, List.mem_singleton.mp ho']
    exact Document.normalize_eq_of_sameEntries (sameEntries_addEndpoints base h)
  · rw [p.outputs_of_not_common _ hc, p.outputs_of_not_common _ (mt hall.mpr hc), List.map_map,
      List.map_map]
    constructor
    · have hkey : ∀ es unified, OutputDocument.key ∘ p.outputOf unified es = id := fun _ _ => rfl
      simp only [hkey, List.map_id, mem_keys, h.mem_iff, implies_true]
    · intro o ho o' ho' hkey
      obtain ⟨key, -, rfl⟩ := List.mem_map.mp ho
      obtain ⟨key', -, rfl⟩ := List.mem_map.mp ho'
      obtain rfl : key = key' := hkey
      exact Document.normalize_eq_of_sameEntries (p.sameEntries_documentOf base h key)

/-- An endpoint of a group, a common one, and one of a version. -/
def mixedEndpoints : List Endpoint := [
  { url := "/pets", groups := .ofList ["public"] },
  { url := "/health" },
  { url := "/pets", method := .post, version := some "2" }]

/-- The same endpoints with the common one in front. -/
def turnedEndpoints : List Endpoint := [
  { url := "/health" },
  { url := "/pets", groups := .ofList ["public"] },
  { url := "/pets", method := .post, version := some "2" }]

theorem sameSlots_mixedEndpoints : SameSlots mixedEndpoints turnedEndpoints :=
  .swap (.inl (by decide)) _

/-- The path of the group's endpoint comes before or after the common one, and once the outputs are
normalized there is no difference. -/
theorem normalize_outputs_mixedEndpoints :
    SameSlots mixedEndpoints turnedEndpoints ∧
      ((outputs {} (Document.addEndpoints {} mixedEndpoints) mixedEndpoints).map
        OutputDocument.key = [⟨some "public", none⟩, ⟨none, some "2"⟩]) ∧
      ∀ o ∈ outputs {} (Document.addEndpoints {} mixedEndpoints) mixedEndpoints,
        ∀ o' ∈ outputs {} (Document.addEndpoints {} turnedEndpoints) turnedEndpoints,
          o.key = o'.key → o.document.normalize = o'.document.normalize :=
  ⟨sameSlots_mixedEndpoints, by decide,
    (normalize_outputs_of_sameSlots {} {} sameSlots_mixedEndpoints).2⟩

end Partitioning

end ApiAssembly
