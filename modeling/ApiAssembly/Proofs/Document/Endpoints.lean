import ApiAssembly.Proofs.Document.RoundTrip

/-!
# Proofs — Document — endpoints are read as they are written

An endpoint is read from an object or from the list of its values, and written as an object.  The
object is a shape, whose keys that are not modelled are passed over; the list goes by the same
fields.  So **an endpoint that was read, in either form, is read again from what is written of it**
(`Endpoint.rereads`).
-/

namespace ApiAssembly

/-- A method is read again from its name. -/
theorem Method.roundTrips (d : Draft) : d.RoundTrips ofDraft fun m => .str m.name := by
  intro m _
  exact ⟨by cases m <;> rfl, Json.readFrom_str _ _⟩

namespace Endpoint

def shape : Shape Endpoint where
  kind := .endpoint
  rest := .passed
  cells := [
    .always "url" Draft.text .str "" (Draft.text_draft_str "") (Json.readsBack_str ""),
    .always "method" Method.ofDraft (fun m => .str m.name) .get rfl,
    .always "operation" Operation.ofDraft Operation.toJson {} rfl,
    .texts "groups",
    .texts "excludedGroups",
    .optional "version" Draft.text .str,
    .optional "package" Draft.text .str]
  view := {
    get := fun e => (e.url, e.method, e.operation, e.groups, e.excludedGroups, e.version,
      e.package, ())
    set := fun (url, method, operation, groups, excludedGroups, version, package, _) _ =>
      ⟨url, method, operation, groups, excludedGroups, version, package⟩ }
  required := required
  empty := {}
  base := 1
  required_written := by
    intro name hname
    simp only [required, List.mem_cons, List.not_mem_nil, or_false] at hname
    rcases hname with rfl | rfl | rfl
    · exact ⟨_, .head _, rfl, fun _ => nofun⟩
    · exact ⟨_, .tail _ (.head _), rfl, fun _ => nofun⟩
    · exact ⟨_, .tail _ (.tail _ (.head _)), rfl, fun _ => nofun⟩

/-- An endpoint is written as an object of its shape. -/
theorem toJson_eq_write (e : Endpoint) : e.toJson = shape.write e := by
  rw [toJson, ← List.append_nil (_ ++ textEntry "package" e.package)]
  simp only [List.append_assoc, List.cons_append, List.nil_append]
  rfl

theorem skip_eq : (fun _ => skip) = Row.other shape.rest shape.cells shape.view := by
  funext key d e
  show skip d e =
    ((if d.wellWritten then .ok () else .error .malformed : Reading Unit) >>= fun _ => .ok e)
  rw [skip]
  split <;> rfl

theorem soundAt_cells (d : Draft) : ∀ c ∈ shape.cells, c.SoundAt d := by
  simp only [shape, List.forall_mem_cons]
  exact ⟨.always d.roundTrips_text, .always (Method.roundTrips d), .always (Operation.roundTrips d),
    .texts, .texts, .text, .text, List.forall_mem_nil _⟩

/-- The values of a list are read into the fields one after the other. -/
theorem restored_ofItems {fields : List (Field Endpoint)} (hfields : fields ⊆ table)
    {e e' : Endpoint} {i n : Nat} {ds : List Draft} (h : ofItems e i fields ds = .ok e')
    (hdepth : ∀ d ∈ ds, d.depth ≤ n) (he : shape.Restored n e) : shape.Restored n e' := by
  induction fields generalizing e i ds with
  | nil =>
    cases ds with
    | nil => exact Except.ok.inj h ▸ he
    | cons d ds => cases h
  | cons f fields ih =>
    obtain ⟨hf, hfields⟩ := List.cons_subset.mp hfields
    cases ds with
    | nil =>
      rw [ofItems] at h
      split at h
      · cases h
      · exact Except.ok.inj h ▸ he
    | cons d ds =>
      obtain ⟨hd, hds⟩ := List.forall_mem_cons.mp hdepth
      obtain ⟨e'', hread, h⟩ := Reading.exists_of_bind_eq_ok h
      exact ih hfields h hds
        (Shape.restored_field hf (soundAt_cells d) hd (Reading.of_under_eq_ok hread) he)

theorem ofDraft_of_ne_list {d : Draft} (h : ∀ ds, d ≠ .list ds) {e : Endpoint}
    (hd : ofDraft d = .ok e) : shape.read d = .ok e := by
  unfold ofDraft at hd
  split at hd
  · exact absurd rfl (h _)
  · cases hd
  · rwa [skip_eq] at hd

/-- What an endpoint is written as is read in its shape. -/
theorem rereads_of_restored {n : Nat} {e : Endpoint} (he : shape.Restored n e) :
    Draft.Rereads ofDraft toJson (n + 1) e := by
  obtain ⟨hagain, hfrom⟩ := Shape.rereads he
  rw [← toJson_eq_write] at hagain hfrom
  refine ⟨?_, hfrom⟩
  show Draft.object .endpoint table required (fun _ => skip) {} e.toJson.draft = _
  rw [skip_eq]
  exact hagain

/-- **An endpoint that was read, in either form, is read again from what is written of it**, which
is no deeper than the draft, but for the operation, which is written in any case. -/
theorem rereads {d : Draft} {e : Endpoint} (he : ofDraft d = .ok e) :
    Draft.Rereads ofDraft toJson (max d.depth 2) e := by
  -- The list has no shape; its values go through the fields of the object, in their order.
  by_cases hd : ∃ ds, d = .list ds
  · obtain ⟨ds, rfl⟩ := hd
    rw [Draft.depth, show (2 : Nat) = 1 + 1 from rfl, Nat.add_max_add_right]
    refine rereads_of_restored (restored_ofItems (List.Subset.refl _) he (fun d hd => ?_)
      (shape.restored_empty (Nat.le_max_right _ _)))
    exact Nat.le_trans (Draft.depthOfItems_le_iff.mp (Nat.le_refl _) d hd) (Nat.le_max_left _ _)
  · have hread := ofDraft_of_ne_list (fun ds h => hd ⟨ds, h⟩) he
    obtain ⟨fs, q, rfl, -⟩ := Draft.object_eq_ok hread
    rw [Draft.depth, show (2 : Nat) = 1 + 1 from rfl, Nat.add_max_add_right]
    exact rereads_of_restored (Shape.restored_read (fun x _ => soundAt_cells x)
      (Nat.le_max_right _ _) (Nat.succ_le_succ (Nat.le_max_left _ _)) hread)

end Endpoint

end ApiAssembly
