import ApiAssembly.Proofs.Merge.Union

/-!
# Proofs — Merge — inline definitions and references

A response or a request body is an inline definition, or it is a reference (`$ref`) to one, and then
nothing else of it counts.  Merging takes the reference for a field like any other and fills it in
where the first description has none.  So what is merged refers to what the first of the operations
with a reference there refers to (`exists_foldl_mergeOptional`).

A reference stays the reference that it is.  An inline definition becomes a reference as soon as one
of the operations that are merged into it has one in its place, and stays inline in no other case
(`Operation.keepsForms_iff`).
-/

namespace ApiAssembly

/-! ### What merged values refer to -/

section References

variable {α : Type} {f : α → α → α} {reference : α → Option String}

/-- Values that may be absent are merged into one that is there: there is one afterwards, and it
refers to what the first of them with a reference refers to. -/
theorem exists_foldl_mergeOptional (h : ∀ x y, reference (f x y) = (reference x).or (reference y))
    (x : α) (others : List (Option α)) :
    ∃ x', others.foldl (mergeOptional f) (some x) = some x' ∧
      reference x' = (reference x).or (others.findSome? fun y => y.bind reference) := by
  induction others generalizing x with
  | nil => exact ⟨x, rfl, Option.or_none.symm⟩
  | cons y others ih =>
    cases y with
    | none => exact ih x
    | some y =>
      obtain ⟨x', hx', href⟩ := ih (f x y)
      refine ⟨x', hx', ?_⟩
      rw [href, h, Option.or_assoc, List.findSome?_cons, Option.bind_some]
      cases reference y <;> rfl

/-- What is merged refers to the same as before exactly when it referred to something or none of the
others does. -/
theorem exists_reference_eq_iff (h : ∀ x y, reference (f x y) = (reference x).or (reference y))
    {x : α} {others : List (Option α)} :
    (∃ x', others.foldl (mergeOptional f) (some x) = some x' ∧ reference x' = reference x) ↔
      (reference x = none → ∀ y ∈ others, y.bind reference = none) := by
  obtain ⟨x', hx', href⟩ := exists_foldl_mergeOptional h x others
  have hsame : (∃ x'', others.foldl (mergeOptional f) (some x) = some x'' ∧
      reference x'' = reference x) ↔ reference x' = reference x := by
    rw [hx']
    exact ⟨fun ⟨_, heq, hr⟩ => Option.some.inj heq ▸ hr, fun hr => ⟨x', rfl, hr⟩⟩
  rw [hsame, href]
  cases reference x with
  | none => simp
  | some r => simp

end References

namespace Operation

/-- What the response to a status refers to. -/
def responseReference (o : Operation) (status : String) : Option String :=
  (o.responses.get? status).bind Response.reference

/-- What the request body refers to. -/
def bodyReference (o : Operation) : Option String := o.requestBody.bind RequestBody.reference

/-- When other operations are merged into an operation, in order, each of its inline definitions
stays inline and each of its references stays the reference that it is. -/
structure KeepsForms (o : Operation) (others : List Operation) : Prop where
  responses : ∀ status r, o.responses.get? status = some r →
    ∃ r', (others.foldl merge o).responses.get? status = some r' ∧ r'.reference = r.reference
  requestBody : ∀ body, o.requestBody = some body →
    ∃ body', (others.foldl merge o).requestBody = some body' ∧ body'.reference = body.reference

variable {o : Operation} {others : List Operation}

theorem get?_responses_foldl_merge (h : ∀ b ∈ others, b.responses.keys.Nodup) (status : String) :
    (others.foldl merge o).responses.get? status =
      (others.map fun b => b.responses.get? status).foldl (mergeOptional Response.merge)
        (o.responses.get? status) := by
  induction others generalizing o with
  | nil => rfl
  | cons b others ih =>
    obtain ⟨hb, hothers⟩ := List.forall_mem_cons.mp h
    have hmerge : (o.merge b).responses.get? status =
        mergeOptional Response.merge (o.responses.get? status) (b.responses.get? status) :=
      get?_mergeResponses o.responses hb status
    rw [List.foldl_cons, ih hothers, hmerge, List.map_cons, List.foldl_cons]

theorem requestBody_foldl_merge :
    (others.foldl merge o).requestBody =
      (others.map requestBody).foldl (mergeOptional RequestBody.merge) o.requestBody := by
  induction others generalizing o with
  | nil => rfl
  | cons b others ih => exact ih

/-- **When merging keeps what is inline inline.**  Operations are merged into another one, in
order.  Its references stay in any case; its inline definitions stay inline exactly when none of the
others has a reference in their place. -/
theorem keepsForms_iff (h : ∀ b ∈ others, b.responses.keys.Nodup) :
    o.KeepsForms others ↔
      (∀ status r, o.responses.get? status = some r → r.reference = none →
        ∀ b ∈ others, b.responseReference status = none) ∧
      ∀ body, o.requestBody = some body → body.reference = none →
        ∀ b ∈ others, b.bodyReference = none := by
  have hresponse (status : String) (r : Response) (hr : o.responses.get? status = some r) :
      (∃ r', (others.foldl merge o).responses.get? status = some r' ∧
        r'.reference = r.reference) ↔
      (r.reference = none → ∀ b ∈ others, b.responseReference status = none) := by
    rw [get?_responses_foldl_merge h, hr, exists_reference_eq_iff fun _ _ => rfl,
      List.forall_mem_map]
    exact Iff.rfl
  have hbody (body : RequestBody) (hb : o.requestBody = some body) :
      (∃ body', (others.foldl merge o).requestBody = some body' ∧
        body'.reference = body.reference) ↔
      (body.reference = none → ∀ b ∈ others, b.bodyReference = none) := by
    rw [requestBody_foldl_merge, hb, exists_reference_eq_iff fun _ _ => rfl, List.forall_mem_map]
    exact Iff.rfl
  constructor
  · rintro ⟨hrs, hbs⟩
    exact ⟨fun status r hr => (hresponse status r hr).mp (hrs status r hr),
      fun body hb => (hbody body hb).mp (hbs body hb)⟩
  · rintro ⟨hrs, hbs⟩
    exact ⟨fun status r hr => (hresponse status r hr).mpr (hrs status r hr),
      fun body hb => (hbody body hb).mpr (hbs body hb)⟩

/-- An operation with an inline response and a request body that is a reference. -/
def inlinePets : Operation where
  requestBody := some { reference := some "#/components/requestBodies/Pet" }
  responses := [("200", { description := some "pets" })]

/-- An operation with the same inline response, another response that is a reference, and an inline
request body. -/
def checkedPets : Operation where
  requestBody := some { required := some true }
  responses := [("400", { reference := some "#/components/responses/Invalid" }),
    ("200", { content := [("application/json", {})] })]

theorem keepsForms_inlinePets :
    (∀ b ∈ [checkedPets], b.responses.keys.Nodup) ∧ inlinePets.KeepsForms [checkedPets] := by
  have h : ∀ b ∈ [checkedPets], b.responses.keys.Nodup := by decide
  refine ⟨h, (keepsForms_iff h).mpr ⟨fun status r hr _ => ?_, fun body hb hnone => ?_⟩⟩
  · by_cases hs : "200" = status
    · subst hs
      decide
    · rw [inlinePets, Keyed.get?_cons, if_neg hs] at hr
      cases hr
  · obtain rfl := Option.some.inj hb
    cases hnone

/-- An operation whose response refers to a component. -/
def sharedPets : Operation where
  responses := [("200", { reference := some "#/components/responses/Pets" })]

/-- The inline response becomes a reference. -/
theorem not_keepsForms_sharedPets : ¬ inlinePets.KeepsForms [sharedPets] := by
  rintro ⟨hresponses, -⟩
  obtain ⟨r', hr', hnone⟩ := hresponses "200" _ rfl
  obtain rfl := Option.some.inj hr'
  cases hnone

end Operation

end ApiAssembly
