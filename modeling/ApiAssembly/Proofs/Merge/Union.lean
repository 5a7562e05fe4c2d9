import ApiAssembly.Merge.Operation
import ApiAssembly.Proofs.Keyed.Distinct

/-!
# Proofs — Merge — the union of two operations

`Operation.IsUnion a b m` says what it is for `m` to be the union of two descriptions in which the
first one wins: every text and flag is the first that is set; every map has the keys of `a` and then
the new ones of `b`, with the value of `a` where there is one; responses and request bodies that
both have are unions themselves; of the parameters each identity is there once, as it first came;
the tags are those of both, in increasing order.

Merging gives this union and nothing else (`Operation.isUnion_iff`).  It is associative, and
merging a second time what is already in an operation changes nothing (`Absorbing`); each part of an
operation has these laws, and those of the responses hold of maps that hold a status once.
`Operation.isUnion_merge_laws` puts both together.
-/

namespace ApiAssembly

/-! ### Unions in which the first wins -/

section Unions

variable {α : Type}

/-- What two values that may be absent make together: `both` tells it where neither is absent, and
a value that stands alone is taken as it is. -/
inductive Joined (both : α → α → α → Prop) : Option α → Option α → Option α → Prop where
  | both {a b m : α} : both a b m → Joined both (some a) (some b) (some m)
  | first (a : α) : Joined both (some a) none (some a)
  | second (b : Option α) : Joined both none b b

/-- Of two values the first one stays. -/
def Stays (a _ m : α) : Prop := m = a

/-- A map has the keys of `a` and then the new ones of `b`, and under each key what the values of
both make together. -/
structure Keyed.IsUnion (both : α → α → α → Prop) (a b m : Keyed α) : Prop where
  keys : m.keys = a.keys ++ b.keys.filter fun k => k ∉ a.keys
  value : ∀ k, Joined both (a.get? k) (b.get? k) (m.get? k)

end Unions

/-- A request body is the union of two. -/
structure RequestBody.IsUnion (a b m : RequestBody) : Prop where
  reference : m.reference = a.reference.or b.reference
  description : m.description = a.description.or b.description
  content : Keyed.IsUnion Stays a.content b.content m.content
  required : m.required = a.required.or b.required
  extensions : Keyed.IsUnion Stays a.extensions b.extensions m.extensions

/-- A response is the union of two. -/
structure Response.IsUnion (a b m : Response) : Prop where
  reference : m.reference = a.reference.or b.reference
  description : m.description = a.description.or b.description
  content : Keyed.IsUnion Stays a.content b.content m.content
  extensions : Keyed.IsUnion Stays a.extensions b.extensions m.extensions

/-- An operation is the union of two. -/
structure Operation.IsUnion (a b m : Operation) : Prop where
  increasing_tags : m.tags.Pairwise (· < ·)
  mem_tags : ∀ t, t ∈ m.tags ↔ t ∈ a.tags ∨ t ∈ b.tags
  summary : m.summary = a.summary.or b.summary
  description : m.description = a.description.or b.description
  operationId : m.operationId = a.operationId.or b.operationId
  identities : m.parameters.map Parameter.identity =
    ((a.parameters ++ b.parameters).map Parameter.identity).eraseDups
  parameters : ∀ i, (m.parameters.find? fun p => p.identity = i) =
    (a.parameters.find? fun p => p.identity = i).or (b.parameters.find? fun p => p.identity = i)
  requestBody : Joined RequestBody.IsUnion a.requestBody b.requestBody m.requestBody
  responses : Keyed.IsUnion Response.IsUnion a.responses b.responses m.responses
  deprecated : m.deprecated = a.deprecated.or b.deprecated
  security : m.security = a.security.or b.security
  extensions : Keyed.IsUnion Stays a.extensions b.extensions m.extensions

/-! ### Maps that hold a key once -/

/-- The maps of a request body hold a key once. -/
structure RequestBody.KeysOnce (b : RequestBody) : Prop where
  content : b.content.keys.Nodup
  extensions : b.extensions.keys.Nodup

/-- The maps of a response hold a key once. -/
structure Response.KeysOnce (r : Response) : Prop where
  content : r.content.keys.Nodup
  extensions : r.extensions.keys.Nodup

/-- The maps of an operation, and those in its request body and responses, hold a key once. -/
structure Operation.KeysOnce (o : Operation) : Prop where
  requestBody : ∀ body ∈ o.requestBody, body.KeysOnce
  statuses : o.responses.keys.Nodup
  responses : ∀ entry ∈ o.responses, entry.2.KeysOnce
  extensions : o.extensions.keys.Nodup

instance (b : RequestBody) : Decidable b.KeysOnce :=
  decidable_of_iff (b.content.keys.Nodup ∧ b.extensions.keys.Nodup)
    ⟨fun h => ⟨h.1, h.2⟩, fun h => ⟨h.1, h.2⟩⟩

instance (r : Response) : Decidable r.KeysOnce :=
  decidable_of_iff (r.content.keys.Nodup ∧ r.extensions.keys.Nodup)
    ⟨fun h => ⟨h.1, h.2⟩, fun h => ⟨h.1, h.2⟩⟩

instance (o : Operation) : Decidable o.KeysOnce :=
  decidable_of_iff ((∀ body ∈ o.requestBody, body.KeysOnce) ∧ o.responses.keys.Nodup ∧
      (∀ entry ∈ o.responses, entry.2.KeysOnce) ∧ o.extensions.keys.Nodup)
    ⟨fun h => ⟨h.1, h.2.1, h.2.2.1, h.2.2.2⟩, fun h => ⟨h.1, h.2, h.3, h.4⟩⟩

/-! ### Merging gives the union -/

section Unions

variable {α : Type} {both : α → α → α → Prop} {f : α → α → α}

/-- A part that both have is merged, and another one is taken from where it is. -/
theorem joined_iff {a b m : Option α} (h : ∀ x ∈ a, ∀ y ∈ b, ∀ z, both x y z ↔ z = f x y) :
    Joined both a b m ↔ m = mergeOptional f a b := by
  constructor
  · rintro (hm | - | -)
    case both => exact congrArg some ((h _ rfl _ rfl _).mp hm)
    case first => rfl
    case second => rfl
  · rintro rfl
    cases a with
    | none => exact .second b
    | some x =>
      cases b with
      | none => exact .first x
      | some y => exact .both ((h x rfl y rfl _).mpr rfl)

namespace Keyed

variable {a b : Keyed α}

/-- Keys followed by the new ones of other keys are there once. -/
theorem nodup_keys_append_filter (ha : a.keys.Nodup) (hb : b.keys.Nodup) :
    (a.keys ++ b.keys.filter fun k => k ∉ a.keys).Nodup := by
  refine List.nodup_append.mpr ⟨ha, hb.filter _, ?_⟩
  rintro k hk _ hk' rfl
  simp [hk] at hk'

/-- The union of maps that hold a key once holds it once. -/
theorem IsUnion.nodup_keys {m : Keyed α} (h : IsUnion both a b m) (ha : a.keys.Nodup)
    (hb : b.keys.Nodup) : m.keys.Nodup := by
  rw [h.keys]
  exact nodup_keys_append_filter ha hb

/-- A map with the keys and the values of the union is the union. -/
theorem isUnion_iff_of {m m' : Keyed α} (ha : a.keys.Nodup) (hb : b.keys.Nodup)
    (h : ∀ k, ∀ x ∈ a.get? k, ∀ y ∈ b.get? k, ∀ z, both x y z ↔ z = f x y)
    (hkeys : m'.keys = a.keys ++ b.keys.filter fun k => k ∉ a.keys)
    (hget : ∀ k, m'.get? k = mergeOptional f (a.get? k) (b.get? k)) :
    IsUnion both a b m ↔ m = m' := by
  constructor
  · intro hm
    refine eq_of_get? (hm.keys.trans hkeys.symm) (hm.nodup_keys ha hb) fun k => ?_
    rw [hget k]
    exact (joined_iff (h k)).mp (hm.value k)
  · rintro rfl
    exact ⟨hkeys, fun k => (joined_iff (h k)).mpr (hget k)⟩

/-- The union of two maps of values that stay. -/
theorem isUnion_stays_iff {m : Keyed α} (ha : a.keys.Nodup) (hb : b.keys.Nodup) :
    IsUnion Stays a b m ↔ m = a.extendNew b := by
  refine isUnion_iff_of ha hb (fun _ _ _ _ _ _ => Iff.rfl) (keys_extendNew hb) fun k => ?_
  rw [get?_extendNew]
  cases a.get? k <;> cases b.get? k <;> rfl

end Keyed

end Unions

/-- Merging gives the union of request bodies and nothing else. -/
theorem RequestBody.isUnion_iff {a b m : RequestBody} (ha : a.KeysOnce) (hb : b.KeysOnce) :
    IsUnion a b m ↔ m = a.merge b := by
  have hcontent := Keyed.isUnion_stays_iff (m := m.content) ha.content hb.content
  have hextensions := Keyed.isUnion_stays_iff (m := m.extensions) ha.extensions hb.extensions
  constructor
  · rintro ⟨hr, hd, hc, hq, hx⟩
    obtain ⟨_, _, _, _, _⟩ := m
    rw [merge, mk.injEq]
    exact ⟨hr, hd, hcontent.mp hc, hq, hextensions.mp hx⟩
  · rintro rfl
    exact ⟨rfl, rfl, hcontent.mpr rfl, rfl, hextensions.mpr rfl⟩

/-- Merging gives the union of responses and nothing else. -/
theorem Response.isUnion_iff {a b m : Response} (ha : a.KeysOnce) (hb : b.KeysOnce) :
    IsUnion a b m ↔ m = a.merge b := by
  have hcontent := Keyed.isUnion_stays_iff (m := m.content) ha.content hb.content
  have hextensions := Keyed.isUnion_stays_iff (m := m.extensions) ha.extensions hb.extensions
  constructor
  · rintro ⟨hr, hd, hc, hx⟩
    obtain ⟨_, _, _, _⟩ := m
    rw [merge, mk.injEq]
    exact ⟨hr, hd, hcontent.mp hc, hextensions.mp hx⟩
  · rintro rfl
    exact ⟨rfl, rfl, hcontent.mpr rfl, hextensions.mpr rfl⟩

/-! ### Responses by status -/

/-- A response is added to the one under its status, or in its own right. -/
theorem addResponse_eq (known : Keyed Response) (status : String) (r : Response) :
    addResponse known status r =
      known.insert status (((known.get? status).map fun old => old.merge r).getD r) := by
  rw [addResponse]
  cases known.get? status <;> rfl

/-- A status has the responses of both maps together. -/
theorem get?_mergeResponses (a : Keyed Response) {b : Keyed Response} (hb : b.keys.Nodup)
    (status : String) :
    (mergeResponses a b).get? status =
      mergeOptional Response.merge (a.get? status) (b.get? status) := by
  let join (old : Option Response) (r : Response) : Response :=
    (old.map fun old => old.merge r).getD r
  have hstep (known : Keyed Response) (entry : String × Response) (k : String) :
      (addResponse known entry.1 entry.2).get? k =
        if entry.1 = k then some (join (known.get? k) entry.2) else known.get? k := by
    rw [addResponse_eq, Keyed.get?_insert]
    split
    case isTrue h => rw [h]
    case isFalse => rfl
  rw [mergeResponses, Keyed.get?_foldl _ join hstep a hb]
  cases a.get? status <;> cases b.get? status <;> rfl

/-- New statuses come behind the known ones, in their own order. -/
theorem keys_mergeResponses (a : Keyed Response) {b : Keyed Response} (hb : b.keys.Nodup) :
    (mergeResponses a b).keys = a.keys ++ b.keys.filter fun k => k ∉ a.keys := by
  have hkeys := Keyed.keys_foldl (fun known entry => addResponse known entry.1 entry.2) Prod.fst
    (fun known entry => by rw [addResponse_eq, Keyed.keys_insert]) a b
  exact hkeys.trans (congrArg (a.keys ++ ·) (eraseDups_of_nodup (hb.filter _)))

/-! ### Parameters -/

theorem addParameter_eq : addParameter = addNew Parameter.identity := by
  funext known p
  rw [addParameter, addNew]
  simp only [List.any_eq_true, beq_iff_eq, List.mem_map]

/-- Parameters are added one by one, unless their identity is known. -/
theorem mergeParameters_eq (a b : List Parameter) :
    mergeParameters a b = addAllNew Parameter.identity [] (a ++ b) := by
  rw [mergeParameters, addParameter_eq, addAllNew]

/-- Each identity is there once, where it first came. -/
theorem identities_mergeParameters (a b : List Parameter) :
    (mergeParameters a b).map Parameter.identity =
      ((a ++ b).map Parameter.identity).eraseDups := by
  rw [mergeParameters_eq, map_addAllNew, List.map_nil, List.nil_append, List.filter_eq_self.mpr]
  · congr 1
    exact lawful_beq_subsingleton _ _
  · simp

/-- The parameter of an identity is the first one that came with it. -/
theorem find?_mergeParameters (a b : List Parameter)
    (i : Option String × Option String × Option String) :
    ((mergeParameters a b).find? fun p => p.identity = i) =
      (a.find? fun p => p.identity = i).or (b.find? fun p => p.identity = i) := by
  rw [mergeParameters_eq, find?_addAllNew, List.find?_nil, Option.none_or, List.find?_append]

/-- Parameters of the same identities, of which each is the one that first came, are those that
merging gives. -/
theorem parameters_eq_iff {a b ps : List Parameter} :
    (ps.map Parameter.identity = ((a ++ b).map Parameter.identity).eraseDups ∧
      ∀ i, (ps.find? fun p => p.identity = i) =
        (a.find? fun p => p.identity = i).or (b.find? fun p => p.identity = i)) ↔
      ps = mergeParameters a b := by
  constructor
  · rintro ⟨hi, hp⟩
    refine eq_of_find? Parameter.identity (hi.trans (identities_mergeParameters a b).symm) ?_ ?_
    · rw [hi]
      exact nodup_eraseDups _
    · exact fun i => (hp i).trans (find?_mergeParameters a b i).symm
  · rintro rfl
    exact ⟨identities_mergeParameters a b, find?_mergeParameters a b⟩

/-! ### Operations -/

namespace Operation

variable {a b c m : Operation}

/-- A set of texts has one list in increasing order. -/
theorem tags_eq_iff {ts us vs : List String} :
    (vs.Pairwise (· < ·) ∧ ∀ t, t ∈ vs ↔ t ∈ ts ∨ t ∈ us) ↔ vs = sortedTexts (ts ++ us) := by
  constructor
  · rintro ⟨hv, hmem⟩
    refine hv.eq_of_mem_iff (pairwise_sortedTexts _) fun t => ?_
    rw [hmem, mem_sortedTexts, List.mem_append]
  · rintro rfl
    exact ⟨pairwise_sortedTexts _, fun t => by rw [mem_sortedTexts, List.mem_append]⟩

theorem joined_requestBody_iff (ha : a.KeysOnce) (hb : b.KeysOnce) {body : Option RequestBody} :
    Joined RequestBody.IsUnion a.requestBody b.requestBody body ↔
      body = mergeOptional RequestBody.merge a.requestBody b.requestBody :=
  joined_iff fun x hx y hy _ =>
    RequestBody.isUnion_iff (ha.requestBody x hx) (hb.requestBody y hy)

/-- Merging gives the union of the responses by status. -/
theorem isUnion_responses_iff (ha : a.KeysOnce) (hb : b.KeysOnce) {rs : Keyed Response} :
    Keyed.IsUnion Response.IsUnion a.responses b.responses rs ↔
      rs = mergeResponses a.responses b.responses := by
  refine Keyed.isUnion_iff_of ha.statuses hb.statuses (fun k x hx y hy _ => ?_)
    (keys_mergeResponses _ hb.statuses) (get?_mergeResponses _ hb.statuses)
  exact Response.isUnion_iff (ha.responses _ (Keyed.mem_of_get? hx))
    (hb.responses _ (Keyed.mem_of_get? hy))

/-- **Merging gives the union of two operations**, and no other operation is it. -/
theorem isUnion_iff (ha : a.KeysOnce) (hb : b.KeysOnce) : IsUnion a b m ↔ m = a.merge b := by
  have hextensions := Keyed.isUnion_stays_iff (m := m.extensions) ha.extensions hb.extensions
  constructor
  · rintro ⟨ht, ht', hs, hd, hi, hp, hp', hb', hr, hdep, hsec, hx⟩
    obtain ⟨_, _, _, _, _, _, _, _, _, _⟩ := m
    rw [merge, mk.injEq]
    exact ⟨tags_eq_iff.mp ⟨ht, ht'⟩, hs, hd, hi, parameters_eq_iff.mp ⟨hp, hp'⟩,
      (joined_requestBody_iff ha hb).mp hb', (isUnion_responses_iff ha hb).mp hr, hdep, hsec,
      hextensions.mp hx⟩
  · rintro rfl
    obtain ⟨ht, ht'⟩ := tags_eq_iff.mpr (rfl : (a.merge b).tags = _)
    obtain ⟨hp, hp'⟩ := parameters_eq_iff.mpr (rfl : (a.merge b).parameters = _)
    exact ⟨ht, ht', rfl, rfl, rfl, hp, hp', (joined_requestBody_iff ha hb).mpr rfl,
      (isUnion_responses_iff ha hb).mpr rfl, rfl, rfl, hextensions.mpr rfl⟩

end Operation

/-! ### The laws -/

/-- Merging is associative, and what is in a value already changes nothing when it is merged
again. -/
structure Absorbing {α : Type} (f : α → α → α) : Prop where
  assoc : ∀ x y z, f (f x y) z = f x (f y z)
  right : ∀ x y, f (f x y) y = f x y
  left : ∀ x y, f (f x y) x = f x y

/-- The first value that is set wins. -/
theorem absorbing_or {α : Type} : Absorbing (Option.or (α := α)) where
  assoc x y z := by cases x <;> rfl
  right x y := by cases x <;> cases y <;> rfl
  left x y := by cases x <;> cases y <;> rfl

/-- Values that may be absent have the laws that the values have; a value that is merged with itself
must stay as it is. -/
theorem Absorbing.optional {α : Type} {f : α → α → α} (hf : Absorbing f)
    (hself : ∀ x, f x x = x) : Absorbing (mergeOptional f) where
  assoc x y z := by cases x <;> cases y <;> cases z <;> simp [mergeOptional, hf.assoc]
  right x y := by cases x <;> cases y <;> simp [mergeOptional, hf.right, hself]
  left x y := by cases x <;> cases y <;> simp [mergeOptional, hf.left, hself]

/-- The first value of a key wins. -/
theorem Keyed.absorbing_extendNew {α : Type} : Absorbing (Keyed.extendNew (α := α)) where
  assoc x y z := by simp only [extendNew_eq, addAllNew_assoc]
  right x y := by simp only [extendNew_eq, addAllNew_addAllNew_right]
  left x y := by simp only [extendNew_eq, addAllNew_addAllNew_left]

theorem Keyed.extendNew_self {α : Type} (m : Keyed α) : m.extendNew m = m := by
  rw [extendNew_eq, addAllNew_of_subset _ (List.Subset.refl _)]

/-- Tags are a set. -/
theorem absorbing_sortedTexts : Absorbing fun ts us => sortedTexts (ts ++ us) := by
  have hcongr {xs ys : List String} (h : ∀ t, t ∈ xs ↔ t ∈ ys) : sortedTexts xs = sortedTexts ys :=
    (pairwise_sortedTexts xs).eq_of_mem_iff (pairwise_sortedTexts ys) fun t => by
      rw [mem_sortedTexts, mem_sortedTexts, h t]
  constructor
  · intro x y z
    refine hcongr fun t => ?_
    simp only [List.mem_append, mem_sortedTexts, or_assoc]
  · intro x y
    refine hcongr fun t => ?_
    simp only [List.mem_append, mem_sortedTexts, or_assoc, or_self]
  · intro x y
    refine hcongr fun t => ?_
    simp only [List.mem_append, mem_sortedTexts, or_right_comm, or_self]

/-- The first parameter of an identity wins. -/
theorem absorbing_mergeParameters : Absorbing mergeParameters := by
  have hmerge (ps qs : List Parameter) : mergeParameters ps qs =
      addAllNew Parameter.identity (addAllNew Parameter.identity [] ps) qs := by
    rw [mergeParameters_eq, addAllNew_append]
  -- Parameters that were merged are added to as they are.
  have hagain (ps qs rs : List Parameter) : mergeParameters (mergeParameters ps qs) rs =
      addAllNew Parameter.identity (mergeParameters ps qs) rs := by
    rw [hmerge (mergeParameters ps qs), mergeParameters_eq ps, addAllNew_addAllNew_nil]
  constructor
  · intro x y z
    rw [hagain, hmerge x y, hmerge x, mergeParameters_eq y z, addAllNew_addAllNew_nil,
      addAllNew_append]
  · intro x y
    rw [hagain, hmerge, addAllNew_addAllNew_right]
  · intro x y
    rw [hagain, hmerge, ← addAllNew_addAllNew_nil _ (addAllNew _ _ y) x, addAllNew_addAllNew_left]

theorem RequestBody.absorbing_merge : Absorbing RequestBody.merge := by
  constructor
  · intro x y z
    simp only [merge, absorbing_or.assoc, Keyed.absorbing_extendNew.assoc]
  · intro x y
    simp only [merge, absorbing_or.right, Keyed.absorbing_extendNew.right]
  · intro x y
    simp only [merge, absorbing_or.left, Keyed.absorbing_extendNew.left]

theorem RequestBody.merge_self (b : RequestBody) : b.merge b = b := by
  simp only [merge, Option.or_self, Keyed.extendNew_self]

/-- A response has the laws since its parts have them. -/
theorem Response.absorbing_merge : Absorbing Response.merge := by
  constructor
  · intro x y z
    simp only [merge, absorbing_or.assoc, Keyed.absorbing_extendNew.assoc]
  · intro x y
    simp only [merge, absorbing_or.right, Keyed.absorbing_extendNew.right]
  · intro x y
    simp only [merge, absorbing_or.left, Keyed.absorbing_extendNew.left]

theorem Response.merge_self (r : Response) : r.merge r = r := by
  simp only [merge, Option.or_self, Keyed.extendNew_self]

/-! ### The laws of responses -/

section Responses

variable {a b c : Keyed Response}

theorem nodup_keys_mergeResponses (ha : a.keys.Nodup) (hb : b.keys.Nodup) :
    (mergeResponses a b).keys.Nodup := by
  rw [keys_mergeResponses a hb]
  exact Keyed.nodup_keys_append_filter ha hb

/-- Merging responses is associative, status by status. -/
theorem mergeResponses_assoc (ha : a.keys.Nodup) (hb : b.keys.Nodup) (hc : c.keys.Nodup) :
    mergeResponses (mergeResponses a b) c = mergeResponses a (mergeResponses b c) := by
  have hab := nodup_keys_mergeResponses ha hb
  have hbc := nodup_keys_mergeResponses hb hc
  refine Keyed.eq_of_get? ?_ (nodup_keys_mergeResponses hab hc) fun k => ?_
  · rw [keys_mergeResponses _ hc, keys_mergeResponses _ hb, keys_mergeResponses _ hbc,
      keys_mergeResponses _ hc, List.filter_append, List.filter_filter, List.append_assoc]
    congr 2
    refine List.filter_congr fun k _ => ?_
    by_cases hk : k ∈ a.keys <;> simp [hk]
  · rw [get?_mergeResponses _ hc, get?_mergeResponses _ hb, get?_mergeResponses _ hbc,
      get?_mergeResponses _ hc]
    exact (Response.absorbing_merge.optional Response.merge_self).assoc _ _ _

/-- Responses that are merged again, in whatever part they are there already, change nothing. -/
theorem mergeResponses_of_known (ha : a.keys.Nodup) (hb : b.keys.Nodup)
    (hkeys : b.keys ⊆ a.keys)
    (h : ∀ k, mergeOptional Response.merge (a.get? k) (b.get? k) = a.get? k) :
    mergeResponses a b = a := by
  refine Keyed.eq_of_get? ?_ (nodup_keys_mergeResponses ha hb) fun k => ?_
  · rw [keys_mergeResponses a hb, List.filter_eq_nil_iff.mpr, List.append_nil]
    intro k hk
    simpa using hkeys hk
  · rw [get?_mergeResponses a hb, h k]

/-- Responses that were merged into others have nothing to add. -/
theorem mergeResponses_right (ha : a.keys.Nodup) (hb : b.keys.Nodup) :
    mergeResponses (mergeResponses a b) b = mergeResponses a b := by
  refine mergeResponses_of_known (nodup_keys_mergeResponses ha hb) hb (fun k hk => ?_) fun k => ?_
  · rw [keys_mergeResponses a hb]
    by_cases hka : k ∈ a.keys <;> simp [hka, hk]
  · rw [get?_mergeResponses a hb]
    exact (Response.absorbing_merge.optional Response.merge_self).right _ _

/-- Responses that others were merged into have nothing to add. -/
theorem mergeResponses_left (ha : a.keys.Nodup) (hb : b.keys.Nodup) :
    mergeResponses (mergeResponses a b) a = mergeResponses a b := by
  refine mergeResponses_of_known (nodup_keys_mergeResponses ha hb) ha (fun k hk => ?_) fun k => ?_
  · rw [keys_mergeResponses a hb]
    exact List.mem_append_left _ hk
  · rw [get?_mergeResponses a hb]
    exact (Response.absorbing_merge.optional Response.merge_self).left _ _

end Responses

namespace Operation

variable {a b c : Operation}

/-- Merging operations is associative. -/
theorem merge_assoc (ha : a.KeysOnce) (hb : b.KeysOnce) (hc : c.KeysOnce) :
    (a.merge b).merge c = a.merge (b.merge c) := by
  simp only [merge, mk.injEq]
  exact ⟨absorbing_sortedTexts.assoc _ _ _, absorbing_or.assoc _ _ _, absorbing_or.assoc _ _ _,
    absorbing_or.assoc _ _ _, absorbing_mergeParameters.assoc _ _ _,
    (RequestBody.absorbing_merge.optional RequestBody.merge_self).assoc _ _ _,
    mergeResponses_assoc ha.statuses hb.statuses hc.statuses, absorbing_or.assoc _ _ _,
    absorbing_or.assoc _ _ _, Keyed.absorbing_extendNew.assoc _ _ _⟩

/-- An operation that was merged in has nothing to add. -/
theorem merge_merge_right (ha : a.KeysOnce) (hb : b.KeysOnce) :
    (a.merge b).merge b = a.merge b := by
  simp only [merge, mk.injEq]
  exact ⟨absorbing_sortedTexts.right _ _, absorbing_or.right _ _, absorbing_or.right _ _,
    absorbing_or.right _ _, absorbing_mergeParameters.right _ _,
    (RequestBody.absorbing_merge.optional RequestBody.merge_self).right _ _,
    mergeResponses_right ha.statuses hb.statuses, absorbing_or.right _ _,
    absorbing_or.right _ _, Keyed.absorbing_extendNew.right _ _⟩

/-- An operation that was merged into has nothing to add. -/
theorem merge_merge_left (ha : a.KeysOnce) (hb : b.KeysOnce) :
    (a.merge b).merge a = a.merge b := by
  simp only [merge, mk.injEq]
  exact ⟨absorbing_sortedTexts.left _ _, absorbing_or.left _ _, absorbing_or.left _ _,
    absorbing_or.left _ _, absorbing_mergeParameters.left _ _,
    (RequestBody.absorbing_merge.optional RequestBody.merge_self).left _ _,
    mergeResponses_left ha.statuses hb.statuses, absorbing_or.left _ _,
    absorbing_or.left _ _, Keyed.absorbing_extendNew.left _ _⟩

/-- **Merging gives the union in which the first operation wins, and its laws.**  It is associative,
and an operation that is merged again, from either side, changes nothing. -/
theorem isUnion_merge_laws (ha : a.KeysOnce) (hb : b.KeysOnce) (hc : c.KeysOnce) :
    (∀ m, IsUnion a b m ↔ m = a.merge b) ∧
      (a.merge b).merge c = a.merge (b.merge c) ∧
      (a.merge b).merge b = a.merge b ∧ (a.merge b).merge a = a.merge b :=
  ⟨fun _ => isUnion_iff ha hb, merge_assoc ha hb hc, merge_merge_right ha hb,
    merge_merge_left ha hb⟩

/-- An operation with a parameter that is there twice, and two responses. -/
def listPets : Operation where
  tags := ["pets", "animals"]
  parameters := [{ name := some "limit", location := some "query" },
    { name := some "limit", location := some "query", required := some true }]
  responses := [("200", { content := [("application/json", {})] }), ("404", {})]

/-- An operation that has one of the responses too, with more of it. -/
def searchPets : Operation where
  tags := ["search", "pets"]
  summary := some "search"
  parameters := [{ name := some "limit", location := some "header" }]
  responses := [("500", {}), ("200", { description := some "found", content :=
    [("application/xml", {}), ("application/json", { extensions := [("example", .bool true)] })] })]
  extensions := [("x-cost", .bool true)]

/-- An operation with a request body that refers to a component. -/
def queryPets : Operation where
  requestBody := some { reference := some "#/components/requestBodies/Query" }
  responses := [("200", { reference := some "#/components/responses/Pets" })]

theorem isUnion_merge_laws_pets :
    listPets.KeysOnce ∧ searchPets.KeysOnce ∧ queryPets.KeysOnce ∧
      IsUnion listPets searchPets (listPets.merge searchPets) ∧
      (listPets.merge searchPets).merge queryPets = listPets.merge (searchPets.merge queryPets) ∧
      (listPets.merge searchPets).merge searchPets = listPets.merge searchPets ∧
      (listPets.merge searchPets).merge listPets = listPets.merge searchPets :=
  have ha : listPets.KeysOnce := by decide
  have hb : searchPets.KeysOnce := by decide
  have hc : queryPets.KeysOnce := by decide
  have h := isUnion_merge_laws ha hb hc
  ⟨ha, hb, hc, (h.1 _).mpr rfl, h.2⟩

end Operation

end ApiAssembly
