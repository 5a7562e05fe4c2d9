import ApiAssembly.Partition
import ApiAssembly.Proofs.Text.Sets

/-!
# Proofs — Partition — what the document of a key is made of

`Partitioning.outputs` walks the endpoints once and lets a list of documents grow.  The result is
described key by key: a key is there when an endpoint that is not common is placed under it, in the
order of the first such endpoint (`keys`), and its document is the start document of its group with
the endpoints placed under the key and then the common ones that the group takes (`documentOf`).
`outputs_eq` says that the two agree.

The walk is a fold over the pairs of a key and an endpoint.  The invariant is that the documents
are those of the keys so far, each with the endpoints that came with its key (`foldl_addToOutput`).
-/

namespace ApiAssembly

namespace Partitioning

variable (p : Partitioning) (unified : Document)

/-! ### The documents of a partition, key by key -/

/-- The groups with a rule that selects the package of an endpoint. -/
def ruled (rule : Group → String → Bool) (e : Endpoint) : List String :=
  (p.groups.filter fun g => e.package.any (rule g.2)).map Prod.fst

/-- The groups of an endpoint: its own and those that include its package. -/
def groupsOf (e : Endpoint) : List String :=
  (e.groups.items ++ p.ruled Group.includesPackage e).eraseDups

/-- The groups that an endpoint stays out of: its own and those that exclude its package. -/
def excludedOf (e : Endpoint) : List String :=
  (e.excludedGroups.items ++ p.ruled Group.excludesPackage e).eraseDups

/-- An endpoint of no group and no version. -/
def Common (e : Endpoint) : Prop := p.groupsOf e = [] ∧ e.version = none

instance (e : Endpoint) : Decidable (p.Common e) := inferInstanceAs (Decidable (_ ∧ _))

/-- The keys that an endpoint which is not common is placed under. -/
def placements (e : Endpoint) : List OutputKey :=
  if p.groupsOf e = [] then [⟨none, e.version⟩]
  else ((p.groupsOf e).filter (· ∉ p.excludedOf e)).map fun g => ⟨some g, e.version⟩

/-- The keys under which an endpoint is placed, in the order of the first one. -/
def keys (es : List Endpoint) : List OutputKey :=
  ((es.filter fun e => ¬ p.Common e).flatMap p.placements).eraseDups

/-- The endpoints that are placed under a key. -/
def placed (es : List Endpoint) (key : OutputKey) : List Endpoint :=
  es.filter fun e => ¬ p.Common e ∧ key ∈ p.placements e

/-- The common endpoints that go into the documents of a group. -/
def shared (es : List Endpoint) (group : Option String) : List Endpoint :=
  if p.excludesCommon group then []
  else es.filter fun e => p.Common e ∧ ∀ g ∈ group, g ∉ p.excludedOf e

/-- The document of a key. -/
def documentOf (es : List Endpoint) (key : OutputKey) : Document :=
  ((p.seed unified key.group).addEndpoints (p.placed es key)).addEndpoints
    (p.shared es key.group)

/-- The output of a key: its document and the settings of its group. -/
def outputOf (es : List Endpoint) (key : OutputKey) : OutputDocument :=
  { p.newOutput unified key with document := p.documentOf unified es key }

/-! ### The code goes by the same placements -/

section Membership

variable (e : Endpoint)

theorem ruled_of_package_none {e : Endpoint} (h : e.package = none)
    (rule : Group → String → Bool) : p.ruled rule e = [] := by
  simp [ruled, h]

theorem ruled_of_package_some {e : Endpoint} {package : String} (h : e.package = some package)
    (rule : Group → String → Bool) :
    p.ruled rule e = (p.groups.filter fun g => rule g.2 package).map Prod.fst := by
  simp [ruled, h]

/-- The groups of a membership are the endpoint's own and those that include its package. -/
theorem items_groups_membership : (p.membership e).groups.items = p.groupsOf e := by
  rw [membership, groupsOf]
  cases h : e.package with
  | none => rw [p.ruled_of_package_none h, List.append_nil, eraseDups_of_nodup e.groups.nodup]
  | some package => rw [p.ruled_of_package_some h, TextSet.items_addAll]

/-- The excluded groups are the endpoint's own and those that exclude its package. -/
theorem items_excluded_membership : (p.membership e).excluded.items = p.excludedOf e := by
  rw [membership, excludedOf]
  cases h : e.package with
  | none =>
    rw [p.ruled_of_package_none h, List.append_nil, eraseDups_of_nodup e.excludedGroups.nodup]
  | some package => rw [p.ruled_of_package_some h, TextSet.items_addAll]

theorem nodup_groupsOf : (p.groupsOf e).Nodup :=
  p.items_groups_membership e ▸ (p.membership e).groups.nodup

/-- An endpoint is common when it has neither a group nor a version. -/
theorem isCommon_iff : p.isCommon e ↔ p.Common e := by
  rw [isCommon, Common, TextSet.isEmpty, items_groups_membership, Bool.and_eq_true,
    List.isEmpty_iff, Option.isNone_iff_eq_none]

theorem isCommon_eq : p.isCommon e = decide (p.Common e) :=
  Bool.eq_iff_iff.mpr ((p.isCommon_iff e).trans decide_eq_true_iff.symm)

/-- The keys of an endpoint are its placements. -/
theorem keysOf_eq : p.keysOf e = p.placements e := by
  rw [keysOf, placements]
  simp only [TextSet.isEmpty, TextSet.contains, items_groups_membership,
    items_excluded_membership, List.isEmpty_iff, List.contains_eq_mem, decide_not]

theorem nodup_placements : (p.placements e).Nodup := by
  rw [placements]
  split
  · exact List.nodup_singleton _
  · refine List.Nodup.map (fun a b h => ?_) ((p.nodup_groupsOf e).filter _)
    exact Option.some.inj (OutputKey.mk.inj h).1

/-- A group takes the common endpoints that do not exclude it. -/
theorem takesCommon_iff (group : Option String) :
    p.takesCommon group e ↔ ∀ g ∈ group, g ∉ p.excludedOf e := by
  cases group with
  | none => simp [takesCommon]
  | some g => simp [takesCommon, TextSet.contains, items_excluded_membership]

end Membership

/-! ### The walk over the endpoints -/

/-- A new output with some endpoints in its document. -/
def filled (key : OutputKey) (es : List Endpoint) : OutputDocument :=
  { p.newOutput unified key with document := (p.seed unified key.group).addEndpoints es }

/-- The steps that the walk takes for an endpoint. -/
def stepsOf (e : Endpoint) : List (OutputKey × Endpoint) := (p.placements e).map fun k => (k, e)

/-- The endpoints that came with a key. -/
def arrived (steps : List (OutputKey × Endpoint)) (key : OutputKey) : List Endpoint :=
  (steps.filter fun s => s.1 = key).map Prod.snd

/-- One more pair adds to what came with its own key. -/
theorem arrived_concat (steps : List (OutputKey × Endpoint)) (k key : OutputKey) (e : Endpoint) :
    arrived (steps ++ [(k, e)]) key =
      if key = k then arrived steps key ++ [e] else arrived steps key := by
  rw [arrived, List.filter_append, List.map_append]
  split
  case isTrue h => simp [arrived, h]
  case isFalse h => simp [arrived, Ne.symm h]

theorem arrived_of_not_mem {steps : List (OutputKey × Endpoint)} {key : OutputKey}
    (h : key ∉ steps.map Prod.fst) : arrived steps key = [] := by
  rw [arrived, List.map_eq_nil_iff, List.filter_eq_nil_iff]
  intro s hs
  simpa using fun he : s.1 = key => h (he ▸ List.mem_map_of_mem hs)

/-- One step: the endpoint goes into the document of its key, which is new if it was not there. -/
theorem addToOutput_filled (ks : List OutputKey) (f : OutputKey → List Endpoint) (e : Endpoint)
    (key : OutputKey) (h : key ∉ ks → f key = []) :
    p.addToOutput unified e (ks.map fun k => p.filled unified k (f k)) key =
      (if key ∈ ks then ks else ks ++ [key]).map fun k =>
        p.filled unified k (if k = key then f k ++ [e] else f k) := by
  have hany : ((ks.map fun k => p.filled unified k (f k)).any fun o => o.key == key) = true ↔
      key ∈ ks := by
    simp [filled, newOutput]
  rw [addToOutput]
  split
  -- The document of a known key takes the endpoint; the others stay.
  case isTrue hk =>
    rw [if_pos (hany.mp hk), List.map_map]
    refine List.map_congr_left fun k _ => ?_
    by_cases hkey : k = key
    · simp [filled, newOutput, hkey, Document.addEndpoints]
    · simp [filled, newOutput, hkey]
  -- The document of a new key has no endpoint but this one.
  case isFalse hk =>
    have hkey : key ∉ ks := fun hm => hk (hany.mpr hm)
    rw [if_neg hkey, List.map_append]
    refine congrArg₂ (fun xs ys => xs ++ ys) (List.map_congr_left fun k hm => ?_) ?_
    · rw [if_neg fun he : k = key => hkey (he ▸ hm)]
    · rw [List.map_singleton, if_pos rfl, h hkey]
      rfl

/-- **The documents on the way.**  They are those of the keys so far, each with the endpoints that
came with its key. -/
theorem foldl_addToOutput (steps : List (OutputKey × Endpoint)) :
    steps.foldl (fun outputs s => p.addToOutput unified s.2 outputs s.1) [] =
      (steps.map Prod.fst).eraseDups.map fun k => p.filled unified k (arrived steps k) := by
  induction steps using List.reverseRecOn with
  | nil => rfl
  | append_singleton steps s ih =>
    obtain ⟨key, e⟩ := s
    rw [List.foldl_append, ih, List.foldl_cons, List.foldl_nil, addToOutput_filled,
      List.map_append, List.map_singleton, eraseDups_concat]
    · simp only [arrived_concat, List.mem_eraseDups]
    · exact fun h => arrived_of_not_mem fun hm => h (List.mem_eraseDups.mpr hm)

/-- An endpoint comes with a key once at most. -/
theorem arrived_stepsOf (e : Endpoint) (key : OutputKey) :
    arrived (p.stepsOf e) key = if key ∈ p.placements e then [e] else [] := by
  rw [arrived, stepsOf, List.filter_map, List.map_map]
  simp only [Function.comp_def, List.filter_eq, (p.nodup_placements e).count]
  split <;> rfl

/-- What came with a key are the endpoints that are placed under it. -/
theorem arrived_flatMap_stepsOf (es : List Endpoint) (key : OutputKey) :
    arrived (es.flatMap p.stepsOf) key = es.filter fun e => key ∈ p.placements e := by
  induction es with
  | nil => rfl
  | cons e es ih =>
    rw [List.flatMap_cons, arrived, List.filter_append, List.map_append, ← arrived, ← arrived, ih,
      arrived_stepsOf, List.filter_cons]
    by_cases h : key ∈ p.placements e <;> simp [h]

/-- What the walk over some endpoints leaves. -/
theorem foldl_keysOf (es : List Endpoint) :
    es.foldl (fun outputs e => (p.keysOf e).foldl (p.addToOutput unified e) outputs) [] =
      (es.flatMap p.placements).eraseDups.map fun k =>
        p.filled unified k (es.filter fun e => k ∈ p.placements e) := by
  -- Endpoints and, for each, their keys: one walk over the pairs.
  have h := p.foldl_addToOutput unified (es.flatMap p.stepsOf)
  have hfst : (es.flatMap p.stepsOf).map Prod.fst = es.flatMap p.placements := by
    simp only [List.map_flatMap, stepsOf, List.map_map, Function.comp_def, List.map_id']
  rw [hfst, List.foldl_flatMap] at h
  simpa only [stepsOf, List.foldl_map, arrived_flatMap_stepsOf, keysOf_eq] using h

/-- The documents of the keys get the common endpoints at the end. -/
theorem addCommon_filled (es : List Endpoint) (key : OutputKey) :
    p.addCommon (es.filter p.isCommon) (p.filled unified key (p.placed es key)) =
      p.outputOf unified es key := by
  have hshared : (es.filter p.isCommon).filter (p.takesCommon key.group) =
      es.filter fun e => p.Common e ∧ ∀ g ∈ key.group, g ∉ p.excludedOf e := by
    rw [List.filter_filter]
    refine List.filter_congr fun e _ => ?_
    rw [Bool.eq_iff_iff, Bool.and_eq_true, isCommon_iff, takesCommon_iff, decide_eq_true_iff,
      and_comm]
  have hgroup : (p.filled unified key (p.placed es key)).key.group = key.group := rfl
  rw [addCommon, outputOf, documentOf, shared, hgroup, hshared]
  split <;> rfl

theorem all_isCommon_iff {es : List Endpoint} :
    es.all p.isCommon = true ↔ ∀ e ∈ es, p.Common e := by
  simp only [List.all_eq_true, isCommon_iff]

/-- Where all endpoints are common the unified document is the only output. -/
theorem outputs_of_common {es : List Endpoint} (h : ∀ e ∈ es, p.Common e) :
    p.outputs unified es = [{ key := ⟨none, none⟩, document := unified }] := by
  rw [outputs, if_pos (p.all_isCommon_iff.mpr h)]

/-- Otherwise there is the output of each key. -/
theorem outputs_of_not_common {es : List Endpoint} (h : ¬ ∀ e ∈ es, p.Common e) :
    p.outputs unified es = (p.keys es).map (p.outputOf unified es) := by
  have hown : (es.filter fun e => !p.isCommon e) = es.filter fun e => ¬ p.Common e := by
    simp only [isCommon_eq, decide_not]
  rw [outputs, if_neg (mt p.all_isCommon_iff.mp h)]
  simp only [hown, foldl_keysOf, List.map_map]
  rw [← keys]
  refine List.map_congr_left fun key _ => ?_
  rw [Function.comp_apply, List.filter_filter, ← addCommon_filled, placed]
  congr 2
  refine List.filter_congr fun e _ => ?_
  rw [Bool.decide_and, Bool.and_comm]

/-- **The partition, key by key.**  Where all endpoints are common the unified document is the only
output; otherwise there is one output for each key that an endpoint is placed under, in the order
of the first one, and its document is that of the key. -/
theorem outputs_eq (es : List Endpoint) :
    p.outputs unified es =
      if ∀ e ∈ es, p.Common e then [{ key := ⟨none, none⟩, document := unified }]
      else (p.keys es).map (p.outputOf unified es) := by
  split
  case isTrue h => exact p.outputs_of_common unified h
  case isFalse h => exact p.outputs_of_not_common unified h

/-! ### What goes by the keys alone -/

/-- Every output has a key of its own, and the settings of the group in it. -/
theorem outputs_eq_map_newOutput (es : List Endpoint) :
    ∃ (ks : List OutputKey) (document : OutputKey → Document), ks.Nodup ∧
      p.outputs unified es = ks.map fun k =>
        { p.newOutput unified k with document := document k } := by
  -- Endpoints that come into an output, common ones too, change its document alone.
  have settings : ∀ common k fs, p.addCommon common (p.filled unified k fs) =
      { p.newOutput unified k with
        document := (p.addCommon common (p.filled unified k fs)).document } := by
    intro common k fs
    rw [addCommon]
    split <;> rfl
  rw [outputs]
  split
  · exact ⟨[⟨none, none⟩], fun _ => unified, List.nodup_singleton _, rfl⟩
  · rw [foldl_keysOf, List.map_map]
    exact ⟨_, _, nodup_eraseDups _, List.map_congr_left fun k _ => settings _ k _⟩

/-- No two documents of a partition have the same key. -/
theorem nodup_keys_outputs (es : List Endpoint) :
    ((p.outputs unified es).map OutputDocument.key).Nodup := by
  obtain ⟨ks, document, hks, h⟩ := p.outputs_eq_map_newOutput unified es
  rw [h, List.map_map]
  exact (List.map_id ks).symm ▸ hks

/-- The name that an output has of its own is that of its group. -/
theorem filename_of_mem_outputs {es : List Endpoint} {o : OutputDocument}
    (ho : o ∈ p.outputs unified es) :
    o.filename = (o.key.group.bind p.groups.get?).bind Group.filename := by
  obtain ⟨ks, document, -, h⟩ := p.outputs_eq_map_newOutput unified es
  rw [h] at ho
  obtain ⟨k, -, rfl⟩ := List.mem_map.mp ho
  rfl

/-- But for its paths, the document of an output is what the documents of its group start from. -/
theorem document_of_mem_outputs {es : List Endpoint} {o : OutputDocument}
    (ho : o ∈ p.outputs unified es) :
    { o.document with paths := [] } = { p.seed unified o.key.group with paths := [] } := by
  rw [outputs] at ho
  split at ho
  · obtain rfl := List.mem_singleton.mp ho
    have hopenapi : unified.openapi = unified.openapi.or unified.openapi := Option.or_self.symm
    rw [seed]
    exact congrArg (fun v => { unified with openapi := v, paths := [] }) hopenapi
  · rw [foldl_keysOf, List.map_map] at ho
    obtain ⟨key, -, rfl⟩ := List.mem_map.mp ho
    have hown := Document.addEndpoints_but_paths (p.seed unified key.group)
    rw [Function.comp_apply, addCommon]
    split
    · exact hown _
    · exact (Document.addEndpoints_but_paths _ _).trans (hown _)

/-! ### The known documents -/

/-- Of the known documents nothing counts but what is found under a group. -/
theorem outputs_congr_known (groups : Keyed Group) {known known' : Keyed Document}
    (h : ∀ g, known.get? g = known'.get? g) (es : List Endpoint) :
    outputs ⟨groups, known⟩ unified es = outputs ⟨groups, known'⟩ unified es := by
  -- The known documents are read by `seed` alone, and what it gives goes up to the outputs.
  have hseed : seed ⟨groups, known⟩ = seed ⟨groups, known'⟩ := by
    funext u group
    rw [seed, seed, (funext h : known.get? = known'.get?)]
  have hnew : newOutput ⟨groups, known⟩ = newOutput ⟨groups, known'⟩ := by
    funext u key
    rw [newOutput, newOutput, hseed]
  have hadd : addToOutput ⟨groups, known⟩ = addToOutput ⟨groups, known'⟩ := by
    funext u e outputs key
    rw [addToOutput, addToOutput, hnew]
  rw [outputs, outputs, hadd]
  rfl

end Partitioning

end ApiAssembly
