import ApiAssembly.Merge.Document
import ApiAssembly.Proofs.Keyed.Distinct
import Mathlib.Data.List.Count

/-!
# Proofs — Merge — documents that are written over each other

Partial documents are merged into a base document one after the other.  `Document.IsOverlay` says
what this makes of all of them at once.  A map of the outcome has the keys of all documents in the
order in which they first came, and under each key what the last document has that has it
(`Keyed.IsOverlay`); lists are put together in the order of the documents; info and version are
those of the base.

A path that comes again replaces what was there, and is reported.  So of all paths, document by
document, the first occurrences are the paths of the outcome, and the others are what is reported,
in their order (`repeats`): for each path one report less than there are documents that declare it
(`Document.isOverlay_mergeAll`).
-/

namespace ApiAssembly

/-! ### What comes again -/

/-- The texts of a list that were there before, in their order: those in front of the list count
too, and so each text of a list with nothing in front is left out at its first place. -/
def repeats (before : List String) : List String → List String
  | []      => []
  | x :: xs => (if x ∈ before then [x] else []) ++ repeats (before ++ [x]) xs

theorem repeats_append (before xs ys : List String) :
    repeats before (xs ++ ys) = repeats before xs ++ repeats (before ++ xs) ys := by
  induction xs generalizing before with
  | nil => simp [repeats]
  | cons x xs ih => simp [repeats, ih]

/-- Of texts that are apart those come again that were in front. -/
theorem repeats_of_nodup {before xs : List String} (h : xs.Nodup) :
    repeats before xs = xs.filter fun x => x ∈ before := by
  induction xs generalizing before with
  | nil => rfl
  | cons x xs ih =>
    obtain ⟨hx, hxs⟩ := List.nodup_cons.mp h
    have hrest : xs.filter (fun y => y ∈ before ++ [x]) = xs.filter fun y => y ∈ before :=
      List.filter_congr fun y hy => by
        have hne : y ≠ x := fun hyx => hx (hyx ▸ hy)
        simp [hne]
    rw [repeats, ih hxs, hrest, List.filter_cons]
    split <;> simp_all

/-- A text comes again one time less often than it comes, unless it was there before. -/
theorem count_repeats (before xs : List String) (x : String) :
    (repeats before xs).count x = xs.count x - if x ∈ before then 0 else 1 := by
  induction xs generalizing before with
  | nil => simp [repeats]
  | cons y xs ih =>
    rw [repeats, List.count_append, ih, List.count_cons]
    by_cases hy : y = x
    · subst hy
      by_cases hb : y ∈ before <;> simp [hb]; omega
    · have hy' : ¬ x = y := fun h => hy h.symm
      by_cases hb : y ∈ before <;> simp [hb, hy, hy']

/-! ### Maps that are written over each other -/

/-- Where each value takes the place of those before it, if it is there, the last one stays. -/
theorem foldl_or_eq_findSome? {α β : Type} (g : β → Option α) (y : β) (ys : List β) :
    ys.foldl (fun x y => (g y).or x) (g y) = (y :: ys).reverse.findSome? g := by
  induction ys using List.reverseRecOn with
  | nil => cases hy : g y <;> simp [hy]
  | append_singleton ys z ih =>
    rw [List.foldl_append, List.foldl_cons, List.foldl_nil, ih, ← List.cons_append,
      List.reverse_append, List.reverse_singleton, List.singleton_append, List.findSome?_cons]
    cases g z <;> rfl

namespace Keyed

variable {α : Type}

/-- A map has the keys of some maps, in the order in which they first come, and under each key the
value of the last of the maps that has it. -/
structure IsOverlay (maps : List (Keyed α)) (m : Keyed α) : Prop where
  keys : m.keys = (maps.flatMap Keyed.keys).eraseDups
  value : ∀ k, m.get? k = maps.reverse.findSome? fun layer => layer.get? k

theorem get?_foldl_extend {first : Keyed α} {rest : List (Keyed α)}
    (h : ∀ m ∈ rest, m.keys.Nodup) (k : String) :
    (rest.foldl extend first).get? k =
      rest.foldl (fun x layer => (layer.get? k).or x) (first.get? k) := by
  induction rest generalizing first with
  | nil => rfl
  | cons m rest ih =>
    obtain ⟨hm, hrest⟩ := List.forall_mem_cons.mp h
    rw [List.foldl_cons, ih hrest, get?_extend hm, List.foldl_cons]

theorem foldl_extend_eq_ofList {first : Keyed α} (h : first.keys.Nodup)
    (rest : List (Keyed α)) : rest.foldl extend first = ofList (first :: rest).flatten := by
  rw [List.flatten_cons, ofList, List.foldl_append, ← ofList, ofList_of_nodup h, List.foldl_flatten]
  rfl

/-- Maps that are written over each other, each of which holds a key once. -/
theorem isOverlay_foldl_extend {first : Keyed α} {rest : List (Keyed α)}
    (h : ∀ m ∈ first :: rest, m.keys.Nodup) :
    IsOverlay (first :: rest) (rest.foldl extend first) := by
  obtain ⟨hfirst, hrest⟩ := List.forall_mem_cons.mp h
  constructor
  · rw [foldl_extend_eq_ofList hfirst, keys_ofList, keys, List.map_flatten]
    rfl
  · intro k
    rw [get?_foldl_extend hrest]
    exact foldl_or_eq_findSome? (fun layer : Keyed α => layer.get? k) first rest

end Keyed

/-! ### Documents that are written over each other -/

namespace Document

/-- The component schemas of a partial document, each with a name: its own, or else its key. -/
def namedSchemas (d : Document) : Keyed Schema :=
  d.componentsOrEmpty.schemas.map fun entry => (entry.1, entry.2.named entry.1)

/-- A document is what a base document and the partial ones behind it make together. -/
structure IsOverlay (base : Document) (more : List Document) (d : Document) : Prop where
  openapi : d.openapi = base.openapi
  info : d.info = base.info
  externalDocs : d.externalDocs = (base :: more).reverse.findSome? Document.externalDocs
  servers : d.servers = (base :: more).flatMap Document.servers
  security : d.security = (base :: more).flatMap Document.security
  tags : d.tags = (base :: more).flatMap Document.tags
  paths : Keyed.IsOverlay ((base :: more).map Document.paths) d.paths
  schemas : Keyed.IsOverlay (base.componentsOrEmpty.schemas :: more.map namedSchemas)
    d.componentsOrEmpty.schemas
  securitySchemes : Keyed.IsOverlay
    ((base :: more).map fun e => e.componentsOrEmpty.securitySchemes)
    d.componentsOrEmpty.securitySchemes
  anyComponents : d.components.isSome = (base :: more).any fun e => e.components.isSome
  otherComponents : { d.componentsOrEmpty with schemas := [], securitySchemes := [] } =
    { base.componentsOrEmpty with schemas := [], securitySchemes := [] }
  extensions : Keyed.IsOverlay ((base :: more).map Document.extensions) d.extensions

/-- The maps of a document that are written over each other hold a key once. -/
structure KeysOnce (d : Document) : Prop where
  paths : d.paths.keys.Nodup
  schemas : d.componentsOrEmpty.schemas.keys.Nodup
  securitySchemes : d.componentsOrEmpty.securitySchemes.keys.Nodup
  extensions : d.extensions.keys.Nodup

instance (d : Document) : Decidable d.KeysOnce :=
  decidable_of_iff (d.paths.keys.Nodup ∧ d.componentsOrEmpty.schemas.keys.Nodup ∧
      d.componentsOrEmpty.securitySchemes.keys.Nodup ∧ d.extensions.keys.Nodup)
    ⟨fun h => ⟨h.1, h.2.1, h.2.2.1, h.2.2.2⟩, fun h => ⟨h.1, h.2, h.3, h.4⟩⟩

variable {base d : Document} {more : List Document}

theorem mergeAll_eq_foldl (d : Document) (more : List Document) :
    (d.mergeAll more).1 = more.foldl mergeFrom d := by
  induction more generalizing d with
  | nil => rfl
  | cons new more ih => exact ih (d.mergeFrom new)

/-- A part of documents that each merge puts together with that of the next one is put together
with those of all. -/
theorem foldl_mergeFrom_eq {α : Type} (part : Document → α) (join : α → Document → α)
    (h : ∀ d new : Document, part (d.mergeFrom new) = join (part d) new) (base : Document)
    (more : List Document) : part (more.foldl mergeFrom base) = more.foldl join (part base) :=
  (List.foldl_hom part fun d new => (h d new).symm).symm

/-- A part that a merge leaves alone stays what it is in the base. -/
theorem foldl_mergeFrom_eq_base {α : Type} (part : Document → α)
    (h : ∀ d new : Document, part (d.mergeFrom new) = part d) (base : Document)
    (more : List Document) : part (more.foldl mergeFrom base) = part base := by
  rw [foldl_mergeFrom_eq part (fun x _ => x) h, List.foldl_fixed]

/-- Parts that are lists come one behind the other. -/
theorem foldl_mergeFrom_eq_flatMap {α : Type} (part : Document → List α)
    (h : ∀ d new : Document, part (d.mergeFrom new) = part d ++ part new) (base : Document)
    (more : List Document) : part (more.foldl mergeFrom base) = (base :: more).flatMap part := by
  induction more generalizing base with
  | nil => exact (List.append_nil _).symm
  | cons new more ih =>
    rw [List.foldl_cons, ih, List.flatMap_cons, h, List.append_assoc]
    rfl

/-- Parts that are maps are written over each other. -/
theorem isOverlay_foldl_mergeFrom {α : Type} (part layer : Document → Keyed α)
    (h : ∀ d new : Document, part (d.mergeFrom new) = (part d).extend (layer new))
    (hbase : (part base).keys.Nodup) (hmore : ∀ e ∈ more, (layer e).keys.Nodup) :
    Keyed.IsOverlay (part base :: more.map layer) (part (more.foldl mergeFrom base)) := by
  have hfold : part (more.foldl mergeFrom base) =
      (more.map layer).foldl Keyed.extend (part base) := by
    rw [foldl_mergeFrom_eq part (fun m e => m.extend (layer e)) h, List.foldl_map]
  rw [hfold]
  refine Keyed.isOverlay_foldl_extend (List.forall_mem_cons.mpr ⟨hbase, ?_⟩)
  exact List.forall_mem_map.mpr hmore

theorem isSome_components_foldl_mergeFrom (base : Document) (more : List Document) :
    (more.foldl mergeFrom base).components.isSome =
      (base :: more).any fun e => e.components.isSome := by
  have hmerge (d new : Document) : (d.mergeFrom new).components.isSome =
      (d.components.isSome || new.components.isSome) := by
    rw [mergeFrom]
    cases new.components <;> simp
  induction more generalizing base with
  | nil => exact (Bool.or_false _).symm
  | cons new more ih =>
    rw [List.foldl_cons, ih, List.any_cons, hmerge, Bool.or_assoc]
    rfl

theorem isOverlay_mergeAll_fst (h : ∀ e ∈ base :: more, e.KeysOnce) :
    IsOverlay base more (base.mergeAll more).1 := by
  obtain ⟨hbase, hmore⟩ := List.forall_mem_cons.mp h
  rw [mergeAll_eq_foldl]
  constructor
  case openapi => exact foldl_mergeFrom_eq_base Document.openapi (fun _ _ => rfl) base more
  case info => exact foldl_mergeFrom_eq_base Document.info (fun _ _ => rfl) base more
  case externalDocs =>
    rw [foldl_mergeFrom_eq Document.externalDocs (fun x e => e.externalDocs.or x) fun _ _ => rfl]
    exact foldl_or_eq_findSome? Document.externalDocs base more
  case servers => exact foldl_mergeFrom_eq_flatMap Document.servers (fun _ _ => rfl) base more
  case security => exact foldl_mergeFrom_eq_flatMap Document.security (fun _ _ => rfl) base more
  case tags => exact foldl_mergeFrom_eq_flatMap Document.tags (fun _ _ => rfl) base more
  case paths =>
    exact isOverlay_foldl_mergeFrom Document.paths Document.paths (fun _ _ => rfl) hbase.paths
      fun e he => (hmore e he).paths
  case schemas =>
    refine isOverlay_foldl_mergeFrom (fun e => e.componentsOrEmpty.schemas) namedSchemas
      (fun d new => ?_) hbase.schemas fun e he => ?_
    · rw [componentsOrEmpty_mergeFrom]
      rfl
    · rw [namedSchemas, keys_map_named]
      exact (hmore e he).schemas
  case securitySchemes =>
    refine isOverlay_foldl_mergeFrom (fun e => e.componentsOrEmpty.securitySchemes)
      (fun e => e.componentsOrEmpty.securitySchemes) (fun d new => ?_) hbase.securitySchemes
      fun e he => (hmore e he).securitySchemes
    rw [componentsOrEmpty_mergeFrom]
    rfl
  case anyComponents => exact isSome_components_foldl_mergeFrom base more
  case otherComponents =>
    refine foldl_mergeFrom_eq_base
      (fun e => { e.componentsOrEmpty with schemas := [], securitySchemes := [] })
      (fun d new => ?_) base more
    rw [componentsOrEmpty_mergeFrom]
    rfl
  case extensions =>
    exact isOverlay_foldl_mergeFrom Document.extensions Document.extensions (fun _ _ => rfl)
      hbase.extensions fun e he => (hmore e he).extensions

/-! ### Paths that are replaced -/

theorem commonPaths_eq {before : List String} {new : Document}
    (hbefore : ∀ k, k ∈ d.paths.keys ↔ k ∈ before) (h : new.paths.keys.Nodup) :
    d.commonPaths new = repeats before new.paths.keys := by
  rw [repeats_of_nodup h, commonPaths]
  refine List.filter_congr fun k _ => ?_
  rw [Bool.eq_iff_iff, Keyed.has_eq_true_iff, hbefore k, decide_eq_true_eq]

/-- What is reported are the paths that come again. -/
theorem warnings_mergeAll {before : List String} (hbefore : ∀ k, k ∈ d.paths.keys ↔ k ∈ before)
    (h : ∀ e ∈ more, e.paths.keys.Nodup) :
    (d.mergeAll more).2 =
      (repeats before (more.flatMap fun e => e.paths.keys)).map .duplicatePath := by
  induction more generalizing d before with
  | nil => rfl
  | cons new more ih =>
    obtain ⟨hnew, hmore⟩ := List.forall_mem_cons.mp h
    have hafter (k : String) : k ∈ (d.mergeFrom new).paths.keys ↔ k ∈ before ++ new.paths.keys := by
      rw [mergeFrom, Keyed.mem_keys_extend, hbefore k, List.mem_append]
    show (d.commonPaths new).map Warning.duplicatePath ++ ((d.mergeFrom new).mergeAll more).2 = _
    rw [commonPaths_eq hbefore hnew, ih hafter hmore, List.flatMap_cons, repeats_append,
      List.map_append]

/-- A path comes once for each document that declares it. -/
theorem count_flatMap_keys (path : String) {ds : List Document}
    (h : ∀ e ∈ ds, e.paths.keys.Nodup) :
    (ds.flatMap fun e => e.paths.keys).count path = ds.countP fun e => e.paths.has path := by
  induction ds with
  | nil => rfl
  | cons d ds ih =>
    obtain ⟨hd, hds⟩ := List.forall_mem_cons.mp h
    rw [List.flatMap_cons, List.count_append, ih hds, hd.count, List.countP_cons, Nat.add_comm]
    simp only [Keyed.has_eq_true_iff]

/-- **What merging makes of documents.**  The documents are written over each other.  What is
reported are the paths that come again, document by document, and so a path is reported one time
less often than there are documents that declare it. -/
theorem isOverlay_mergeAll (h : ∀ e ∈ base :: more, e.KeysOnce) :
    IsOverlay base more (base.mergeAll more).1 ∧
      (base.mergeAll more).2 =
        (repeats [] ((base :: more).flatMap fun e => e.paths.keys)).map .duplicatePath ∧
      ∀ path, (base.mergeAll more).2.count (.duplicatePath path) =
        ((base :: more).countP fun e => e.paths.has path) - 1 := by
  have hpaths : ∀ e ∈ base :: more, e.paths.keys.Nodup := fun e he => (h e he).paths
  obtain ⟨hbase, hmore⟩ := List.forall_mem_cons.mp hpaths
  have hwarnings : (base.mergeAll more).2 =
      (repeats [] ((base :: more).flatMap fun e => e.paths.keys)).map .duplicatePath := by
    have hfirst : repeats [] base.paths.keys = [] := by
      rw [repeats_of_nodup hbase]
      simp
    rw [List.flatMap_cons, repeats_append, hfirst, List.nil_append, List.nil_append]
    exact warnings_mergeAll (fun _ => Iff.rfl) hmore
  refine ⟨isOverlay_mergeAll_fst h, hwarnings, fun path => ?_⟩
  have hinj : Function.Injective Warning.duplicatePath := fun _ _ => Warning.duplicatePath.inj
  rw [hwarnings, List.count_map_of_injective _ _ hinj, count_repeats,
    count_flatMap_keys path hpaths, if_neg List.not_mem_nil]

/-- A document with two paths and a schema. -/
def petsBase : Document where
  info := some { title := "Pets" }
  paths := [("/pets", { get := some {} }), ("/owners", {})]
  components := some { schemas := [("Pet", {})] }

/-- A partial document that has one of the paths too, and a schema without a name. -/
def petsSearch : Document where
  tags := [{ name := "search" }]
  paths := [("/search", {}), ("/pets", { post := some {} })]
  components := some { schemas := [("Hit", {}), ("Pet", { own := { title := some "Pet" } })] }

/-- A partial document that has both paths again. -/
def petsAdmin : Document where
  info := some { title := "Admin" }
  tags := [{ name := "admin" }]
  paths := [("/owners", {}), ("/pets", { delete := some {} })]

theorem isOverlay_mergeAll_pets :
    (∀ e ∈ [petsBase, petsSearch, petsAdmin], e.KeysOnce) ∧
      IsOverlay petsBase [petsSearch, petsAdmin] (petsBase.mergeAll [petsSearch, petsAdmin]).1 ∧
      (petsBase.mergeAll [petsSearch, petsAdmin]).2 =
        [.duplicatePath "/pets", .duplicatePath "/owners", .duplicatePath "/pets"] ∧
      (petsBase.mergeAll [petsSearch, petsAdmin]).2.count (.duplicatePath "/pets") = 2 ∧
      (petsBase.mergeAll [petsSearch, petsAdmin]).2.count (.duplicatePath "/search") = 0 := by
  have h : ∀ e ∈ [petsBase, petsSearch, petsAdmin], e.KeysOnce := by decide
  obtain ⟨hoverlay, hwarnings, hcount⟩ := isOverlay_mergeAll h
  exact ⟨h, hoverlay, hwarnings.trans (by decide), (hcount "/pets").trans (by decide),
    (hcount "/search").trans (by decide)⟩

end Document

end ApiAssembly
