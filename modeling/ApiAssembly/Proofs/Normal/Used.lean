import ApiAssembly.Proofs.Normal.Search

/-!
# Proofs — Normal — the used schemas are the reachable ones

What a search reaches in a document is what `Uses` says: the least set that holds the used names is
made of the ways that lead to them (`mem_usedSchemas_iff`).  `dropUnused` keeps exactly the
component schemas that are used (`dropUnused_eq`), and they are used in what it leaves, so that
dropping again drops nothing (`dropUnused_dropUnused`).  All of it together is `dropUnused_least`.
-/

namespace ApiAssembly

/-! ### The component schemas of a document -/

namespace Document

/-- The names of the component schemas, in order. -/
def schemaNames (d : Document) : List String := d.componentsOrEmpty.schemas.keys

/-- The names of the component schemas that are kept. -/
def usedSchemas (d : Document) : List String :=
  (Search.run d.componentsOrEmpty.schemas d.withoutSchemas.toJson.chars).reached

/-- A component schema is used: the rest of the document refers to it, or a used schema does. -/
inductive Uses (d : Document) : String → Prop where
  | outside {n : String} (hk : n ∈ d.schemaNames)
      (hr : refersTo d.withoutSchemas.toJson.chars n) : Uses d n
  | schema {m n : String} {s : Schema} (h : Uses d m)
      (hm : (m, s) ∈ d.componentsOrEmpty.schemas) (hk : n ∈ d.schemaNames)
      (hr : refersTo s.toJson.chars n) : Uses d n

/-- Only a component schema is used. -/
theorem Uses.mem_schemaNames {d : Document} {n : String} (h : d.Uses n) : n ∈ d.schemaNames := by
  cases h with
  | outside hk _ => exact hk
  | schema _ _ hk _ => exact hk

/-- The used names hold the used ones: what refers to a name makes it used. -/
theorem holdsUsed_uses (d : Document) :
    HoldsUsed d.componentsOrEmpty.schemas d.withoutSchemas.toJson.chars { n | d.Uses n } :=
  ⟨.outside, .schema⟩

/-- What is used is in every set that holds the used names. -/
theorem Uses.mem_of_holdsUsed {d : Document} {R : Set String}
    (hR : HoldsUsed d.componentsOrEmpty.schemas d.withoutSchemas.toJson.chars R) {n : String}
    (h : d.Uses n) : n ∈ R := by
  induction h with
  | outside hk hr => exact hR.outside hk hr
  | schema _ hm hk hr ih => exact hR.schema ih hm hk hr

/-- **The schemas that are kept are the used ones.** -/
theorem mem_usedSchemas_iff {d : Document} {n : String} : n ∈ d.usedSchemas ↔ d.Uses n := by
  obtain ⟨holds, least⟩ :=
    Search.isLeast_reached_run d.componentsOrEmpty.schemas d.withoutSchemas.toJson.chars
  exact ⟨fun h => least d.holdsUsed_uses h, fun h => h.mem_of_holdsUsed holds⟩

/-- `dropUnused` keeps exactly the component schemas that are used. -/
theorem dropUnused_eq (d : Document) :
    d.dropUnused = { d with components := d.components.map fun c =>
      { c with schemas := c.schemas.filter fun entry => d.usedSchemas.contains entry.1 } } := by
  obtain ⟨openapi, info, externalDocs, servers, security, tags, paths, components, extensions⟩ := d
  cases components with
  | none => rfl
  | some c =>
    rw [dropUnused]
    dsimp only
    split
    case isTrue h =>
      obtain ⟨schemas, _⟩ := c
      obtain rfl : schemas = [] := List.isEmpty_iff.mp h
      rfl
    case isFalse => rfl

theorem componentsOrEmpty_dropUnused (d : Document) :
    d.dropUnused.componentsOrEmpty.schemas =
      d.componentsOrEmpty.schemas.filter fun entry => d.usedSchemas.contains entry.1 := by
  rw [dropUnused_eq, componentsOrEmpty, componentsOrEmpty]
  cases d.components <;> rfl

/-- Apart from the schemas nothing is dropped. -/
theorem withoutSchemas_dropUnused (d : Document) :
    d.dropUnused.withoutSchemas = d.withoutSchemas := by
  rw [dropUnused_eq, withoutSchemas, withoutSchemas, Option.map_map]
  rfl

theorem mem_schemas_dropUnused {d : Document} {n : String} {s : Schema} :
    (n, s) ∈ d.dropUnused.componentsOrEmpty.schemas ↔
      (n, s) ∈ d.componentsOrEmpty.schemas ∧ d.Uses n := by
  rw [componentsOrEmpty_dropUnused, List.mem_filter, List.contains_iff_mem, mem_usedSchemas_iff]

theorem mem_schemaNames_iff {d : Document} {n : String} :
    n ∈ d.schemaNames ↔ ∃ s, (n, s) ∈ d.componentsOrEmpty.schemas := by
  simp [schemaNames, Keyed.keys]

theorem mem_schemaNames_dropUnused {d : Document} {n : String} :
    n ∈ d.dropUnused.schemaNames ↔ d.Uses n := by
  simp only [mem_schemaNames_iff, mem_schemas_dropUnused, exists_and_right]
  exact ⟨And.right, fun h => ⟨mem_schemaNames_iff.mp h.mem_schemaNames, h⟩⟩

/-- A schema that is kept is still used: the ways that lead to it are kept as a whole. -/
theorem uses_dropUnused {d : Document} {n : String} (h : d.Uses n) : d.dropUnused.Uses n := by
  induction h with
  | outside hk hr =>
    exact .outside (mem_schemaNames_dropUnused.mpr (.outside hk hr))
      (d.withoutSchemas_dropUnused ▸ hr)
  | schema h hm hk hr ih =>
    exact .schema ih (mem_schemas_dropUnused.mpr ⟨hm, h⟩)
      (mem_schemaNames_dropUnused.mpr (.schema h hm hk hr)) hr

/-- Where all schemas are used nothing is dropped. -/
theorem dropUnused_of_uses {d : Document} (h : ∀ n ∈ d.schemaNames, d.Uses n) :
    d.dropUnused = d := by
  have keep : ∀ c ∈ d.components,
      (c.schemas.filter fun entry => d.usedSchemas.contains entry.1) = c.schemas := by
    intro c hc
    refine List.filter_eq_self.mpr fun entry he => ?_
    rw [List.contains_iff_mem, mem_usedSchemas_iff]
    refine h _ (mem_schemaNames_iff.mpr ⟨entry.2, ?_⟩)
    rwa [componentsOrEmpty, Option.mem_def.mp hc]
  have hc : (d.components.map fun c =>
      { c with schemas := c.schemas.filter fun entry => d.usedSchemas.contains entry.1 }) =
      d.components := by
    cases hd : d.components with
    | none => rfl
    | some c => rw [Option.map_some, keep c hd]
  rw [dropUnused_eq, hc]

theorem dropUnused_dropUnused (d : Document) : d.dropUnused.dropUnused = d.dropUnused :=
  dropUnused_of_uses fun _ hn => uses_dropUnused (mem_schemaNames_dropUnused.mp hn)

/-- **The schemas that are dropped are those outside the least set that holds the used names.**  The
search is over, and what it has reached is that set; the kept schemas are those of the names in it,
as they were and in the order in which they were; the rest of the document is as it was; and
dropping again drops nothing. -/
theorem dropUnused_least (d : Document) :
    let search := Search.run d.componentsOrEmpty.schemas d.withoutSchemas.toJson.chars
    search.pending = [] ∧
      IsLeast (HoldsUsed d.componentsOrEmpty.schemas d.withoutSchemas.toJson.chars)
        { n | n ∈ search.reached } ∧
      d.dropUnused.componentsOrEmpty.schemas =
        d.componentsOrEmpty.schemas.filter (fun entry => entry.1 ∈ search.reached) ∧
      d.dropUnused.withoutSchemas = d.withoutSchemas ∧
      d.dropUnused.dropUnused = d.dropUnused := by
  refine ⟨Search.pending_run _ _, Search.isLeast_reached_run _ _, ?_, d.withoutSchemas_dropUnused,
    d.dropUnused_dropUnused⟩
  rw [componentsOrEmpty_dropUnused]
  exact List.filter_congr fun entry _ => List.contains_eq_mem _ _

end Document

end ApiAssembly
