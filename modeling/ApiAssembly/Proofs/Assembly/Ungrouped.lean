import ApiAssembly.Proofs.Assembly.Unresolved
import ApiAssembly.Proofs.Normal.References
import ApiAssembly.Proofs.Partition.Order
import ApiAssembly.Proofs.Placeholder.References

/-!
# Proofs — Assembly — the keys and the schemas of the ungrouped output

A document is put in order and cleared of unused schemas before its tokens are replaced.  So its
keys are in order as they were before that, and the schemas that are kept are those that were
referred to by then.  For the ungrouped output, whose document is the unified one
(`Partitioning.document_of_ungrouped`), this gives the keys of each map, the condition on which they
are in order, and the references that resolve (`Assembler.keys_and_schemas_of_ungrouped`).
-/

namespace ApiAssembly

/-! ### The keys of a document in normal form -/

namespace Components

theorem Ordered.pairwise_namesOf {c : Components} (h : c.Ordered) (kind : ComponentKind) :
    (c.namesOf kind).Pairwise (· ≤ ·) := by
  cases kind with
  | schemas => exact List.pairwise_map.mpr h.schemas
  | responses => exact List.pairwise_map.mpr h.responses
  | parameters => exact List.pairwise_map.mpr h.parameters
  | examples => exact List.pairwise_map.mpr h.examples
  | requestBodies => exact List.pairwise_map.mpr h.requestBodies
  | headers => exact List.pairwise_map.mpr h.headers
  | securitySchemes => exact List.pairwise_map.mpr h.securitySchemes
  | links => exact List.pairwise_map.mpr h.links
  | callbacks => exact List.pairwise_map.mpr h.callbacks

end Components

namespace Document

/-- The components of a normalized document: none, or those that there were, in order and with some
of their schemas. -/
theorem components_normalize_cases (d : Document) :
    d.normalize.components = none ∨ ∃ c p, d.components = some c ∧
      d.normalize.components =
        some { c.normalize with schemas := c.normalize.schemas.filter p } := by
  rw [components_normalize, components_dropUnused_normalizeParts]
  cases d.components with
  | none => exact .inl rfl
  | some c =>
    rw [Option.map_some, Option.filter_some]
    split
    · exact .inr ⟨c, _, rfl, rfl⟩
    · exact .inl rfl

theorem pairwise_keysOf_normalize (d : Document) (m : DocumentMap) :
    (d.normalize.keysOf m).Pairwise (· ≤ ·) := by
  cases m with
  | paths =>
    rw [keysOf, paths_normalize, Keyed.keys_mapValues]
    exact List.pairwise_map.mpr d.paths.sorted_sortKeys
  | components kind =>
    rcases d.components_normalize_cases with h | ⟨c, p, -, h⟩
    · simp only [keysOf, componentsOrEmpty, h]
      cases kind <;> exact .nil
    · simp only [keysOf, componentsOrEmpty, h]
      exact (c.ordered_normalize.filter_schemas p).pairwise_namesOf kind

/-- Naming the properties of schemas leaves the keys of all maps. -/
theorem keysOf_rename (translate : String → String) (d : Document) (m : DocumentMap) :
    (d.rename translate).keysOf m = d.keysOf m := by
  cases m with
  | paths => rfl
  | components kind =>
    rw [keysOf, keysOf, componentsOrEmpty, componentsOrEmpty, rename]
    cases d.components with
    | none => rfl
    | some c =>
      cases kind with
      | schemas => exact Keyed.keys_mapValues _ c.schemas
      | _ => rfl

end Document

namespace Context

variable (c : Context) (d : Document)

theorem components_place : (c.place d).components = d.components := by
  rw [place]
  split
  · rw [Document.underContextPath]
    split <;> rfl
  · rfl

theorem keysOf_arrange (m : DocumentMap) :
    (c.arrange d).keysOf m = (c.place d).normalize.keysOf m := by
  rw [arrange, rename]
  split
  · exact Document.keysOf_rename _ _ m
  · rfl

/-- What is done to a document before its tokens are replaced brings no extension to components. -/
theorem extensions_components_arrange :
    (c.arrange d).componentsOrEmpty.extensions ⊆ d.componentsOrEmpty.extensions := by
  have hrename : ∀ d : Document,
      (c.rename d).componentsOrEmpty.extensions = d.componentsOrEmpty.extensions := by
    intro d
    rw [rename]
    split
    · rw [Document.rename, Document.componentsOrEmpty, Document.componentsOrEmpty]
      cases d.components <;> rfl
    · rfl
  rw [arrange, hrename, Document.componentsOrEmpty, Document.componentsOrEmpty]
  rcases (c.place d).components_normalize_cases with h | ⟨parts, p, hparts, h⟩
  · rw [h]
    exact List.nil_subset _
  · rw [h, ← c.components_place d, hparts]
    exact List.Subset.refl _

theorem keepsMaps_arrange {e : Expander} {d : Document} (h : e.KeepsMaps d) :
    e.KeepsMaps (c.arrange d) where
  document := (c.arrange_eq d).2 ▸ h.document
  components x hx := h.components x (c.extensions_components_arrange d hx)

end Context

/-! ### The ungrouped output -/

/-- The document of the ungrouped output is the unified one: no endpoint is put there unless all
are. -/
theorem Partitioning.document_of_ungrouped {p : Partitioning} {unified : Document}
    {es : List Endpoint} {o : OutputDocument} (ho : o ∈ p.outputs unified es)
    (hkey : o.key = {}) : o.document = unified := by
  by_cases h : ∀ e ∈ es, p.Common e
  · rw [p.outputs_of_common _ h] at ho
    rw [List.mem_singleton.mp ho]
  · rw [p.outputs_of_not_common _ h] at ho
    obtain ⟨key, hmem, rfl⟩ := List.mem_map.mp ho
    obtain rfl : key = {} := hkey
    obtain ⟨e, -, hcommon, hplaced⟩ := p.mem_keys.mp hmem
    rw [placements] at hplaced
    split at hplaced
    case isTrue hgroups =>
      have hversion := congrArg OutputKey.version (List.mem_singleton.mp hplaced)
      exact absurd ⟨hgroups, hversion.symm⟩ hcommon
    case isFalse =>
      obtain ⟨g, -, hg⟩ := List.mem_map.mp hplaced
      cases hg

namespace Assembler

/-- **The keys and the schemas of the ungrouped output.**  No key that is not modelled expands to
that of a map.  Then each map of the document that is rendered has the expanded keys of the
normalized document, in the order that these had, each at its first place.  They increase exactly
when every key expands to what a key in front of it expands to, or to something greater than all
that stand in front of it.

Of the schemas that the resolved unified document has, the document keeps those whose names a used
schema's name expands to.  So what refers to a schema of the unified document before its tokens are
replaced resolves afterwards. -/
theorem keys_and_schemas_of_ungrouped {a : Assembler} {base : Document} {x : Prepared}
    (hx : .ok x ∈ a.prepared base) (hkey : x.output.key = {})
    (hkeep : a.context.expander.KeepsMaps (base.addEndpoints a.endpoints)) :
    let c := a.context
    let unified := base.addEndpoints a.endpoints
    let normal := (c.place unified).normalize
    let expand := c.expander.expand
    let d := x.output.document
    x.rendered.contents = c.format.render d ∧
    (∀ m : DocumentMap, (normal.keysOf m).Pairwise (· ≤ ·) ∧
      d.keysOf m = ((normal.keysOf m).map expand).eraseDups ∧
      ((d.keysOf m).Pairwise (· < ·) ↔ ∀ front k back, normal.keysOf m = front ++ k :: back →
        expand k ∈ front.map expand ∨ ∀ k' ∈ front, expand k' < expand k)) ∧
    (∀ n, n ∈ d.schemaNames ↔ ∃ m, (c.place unified).normalizeParts.Uses m ∧ expand m = n) ∧
    (∀ m ∈ unified.schemaNames, schemaReference m ∈ normal.texts →
      expand (schemaReference m) = schemaReference (expand m) ∧ expand m ∈ d.schemaNames) ∧
    (∀ r, c.expander.resolveDocument unified = .ok r → ∀ n,
      n ∈ r.schemaNames ↔ ∃ m ∈ unified.schemaNames, expand m = n) := by
  intro c unified normal expand d
  obtain ⟨o, ho, hprepare⟩ := exists_of_mem_prepared hx
  have hokey : o.key = {} := by
    rw [(Context.output_of_prepare_eq_ok hprepare).1] at hkey
    exact hkey
  obtain hunified : o.document = unified := Partitioning.document_of_ungrouped ho hokey
  obtain ⟨hresolved, hcontents, -⟩ := Context.resolved_of_prepare_eq_ok hprepare
  rw [hunified] at hresolved
  have hkeys : ∀ m, d.keysOf m = ((normal.keysOf m).map expand).eraseDups := fun m => by
    rw [← c.keysOf_arrange unified m]
    exact Expander.keysOf_resolveDocument hresolved (c.keepsMaps_arrange hkeep) m
  have hnames : ∀ n, n ∈ d.schemaNames ↔ ∃ m, (c.place unified).normalizeParts.Uses m ∧
      expand m = n := by
    intro n
    have hschemas : d.schemaNames = (normal.schemaNames.map expand).eraseDups :=
      hkeys (.components .schemas)
    simp only [hschemas, List.mem_eraseDups, List.mem_map, normal,
      Document.mem_schemaNames_normalize]
  refine ⟨hcontents, fun m => ⟨Document.pairwise_keysOf_normalize _ m, hkeys m, ?_⟩, hnames, ?_, ?_⟩
  · rw [hkeys m]
    exact pairwise_lt_eraseDups_map_iff
  · intro m hm hreference
    refine ⟨c.expand_schemaReference m, (hnames _).mpr ⟨m, ?_, rfl⟩⟩
    refine Document.uses_of_mem_texts_normalize ?_ hreference
    rwa [Document.schemaNames, Document.componentsOrEmpty, c.components_place unified]
  · intro r hr n
    have hschemas : r.schemaNames = (unified.schemaNames.map expand).eraseDups :=
      Expander.keysOf_resolveDocument hr hkeep (.components .schemas)
    rw [hschemas, List.mem_eraseDups, List.mem_map]

/-! ### Tokens in keys -/

/-- A caller's values for some tokens. -/
def keyInput : ContextInput where
  system := [("x", "z"), ("pet", "Pet"), ("top", "paths"), ("block", "components"),
    ("map", "schemas")]

/-- A run with these values. -/
def keyRun (d : Document) : Assembler :=
  [(.input (.visit {} d) : Call FileTree)].foldl call (started (keyInput.build {}))

/-- What can be decided of the output of such a run. -/
theorem exists_prepared_keyRun {d arranged : Document}
    (harranged : (keyRun d).context.arrange d = arranged) (P : Document → Prop) [DecidablePred P]
    (h : ((keyRun d).context.expander.resolveDocument arranged).toOption.any fun r => P r) :
    ∃ x, .ok x ∈ (keyRun d).prepared d ∧ x.output.key = {} ∧ P x.output.document := by
  obtain ⟨r, hr, hP⟩ := Reading.exists_of_any h
  have hprepare : ∃ x, (keyRun d).context.prepare 1 { key := {}, document := d } = .ok x ∧
      x.output.key = {} ∧ x.output.document = r := by
    rw [Context.prepare]
    dsimp only
    rw [harranged, hr]
    exact ⟨_, rfl, rfl, rfl⟩
  obtain ⟨x, hx, hkey, rfl⟩ := hprepare
  exact ⟨x, List.mem_singleton.mpr hx.symm, hkey, hP⟩

/-- A path with a token, and one without. -/
def keyPaths : Keyed PathItem := [("/${x}", {}), ("/a", {})]

theorem sorted_keyPaths : keyPaths.Sorted := List.pairwise_pair.mpr (by decide)

/-- The paths, and a schema of a name that is referred to by a token. -/
def keyDocument (schema : String) : Document where
  info := some { title := "Pets", version := "1.0" }
  paths := keyPaths
  components := some { schemas := [(schema, { own := { title := some "P" } })] }
  extensions := [("x-pet", .obj [("$ref", .str (schemaReference "${pet}"))])]

/-- The paths are in order before the tokens are replaced. -/
theorem arrange_keyDocument (schema : String) :
    (keyRun (keyDocument schema)).context.arrange (keyDocument schema) =
      Document.dropEmptyComponents (Document.dropUnused { keyDocument schema with
        components := (keyDocument schema).components.map Components.normalize }) := by
  have hparts : (keyDocument schema).normalizeParts = { keyDocument schema with
      components := (keyDocument schema).components.map Components.normalize } := by
    rw [Document.normalizeParts, show (keyDocument schema).paths = keyPaths from rfl,
      Keyed.sortKeys_of_sorted sorted_keyPaths]
    rfl
  rw [← hparts]
  rfl

/-- The schema has the token in its name. -/
def keptDocument : Document := keyDocument "${pet}"

/-- The path with the token is no more in front once the token is replaced, and the schema is
kept. -/
theorem keys_and_schemas_of_keptDocument :
    ∃ x, .ok x ∈ (keyRun keptDocument).prepared keptDocument ∧ x.output.key = {} ∧
      (keyRun keptDocument).context.expander.KeepsMaps
        (keptDocument.addEndpoints (keyRun keptDocument).endpoints) ∧
      x.output.document.keysOf .paths = ["/z", "/a"] ∧ "Pet" ∈ x.output.document.schemaNames := by
  have hkeep : (keyRun keptDocument).context.expander.KeepsMaps
      (keptDocument.addEndpoints (keyRun keptDocument).endpoints) :=
    ⟨by decide +kernel, fun x hx => absurd hx List.not_mem_nil⟩
  have harranged : (keyRun keptDocument).context.arrange keptDocument = _ :=
    arrange_keyDocument "${pet}"
  obtain ⟨x, hx, hkey, -⟩ := exists_prepared_keyRun harranged (fun _ => True) (by decide +kernel)
  obtain ⟨-, hmaps, -, hreferences, -⟩ := keys_and_schemas_of_ungrouped hx hkey hkeep
  have hplace : (keyRun keptDocument).context.place
      (keptDocument.addEndpoints (keyRun keptDocument).endpoints) = keptDocument := rfl
  have hpaths : keptDocument.normalize.keysOf .paths = ["/${x}", "/a"] := by
    rw [Document.keysOf, Document.paths_normalize, Keyed.keys_mapValues]
    exact congrArg Keyed.keys (Keyed.sortKeys_of_sorted sorted_keyPaths)
  have hreference : schemaReference "${pet}" ∈ keptDocument.normalize.texts := by
    refine List.mem_append_left _ (List.mem_append_right _ ?_)
    rw [Document.extensions_normalize]
    decide
  have hexpand : (keyRun keptDocument).context.expander.expand "${pet}" = "Pet" := by
    decide +kernel
  obtain ⟨-, hkeys, -⟩ := hmaps .paths
  obtain ⟨-, hpet⟩ := hreferences "${pet}" (by decide) (hplace ▸ hreference)
  rw [hplace, hpaths] at hkeys
  refine ⟨x, hx, hkey, hkeep, hkeys.trans (by decide +kernel), hexpand ▸ hpet⟩

/-- Two keys in the wrong order. -/
def turned (second first : String) : Json := .obj [(second, .obj []), (first, .obj [])]

/-- A document with some keys that are not modelled, of its own or in its components. -/
def extendedDocument (ofDocument ofComponents : Keyed Json) : Document where
  info := some { title := "Pets", version := "1.0" }
  paths := [("/a", {})]
  components := some { examples := [("pet", .str "P")], extensions := ofComponents }
  extensions := ofDocument

/-- A map of the ungrouped output of a run is not in order. -/
def Disordered (d : Document) (m : DocumentMap) : Prop :=
  ∃ x, .ok x ∈ (keyRun d).prepared d ∧ x.output.key = {} ∧
    ¬ (x.output.document.keysOf m).Pairwise (· < ·)

theorem disordered_of_any {d arranged : Document} {m : DocumentMap}
    (harranged : (keyRun d).context.arrange d = arranged)
    (h : ((keyRun d).context.expander.resolveDocument arranged).toOption.any fun r =>
      ¬ (r.keysOf m).Pairwise (· < ·)) : Disordered d m :=
  exists_prepared_keyRun harranged (fun r => ¬ (r.keysOf m).Pairwise (· < ·)) h

/-- The token stands for the name of the schema. -/
def lostDocument : Document := keyDocument "Pet"

/-- A run whose paths are not in order, three in which an extension has come to stand for a map, and
a reference to a schema that was dropped although the resolved unified document has it. -/
theorem disordered_and_dangling :
    Disordered lostDocument .paths ∧
    Disordered (extendedDocument [("${top}", turned "/b" "/a")] []) .paths ∧
    Disordered (extendedDocument [("${block}", .obj [("schemas", turned "b" "a")])] [])
      (.components .schemas) ∧
    Disordered (extendedDocument [] [("${map}", turned "b" "a")]) (.components .schemas) ∧
    ∃ x, .ok x ∈ (keyRun lostDocument).prepared lostDocument ∧ x.output.key = {} ∧
      schemaReference "Pet" ∈ x.output.document.toJson.references ∧
      "Pet" ∉ x.output.document.schemaNames ∧
      ∃ r, (keyRun lostDocument).context.expander.resolveDocument lostDocument = .ok r ∧
        "Pet" ∈ r.schemaNames := by
  refine ⟨disordered_of_any (arrange_keyDocument "Pet") (by decide +kernel),
    disordered_of_any rfl (by decide +kernel), disordered_of_any rfl (by decide +kernel),
    disordered_of_any rfl (by decide +kernel), ?_⟩
  obtain ⟨x, hx, hkey, hreference, hpet⟩ := exists_prepared_keyRun (arrange_keyDocument "Pet")
    (fun r => schemaReference "Pet" ∈ r.toJson.references ∧ "Pet" ∉ r.schemaNames)
    (by decide +kernel)
  exact ⟨x, hx, hkey, hreference, hpet,
    Reading.exists_of_any (P := fun r : Document => "Pet" ∈ r.schemaNames) (by decide +kernel)⟩

end Assembler

end ApiAssembly
