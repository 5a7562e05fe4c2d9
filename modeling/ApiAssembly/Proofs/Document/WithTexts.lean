import ApiAssembly.Proofs.Document.RoundTrip
import ApiAssembly.Proofs.Json.InPlace
import ApiAssembly.Proofs.Normal.Slots
import ApiAssembly.Proofs.Schema.Tree

/-!
# Proofs — Document — documents with their texts replaced

`withTexts f` of an object applies a function to each of its texts: to every string, to the keys of
its maps and to the keys of its extensions, at any depth.  The modelled keys are no texts, and
nothing is moved.

The function is one that leaves texts without a token alone (`KeepsPlain`), as the keys of the
modelled fields are.  Then it is the same whether the texts are replaced in an object or in what is
written of it (`withTexts_toJson` of each kind of object).
-/

namespace ApiAssembly

/-- Texts without a token stay as they are. -/
def KeepsPlain (f : String → String) : Prop :=
  ∀ text : String, Placeholder.opensToken text.toList = false → f text = text

/-! ### Entries with their texts replaced -/

/-- The second entries are the first ones with their texts replaced. -/
def Replaced (f : String → String) (fields fields' : List (String × Json)) : Prop :=
  Json.withTextsFields f fields = fields'

namespace Replaced

variable {α : Type} {f : String → String} {change : α → α} {write : α → Json} {key : String}
  {fields fields' more more' : List (String × Json)}

/-- Entries are replaced part by part. -/
theorem append (h : Replaced f fields fields') (h' : Replaced f more more') :
    Replaced f (fields ++ more) (fields' ++ more') := by
  rw [Replaced, Json.withTextsFields_eq] at *
  rw [Keyed.mapBoth, List.map_append]
  exact congrArg₂ _ h h'

theorem flatMap {l : List α} {entries entries' : α → List (String × Json)}
    (h : ∀ a ∈ l, Replaced f (entries a) (entries' a)) :
    Replaced f (l.flatMap entries) (l.flatMap entries') := by
  induction l with
  | nil => rfl
  | cons a l ih =>
    obtain ⟨ha, hl⟩ := List.forall_mem_cons.mp h
    exact append ha (ih hl)

/-- The entries of a free map are replaced as they are: their keys are texts too. -/
theorem entries (m : Keyed Json) : Replaced f m (m.mapBoth f (Json.withTexts f)) :=
  Json.withTextsFields_eq f m

/-- An object is replaced through its entries. -/
theorem obj (h : Replaced f fields fields') : (Json.obj fields).withTexts f = .obj fields' :=
  congrArg Json.obj h

/-- An array of written values is replaced value by value. -/
theorem withTexts_arr {l : List α} (h : ∀ a ∈ l, (write a).withTexts f = write (change a)) :
    (Json.arr (l.map write)).withTexts f = .arr ((l.map change).map write) := by
  rw [Json.withTexts, Json.withTextsItems_eq, List.map_map, List.map_map]
  exact congrArg Json.arr (List.map_congr_left h)

/-- A map of written values is replaced key by key and value by value. -/
theorem withTexts_obj {m : Keyed α} (h : ∀ e ∈ m, (write e.2).withTexts f = write (change e.2)) :
    (Json.obj (m.mapValues write)).withTexts f = .obj ((m.mapBoth f change).mapValues write) := by
  rw [Json.withTexts, Json.withTextsFields_eq, Keyed.mapBoth, Keyed.mapBoth, Keyed.mapValues,
    Keyed.mapValues, List.map_map, List.map_map]
  exact congrArg Json.obj (List.map_congr_left fun e he => congrArg (f e.1, ·) (h e he))

/-! The entry under a key, which is one without a token. -/

section Key

variable (hf : KeepsPlain f) (hkey : Placeholder.opensToken key.toList = false)
include hf hkey

/-- A modelled key has no token, so it stays where its value is replaced. -/
theorem cons {x y : Json} (h : x.withTexts f = y) (hrest : Replaced f fields fields') :
    Replaced f ((key, x) :: fields) ((key, y) :: fields') := by
  rw [Replaced, Json.withTextsFields, hf key hkey, h]
  exact congrArg _ hrest

/-- An entry that is written where there is a value is replaced through the value. -/
theorem optional {o : Option α} (h : ∀ a ∈ o, (write a).withTexts f = write (change a)) :
    Replaced f (optionalEntry key write o) (optionalEntry key write (o.map change)) := by
  cases o with
  | none => rfl
  | some a => exact cons hf hkey (h a rfl) rfl

theorem text (o : Option String) : Replaced f (textEntry key o) (textEntry key (o.map f)) :=
  optional hf hkey fun _ _ => rfl

/-- A flag is no text. -/
theorem flag (o : Option Bool) : Replaced f (flagEntry key o) (flagEntry key o) := by
  have h : Replaced f (flagEntry key o) (flagEntry key (o.map id)) :=
    optional hf hkey fun _ _ => rfl
  rwa [Option.map_id] at h

theorem items {l : List α} (h : ∀ a ∈ l, (write a).withTexts f = write (change a)) :
    Replaced f (listEntry key (l.map write)) (listEntry key ((l.map change).map write)) := by
  cases l with
  | nil => rfl
  | cons a l => exact cons hf hkey (withTexts_arr h) rfl

theorem texts (l : List String) :
    Replaced f (listEntry key (l.map .str)) (listEntry key ((l.map f).map .str)) :=
  items hf hkey fun _ _ => rfl

/-- An entry with a map is left out where the map is empty, and replacing keeps an empty map
empty. -/
theorem map {m : Keyed α} (h : ∀ e ∈ m, (write e.2).withTexts f = write (change e.2)) :
    Replaced f (mapEntry key (m.mapValues write))
      (mapEntry key ((m.mapBoth f change).mapValues write)) := by
  cases m with
  | nil => rfl
  | cons e m => exact cons hf hkey (withTexts_obj h) rfl

/-- Of an entry with free values the keys and the values are replaced. -/
theorem values (m : Keyed Json) :
    Replaced f (mapEntry key m) (mapEntry key (m.mapBoth f (Json.withTexts f))) := by
  cases m with
  | nil => rfl
  | cons e m => exact cons hf hkey (congrArg Json.obj (entries _)) rfl

end Key

end Replaced

/-! ### Schemas -/

section Objects

variable (f : String → String)

def SchemaType.withTexts : SchemaType → SchemaType
  | .single name    => .single (f name)
  | .multiple names => .multiple (names.map f)

/-- One type is written as a text, and several as an array of texts. -/
theorem SchemaType.withTexts_toJson (t : SchemaType) :
    t.toJson.withTexts f = (t.withTexts f).toJson := by
  cases t with
  | single name => rfl
  | multiple names => exact Replaced.withTexts_arr fun _ _ => rfl

/-- The name that a schema has as a component is not one of its texts. -/
def Keywords.withTexts (k : Keywords) : Keywords where
  name := k.name
  reference := k.reference.map f
  type := k.type.map (SchemaType.withTexts f)
  title := k.title.map f
  description := k.description.map f
  default := k.default.map (Json.withTexts f)
  required := k.required.map f
  extensions := k.extensions.mapBoth f (Json.withTexts f)

namespace Schema

mutual

def withTexts : Schema → Schema
  | ⟨own, properties, items, allOf⟩ =>
    ⟨own.withTexts f, propertiesWithTexts properties, itemsWithTexts items, entriesWithTexts allOf⟩

def propertiesWithTexts : List (String × Schema) → List (String × Schema)
  | []          => []
  | (k, s) :: r => (f k, s.withTexts) :: propertiesWithTexts r

def itemsWithTexts : Option Schema → Option Schema
  | none   => none
  | some s => some s.withTexts

def entriesWithTexts : List Schema → List Schema
  | []     => []
  | s :: r => s.withTexts :: entriesWithTexts r

end

/-- The names of properties are texts, and their schemas are replaced below them. -/
theorem propertiesWithTexts_eq (ps : Keyed Schema) :
    propertiesWithTexts f ps = ps.mapBoth f (withTexts f) := by
  induction ps with
  | nil => rfl
  | cons p r ih =>
    rw [propertiesWithTexts, ih]
    rfl

theorem entriesWithTexts_eq (es : List Schema) : entriesWithTexts f es = es.map (withTexts f) := by
  induction es with
  | nil => rfl
  | cons s r ih => rw [entriesWithTexts, ih, List.map_cons]

/-- The texts of a schema are replaced in the node and in all schemas right below it. -/
theorem withTexts_eq (s : Schema) :
    s.withTexts f = ⟨s.own.withTexts f, Keyed.mapBoth f (withTexts f) s.properties,
      s.items.map (withTexts f), s.allOf.map (withTexts f)⟩ := by
  obtain ⟨own, properties, items, allOf⟩ := s
  rw [withTexts, propertiesWithTexts_eq, entriesWithTexts_eq]
  cases items <;> rfl

end Schema

/-! ### The other objects -/

def SecurityRequirement.withTexts (r : SecurityRequirement) : SecurityRequirement :=
  r.mapBoth f (List.map f)

def Info.withTexts (i : Info) : Info where
  title := f i.title
  version := f i.version
  description := i.description.map f
  extensions := i.extensions.mapBoth f (Json.withTexts f)

def Tag.withTexts (t : Tag) : Tag where
  name := f t.name
  description := t.description.map f
  extensions := t.extensions.mapBoth f (Json.withTexts f)

def Server.withTexts (s : Server) : Server where
  url := f s.url
  description := s.description.map f
  extensions := s.extensions.mapBoth f (Json.withTexts f)

def Parameter.withTexts (p : Parameter) : Parameter where
  reference := p.reference.map f
  name := p.name.map f
  location := p.location.map f
  description := p.description.map f
  required := p.required
  schema := p.schema.map (Schema.withTexts f)
  extensions := p.extensions.mapBoth f (Json.withTexts f)

def MediaType.withTexts (m : MediaType) : MediaType where
  schema := m.schema.map (Schema.withTexts f)
  extensions := m.extensions.mapBoth f (Json.withTexts f)

def RequestBody.withTexts (b : RequestBody) : RequestBody where
  reference := b.reference.map f
  description := b.description.map f
  content := b.content.mapBoth f (MediaType.withTexts f)
  required := b.required
  extensions := b.extensions.mapBoth f (Json.withTexts f)

def Response.withTexts (r : Response) : Response where
  reference := r.reference.map f
  description := r.description.map f
  content := r.content.mapBoth f (MediaType.withTexts f)
  extensions := r.extensions.mapBoth f (Json.withTexts f)

def Operation.withTexts (o : Operation) : Operation where
  tags := o.tags.map f
  summary := o.summary.map f
  description := o.description.map f
  operationId := o.operationId.map f
  parameters := o.parameters.map (Parameter.withTexts f)
  requestBody := o.requestBody.map (RequestBody.withTexts f)
  responses := o.responses.mapBoth f (Response.withTexts f)
  deprecated := o.deprecated
  security := o.security.map (List.map (SecurityRequirement.withTexts f))
  extensions := o.extensions.mapBoth f (Json.withTexts f)

def PathItem.withTexts (p : PathItem) : PathItem :=
  { p.mapOperations (Operation.withTexts f) with
    parameters := p.parameters.map (Parameter.withTexts f)
    extensions := p.extensions.mapBoth f (Json.withTexts f) }

/-- Replacing leaves every operation under its method. -/
theorem PathItem.operation_withTexts (p : PathItem) (m : Method) :
    (p.withTexts f).operation m = (p.operation m).map (Operation.withTexts f) := by
  cases m <;> rfl

def Components.withTexts (c : Components) : Components where
  schemas := c.schemas.mapBoth f (Schema.withTexts f)
  responses := c.responses.mapBoth f (Response.withTexts f)
  parameters := c.parameters.mapBoth f (Parameter.withTexts f)
  examples := c.examples.mapBoth f (Json.withTexts f)
  requestBodies := c.requestBodies.mapBoth f (RequestBody.withTexts f)
  headers := c.headers.mapBoth f (Json.withTexts f)
  securitySchemes := c.securitySchemes.mapBoth f (Json.withTexts f)
  links := c.links.mapBoth f (Json.withTexts f)
  callbacks := c.callbacks.mapBoth f (Json.withTexts f)
  extensions := c.extensions.mapBoth f (Json.withTexts f)

def Document.withTexts (d : Document) : Document where
  openapi := d.openapi.map f
  info := d.info.map (Info.withTexts f)
  externalDocs := d.externalDocs.map (Json.withTexts f)
  servers := d.servers.map (Server.withTexts f)
  security := d.security.map (SecurityRequirement.withTexts f)
  tags := d.tags.map (Tag.withTexts f)
  paths := d.paths.mapBoth f (PathItem.withTexts f)
  components := d.components.map (Components.withTexts f)
  extensions := d.extensions.mapBoth f (Json.withTexts f)

end Objects

/-! ### Writing -/

section Writing

variable {f : String → String} (hf : KeepsPlain f)
include hf

/-- The keywords of a node that are written in front of its schemas are replaced one by one. -/
theorem Keywords.replaced_entriesBefore (k : Keywords) :
    Replaced f k.entriesBefore (k.withTexts f).entriesBefore := by
  simp only [entriesBefore, List.append_assoc]
  exact .append (.text hf rfl _) <| .append (.optional hf rfl fun t _ => t.withTexts_toJson f) <|
    .append (.text hf rfl _) <| .append (.text hf rfl _) <| .optional hf rfl fun _ _ => rfl

/-- Replacing the texts of a schema is replacing those of what is written of it, by induction on the
tree. -/
theorem Schema.withTexts_toJson (s : Schema) : s.toJson.withTexts f = (s.withTexts f).toJson := by
  induction s using induct with
  | node s hp hi ha =>
    simp only [withTexts_eq, toJson_eq, List.append_assoc]
    exact Replaced.obj <| .append (s.own.replaced_entriesBefore hf) <| .append (.map hf rfl hp) <|
      .append (.texts hf rfl _) <| .append (.items hf rfl ha) <| .append (.optional hf rfl hi) <|
      .entries _

omit hf in
/-- A requirement is a map of lists of texts, without a modelled key. -/
theorem SecurityRequirement.withTexts_toJson (r : SecurityRequirement) :
    r.toJson.withTexts f = (r.withTexts f).toJson :=
  Replaced.withTexts_obj fun _ _ => Replaced.withTexts_arr fun _ _ => rfl

theorem Info.withTexts_toJson (i : Info) : i.toJson.withTexts f = (i.withTexts f).toJson := by
  simp only [toJson, List.cons_append, List.nil_append]
  exact Replaced.obj <| .cons hf rfl rfl <| .cons hf rfl rfl <| .append (.text hf rfl _) <|
    .entries _

theorem Tag.withTexts_toJson (t : Tag) : t.toJson.withTexts f = (t.withTexts f).toJson := by
  simp only [toJson, List.cons_append]
  exact Replaced.obj <| .cons hf rfl rfl <| .append (.text hf rfl _) <| .entries _

theorem Server.withTexts_toJson (s : Server) : s.toJson.withTexts f = (s.withTexts f).toJson := by
  simp only [toJson, List.cons_append]
  exact Replaced.obj <| .cons hf rfl rfl <| .append (.text hf rfl _) <| .entries _

/-- A parameter is replaced through its texts and its schema. -/
theorem Parameter.withTexts_toJson (p : Parameter) :
    p.toJson.withTexts f = (p.withTexts f).toJson := by
  simp only [toJson, List.append_assoc]
  exact Replaced.obj <| .append (.text hf rfl _) <| .append (.text hf rfl _) <|
    .append (.text hf rfl _) <|
    .append (.text hf rfl _) <| .append (.flag hf rfl _) <|
    .append (.optional hf rfl fun s _ => s.withTexts_toJson hf) <| .entries _

/-- A media type is replaced through its schema. -/
theorem MediaType.withTexts_toJson (m : MediaType) :
    m.toJson.withTexts f = (m.withTexts f).toJson :=
  Replaced.obj <| .append (.optional hf rfl fun s _ => s.withTexts_toJson hf) <| .entries _

/-- A request body is replaced through its media types, whose names are texts. -/
theorem RequestBody.withTexts_toJson (b : RequestBody) :
    b.toJson.withTexts f = (b.withTexts f).toJson := by
  simp only [toJson, List.append_assoc]
  exact Replaced.obj <| .append (.text hf rfl _) <| .append (.text hf rfl _) <|
    .append (.map hf rfl fun e _ => e.2.withTexts_toJson hf) <| .append (.flag hf rfl _) <|
    .entries _

/-- A response is replaced through its media types, whose names are texts. -/
theorem Response.withTexts_toJson (r : Response) :
    r.toJson.withTexts f = (r.withTexts f).toJson := by
  simp only [toJson, List.append_assoc]
  exact Replaced.obj <| .append (.text hf rfl _) <| .append (.text hf rfl _) <|
    .append (.map hf rfl fun e _ => e.2.withTexts_toJson hf) <| .entries _

/-- An operation is replaced through all of its parts; statuses are texts. -/
theorem Operation.withTexts_toJson (o : Operation) :
    o.toJson.withTexts f = (o.withTexts f).toJson := by
  simp only [toJson, List.append_assoc]
  exact Replaced.obj <| .append (.texts hf rfl _) <| .append (.text hf rfl _) <|
    .append (.text hf rfl _) <|
    .append (.text hf rfl _) <| .append (.items hf rfl fun p _ => p.withTexts_toJson hf) <|
    .append (.optional hf rfl fun b _ => b.withTexts_toJson hf) <|
    .append (.map hf rfl fun e _ => e.2.withTexts_toJson hf) <| .append (.flag hf rfl _) <|
    .append (.optional hf rfl fun _ _ => Replaced.withTexts_arr fun r _ => r.withTexts_toJson) <|
    .entries _

/-- A path item is replaced through its operations, whose methods are modelled keys. -/
theorem PathItem.withTexts_toJson (p : PathItem) :
    p.toJson.withTexts f = (p.withTexts f).toJson := by
  have hkey : ∀ m : Method, Placeholder.opensToken m.key.toList = false := by
    intro m
    cases m <;> rfl
  simp only [toJson, operationEntries_eq, operation_withTexts, List.append_assoc]
  exact Replaced.obj <|
    .append (.flatMap fun m _ => .optional hf (hkey m) fun o _ => o.withTexts_toJson hf) <|
    .append (.items hf rfl fun q _ => q.withTexts_toJson hf) <| .entries _

/-- The names of components are texts, so each of the nine maps is replaced with its keys. -/
theorem Components.withTexts_toJson (c : Components) :
    c.toJson.withTexts f = (c.withTexts f).toJson := by
  simp only [toJson, List.append_assoc]
  exact Replaced.obj <| .append (.map hf rfl fun e _ => e.2.withTexts_toJson hf) <|
    .append (.map hf rfl fun e _ => e.2.withTexts_toJson hf) <|
    .append (.map hf rfl fun e _ => e.2.withTexts_toJson hf) <| .append (.values hf rfl _) <|
    .append (.map hf rfl fun e _ => e.2.withTexts_toJson hf) <| .append (.values hf rfl _) <|
    .append (.values hf rfl _) <| .append (.values hf rfl _) <| .append (.values hf rfl _) <|
    .entries _

/-- **Replacing the texts of a document and writing it is writing it and replacing the texts.** -/
theorem Document.withTexts_toJson (d : Document) :
    d.toJson.withTexts f = (d.withTexts f).toJson := by
  simp only [toJson, List.append_assoc, List.cons_append, List.nil_append]
  exact Replaced.obj <| .append (.text hf rfl _) <|
    .append (.optional hf rfl fun i _ => i.withTexts_toJson hf) <|
    .append (.optional hf rfl fun _ _ => rfl) <|
    .append (.items hf rfl fun s _ => s.withTexts_toJson hf) <|
    .append (.items hf rfl fun r _ => r.withTexts_toJson) <|
    .append (.items hf rfl fun t _ => t.withTexts_toJson hf) <|
    .cons hf rfl (Replaced.withTexts_obj fun e _ => e.2.withTexts_toJson hf) <|
    .append (.optional hf rfl fun c _ => c.withTexts_toJson hf) <| .entries _

end Writing

end ApiAssembly
