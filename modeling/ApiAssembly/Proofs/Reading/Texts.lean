import ApiAssembly.Proofs.Json.Texts
import ApiAssembly.Proofs.Reading.Row

/-!
# Proofs — Reading — reading brings in no token

The texts that are written of what was read stand in the draft, as keys or strings, but for those
that a number or a flag gives and those of an object that reading starts from; and these have no
token.  It is said draft by draft (`Draft.KeepsTexts`) and goes from the parts to the whole: a list
and a map have it when the drafts right in them do, and an object when its cells do
(`Shape.Describes.keepsTexts`).
-/

namespace ApiAssembly

/-! ### Numerals -/

namespace Number

/-- A dollar sign is no digit. -/
theorem dollar_not_mem_digitChars (n : Nat) : '$' ∉ digitChars n := fun h =>
  absurd (Nat.isDigit_of_mem_toDigits (by decide) (by decide) h) (by decide)

theorem dollar_not_mem_intChars (i : Int) : '$' ∉ intChars i := by
  cases i with
  | ofNat n => exact dollar_not_mem_digitChars n
  | negSucc n => exact List.not_mem_cons_of_ne_of_not_mem (by decide) (dollar_not_mem_digitChars _)

/-- Setting a point and zeros beside digits brings in no dollar sign. -/
theorem dollar_not_mem_positionalChars {digits : List Char} (h : '$' ∉ digits) (e : Int) :
    '$' ∉ positionalChars digits e := by
  have htake : '$' ∉ digits.take (e.toNat + 1) := fun hm => h (List.mem_of_mem_take hm)
  have hdrop : '$' ∉ digits.drop (e.toNat + 1) := fun hm => h (List.mem_of_mem_drop hm)
  unfold positionalChars
  dsimp only
  split
  · simp [h]
  · split <;> simp [htake, hdrop]

theorem dollar_not_mem_exponentChars {digits : List Char} (h : '$' ∉ digits) (e : Int) :
    '$' ∉ exponentChars digits e := by
  have htake : '$' ∉ digits.take 1 := fun hm => h (List.mem_of_mem_take hm)
  have htail : '$' ∉ digits.tail := fun hm => h (List.mem_of_mem_tail hm)
  have hint := dollar_not_mem_intChars e
  unfold exponentChars
  split <;> split <;> simp [htake, htail, hint]

/-- A number is written without a dollar sign, so its text has no token. -/
theorem dollar_not_mem_chars (n : Number) : '$' ∉ n.chars := by
  cases n with
  | int i => exact dollar_not_mem_intChars i
  | float d =>
    have hmagnitude : '$' ∉ d.magnitudeChars := by
      have hdigits := dollar_not_mem_digitChars d.shortest.digits
      unfold Double.magnitudeChars
      dsimp only
      split
      · exact dollar_not_mem_positionalChars hdigits _
      · exact dollar_not_mem_exponentChars hdigits _
    show '$' ∉ d.chars
    unfold Double.chars
    split
    · exact List.not_mem_cons_of_ne_of_not_mem (by decide) hmagnitude
    · exact hmagnitude

end Number

/-! ### The texts of a draft -/

namespace Draft

mutual

/-- The texts of a draft, keys included. -/
def texts : Draft → List String
  | .str s       => [s]
  | .list ds     => textsOfItems ds
  | .record fs _ => textsOfFields fs
  | _            => []

/-- The texts of items. -/
def textsOfItems : List Draft → List String
  | []      => []
  | d :: ds => d.texts ++ textsOfItems ds

/-- The texts of fields. -/
def textsOfFields : List (String × Draft) → List String
  | []           => []
  | (k, d) :: fs => k :: d.texts ++ textsOfFields fs

end

/-- The texts of a list are those of its items. -/
theorem textsOfItems_eq (ds : List Draft) : textsOfItems ds = ds.flatMap texts := by
  induction ds with
  | nil => rfl
  | cons d ds ih => rw [textsOfItems, ih, List.flatMap_cons]

/-- The texts of a record are its keys and those of its values. -/
theorem textsOfFields_eq (fs : List (String × Draft)) :
    textsOfFields fs = fs.flatMap fun f => f.1 :: f.2.texts := by
  induction fs with
  | nil => rfl
  | cons f fs ih => rw [textsOfFields, ih, List.flatMap_cons]

/-- A value has the texts of its draft. -/
theorem texts_draft (j : Json) : j.draft.texts = j.texts := by
  have items : ∀ items : List Json, (∀ x ∈ items, x.draft.texts = x.texts) →
      textsOfItems (Json.draftItems items) = Json.textsOfItems items := by
    intro items h
    induction items with
    | nil => rfl
    | cons x items ih =>
      obtain ⟨hx, hitems⟩ := List.forall_mem_cons.mp h
      rw [Json.draftItems, textsOfItems, hx, ih hitems, Json.textsOfItems]
  have fields : ∀ fields : List (String × Json), (∀ f ∈ fields, f.2.draft.texts = f.2.texts) →
      textsOfFields (Json.draftFields fields) = Json.textsOfFields fields := by
    intro fields h
    induction fields with
    | nil => rfl
    | cons f fields ih =>
      obtain ⟨hf, hfields⟩ := List.forall_mem_cons.mp h
      rw [Json.draftFields, textsOfFields, hf, ih hfields, Json.textsOfFields]
  induction j using Json.induct with
  | arr js ih => exact items js ih
  | obj fs ih => exact fields fs ih
  | _ => rfl

/-- A text that stands in the draft, or has no token. -/
def Holds (d : Draft) (t : String) : Prop :=
  t ∈ d.texts ∨ Placeholder.opensToken t.toList = false

/-- What stands in a draft right below stands in the whole draft. -/
theorem holds_of_mem_children {d x : Draft} (hx : x ∈ d.children) {t : String} (h : x.Holds t) :
    d.Holds t := by
  refine h.imp_left fun ht => ?_
  cases d with
  | list ds =>
    show t ∈ textsOfItems ds
    rw [textsOfItems_eq]
    exact List.mem_flatMap_of_mem hx ht
  | record fs e =>
    obtain ⟨f, hf, rfl⟩ := List.mem_map.mp hx
    show t ∈ textsOfFields fs
    rw [textsOfFields_eq]
    exact List.mem_flatMap_of_mem hf (List.mem_cons_of_mem _ ht)
  | _ => exact absurd hx List.not_mem_nil

/-- The keys of a record stand in it. -/
theorem holds_of_mem_keys {fs : List (String × Draft)} {e : Ending} {k : String}
    (h : k ∈ Keyed.keys fs) : (record fs e).Holds k := by
  obtain ⟨f, hf, rfl⟩ := List.mem_map.mp h
  refine .inl ?_
  show f.1 ∈ textsOfFields fs
  rw [textsOfFields_eq]
  exact List.mem_flatMap_of_mem hf List.mem_cons_self

/-- Every text that is written of what was read from the draft stands in it, or has no token. -/
def KeepsTexts {α : Type} (read : Draft → Reading α) (write : α → Json) (d : Draft) : Prop :=
  ∀ a, read d = .ok a → ∀ t ∈ (write a).texts, d.Holds t

/-! ### Values of all kinds -/

/-- A text is read from a string and nothing else. -/
theorem text_eq_ok {d : Draft} {s : String} (h : d.text = .ok s) : d = .str s := by
  unfold text at h
  split at h
  · exact congrArg str (Except.ok.inj h)
  · exact absurd h (refuse_ne_ok _ _ s)

mutual

/-- A value that a draft makes has no text that the draft has not. -/
theorem texts_subset_of_json? : ∀ {d : Draft} {j : Json}, d.json? = some j → j.texts ⊆ d.texts
  | .null, _, h | .bool _, _, h | .num _, _, h | .str _, _, h => by
    obtain rfl := Option.some.inj h
    exact List.Subset.refl _
  | .list items, _, h => by
    obtain ⟨xs, hxs, rfl⟩ := Option.map_eq_some_iff.mp h
    exact textsOfItems_subset hxs
  | .record fields e, _, h => by
    rw [Draft.json?] at h
    split at h
    · cases h
    · obtain ⟨fs, hfs, rfl⟩ := Option.map_eq_some_iff.mp h
      rw [Json.texts_obj]
      intro t ht
      obtain ⟨f, hf, ht⟩ := List.mem_flatMap.mp ht
      refine textsOfFields_subset hfs ?_
      rw [Json.textsOfFields_eq]
      exact List.mem_flatMap_of_mem (Keyed.mem_of_mem_ofList hf) ht

theorem textsOfItems_subset : ∀ {items : List Draft} {xs : List Json},
    jsonItems? items = some xs → Json.textsOfItems xs ⊆ textsOfItems items
  | [], _, h => by
    obtain rfl := Option.some.inj h
    exact List.Subset.refl _
  | d :: ds, _, h => by
    rw [jsonItems?] at h
    split at h
    case h_1 x xs hx hxs =>
      obtain rfl := Option.some.inj h
      exact List.append_subset.mpr
        ⟨List.subset_append_of_subset_left _ (texts_subset_of_json? hx),
          List.subset_append_of_subset_right _ (textsOfItems_subset hxs)⟩
    case h_2 => cases h

theorem textsOfFields_subset : ∀ {fields : List (String × Draft)} {fs : List (String × Json)},
    jsonFields? fields = some fs → Json.textsOfFields fs ⊆ textsOfFields fields
  | [], _, h => by
    obtain rfl := Option.some.inj h
    exact List.Subset.refl _
  | (k, d) :: ds, _, h => by
    rw [jsonFields?] at h
    split at h
    case h_1 x xs hx hxs =>
      obtain rfl := Option.some.inj h
      exact List.append_subset.mpr
        ⟨List.subset_append_of_subset_left _ (List.cons_subset_cons k (texts_subset_of_json? hx)),
          List.subset_append_of_subset_right _ (textsOfFields_subset hxs)⟩
    case h_2 => cases h

end

namespace KeepsTexts

variable {α : Type} {read : Draft → Reading α} {write : α → Json} {d : Draft}

/-- A free value has the texts of its draft. -/
theorem free (d : Draft) : d.KeepsTexts free id :=
  fun _ hj _ ht => .inl (texts_subset_of_json? (free_eq_ok_iff.mp hj) ht)

theorem text (d : Draft) : d.KeepsTexts text .str := by
  intro s hs t ht
  obtain rfl := List.mem_singleton.mp ht
  obtain rfl := text_eq_ok hs
  exact .inl List.mem_cons_self

theorem boolean (d : Draft) : d.KeepsTexts boolean .bool :=
  fun _ _ _ ht => absurd ht List.not_mem_nil

/-- A text may come of a number or of a flag. -/
theorem scalarText (d : Draft) : d.KeepsTexts scalarText .str := by
  intro s hs t ht
  obtain rfl := List.mem_singleton.mp ht
  obtain ⟨j, hj, hs⟩ := Reading.exists_of_bind_eq_ok hs
  cases j with
  | str s' =>
    obtain rfl := Except.ok.inj hs
    exact free d _ hj _ List.mem_cons_self
  | num n =>
    obtain rfl := Except.ok.inj hs
    refine .inr (Placeholder.opensToken_of_no_dollar ?_)
    rw [String.toList_ofList]
    exact n.dollar_not_mem_chars
  | bool b =>
    refine .inr ?_
    cases b <;> (obtain rfl := Except.ok.inj hs; decide)
  | _ => cases hs

/-- A list keeps the texts when its items do. -/
theorem listOf (h : ∀ x ∈ d.children, x.KeepsTexts read write) :
    d.KeepsTexts (listOf read) fun l => .arr (l.map write) := by
  intro l hl t ht
  obtain ⟨ds, hds, hl⟩ := Reading.exists_of_bind_eq_ok hl
  obtain rfl := items_eq_ok hds
  rw [Json.texts_arr] at ht
  obtain ⟨j, hj, ht⟩ := List.mem_flatMap.mp ht
  obtain ⟨a, ha, rfl⟩ := List.mem_map.mp hj
  obtain ⟨x, hx, hread⟩ := exists_of_itemsFrom hl a ha
  exact holds_of_mem_children hx (h x hx a hread t ht)

/-- A map keeps the texts when its values do; its keys are those of the draft. -/
theorem mapOf (h : ∀ x ∈ d.children, x.KeepsTexts read write) :
    d.KeepsTexts (mapOf read) fun m => .obj (m.mapValues write) := by
  intro m hm t ht
  obtain ⟨fs, es, rfl, hes, rfl⟩ := mapOf_eq_ok hm
  rw [Json.texts_obj] at ht
  obtain ⟨f, hf, ht⟩ := List.mem_flatMap.mp ht
  obtain ⟨e, he, rfl⟩ := List.mem_map.mp hf
  have he := Keyed.mem_of_mem_ofList he
  rcases List.mem_cons.mp ht with rfl | ht
  · exact holds_of_mem_keys (keys_of_entriesOf hes ▸ List.mem_map_of_mem he)
  · obtain ⟨f, hf, hread⟩ := exists_of_entriesOf hes e he
    have hx : f.2 ∈ (record fs .closed).children := List.mem_map_of_mem hf
    exact holds_of_mem_children hx (h f.2 hx e.2 hread t ht)

end KeepsTexts

end Draft

namespace SchemaType

/-- The names of types are read from strings. -/
theorem eq_map_of_textsOf? {js : List Json} {names : List String} (h : textsOf? js = some names) :
    js = names.map .str := by
  induction js generalizing names with
  | nil =>
    obtain rfl := Option.some.inj h
    rfl
  | cons j js ih =>
    cases j with
    | str s =>
      obtain ⟨rest, hrest, rfl⟩ := Option.map_eq_some_iff.mp h
      rw [ih hrest, List.map_cons]
    | _ => cases h

/-- A type is written as the value that it was read from. -/
theorem free_of_ofDraft {d : Draft} {type : SchemaType} (h : ofDraft d = .ok type) :
    d.free = .ok type.toJson := by
  obtain ⟨j, hj, h⟩ := Reading.exists_of_bind_eq_ok h
  cases j with
  | str name =>
    obtain rfl := Except.ok.inj h
    exact hj
  | arr js =>
    cases hnames : textsOf? js with
    | none =>
      simp only [hnames] at h
      cases h
    | some names =>
      simp only [hnames] at h
      obtain rfl := Except.ok.inj h
      rw [hj, eq_map_of_textsOf? hnames]
      rfl
  | _ => cases h

/-- The types of a schema are read from one string or from a list of them. -/
theorem keepsTexts (d : Draft) : d.KeepsTexts ofDraft toJson :=
  fun _ htype => Draft.KeepsTexts.free d _ (free_of_ofDraft htype)

end SchemaType

/-! ### Cells -/

/-- The key of an entry and the texts of its value stand in the draft, or have no token. -/
def Draft.HoldsEntry (d : Draft) (e : String × Json) : Prop :=
  d.Holds e.1 ∧ ∀ t ∈ e.2.texts, d.Holds t

namespace Cell

/-- What is written for a value that was read from the draft is written under the name of the cell,
and its texts stand in the draft, or have no token. -/
def KeepsTexts (c : Cell) (d : Draft) : Prop :=
  ∀ v, c.read d = .ok v → ∀ e ∈ c.entries v, e.1 = c.name ∧ ∀ t ∈ e.2.texts, d.Holds t

namespace KeepsTexts

variable {α : Type} {name : String} {read : Draft → Reading α} {write : α → Json} {d : Draft}

/-- A cell that is always written has its value from the draft, or the one it starts from. -/
theorem always {absent : α} {h : read (write absent).draft = .ok absent}
    {hback : (write absent).ReadsBack} (hd : d.KeepsTexts read write) :
    (Cell.always name read write absent h hback).KeepsTexts d := by
  intro v hv e he
  obtain rfl := List.mem_singleton.mp he
  exact ⟨rfl, hd v hv⟩

/-- A cell that may be absent is written only where it was read. -/
theorem optional (hd : d.KeepsTexts read write) :
    (Cell.optional name read write).KeepsTexts d := by
  intro v hv e he
  cases v with
  | none => exact absurd he List.not_mem_nil
  | some a =>
    obtain rfl := List.mem_singleton.mp he
    have hnull : d ≠ .null := by
      rintro rfl
      cases hv
    replace hv : d.optional read = .ok (some a) := hv
    rw [Draft.optional_of_ne_null hnull] at hv
    obtain ⟨b, hb, hsome⟩ := Reading.exists_of_map_eq_ok hv
    obtain rfl := Option.some.inj hsome
    exact ⟨rfl, hd b hb⟩

/-- A cell with a list keeps the texts when the items do. -/
theorem list (hd : ∀ x ∈ d.children, x.KeepsTexts read write) :
    (Cell.list name read write).KeepsTexts d := by
  intro l hl e he
  cases l with
  | nil => exact absurd he List.not_mem_nil
  | cons a l =>
    obtain rfl := List.mem_singleton.mp he
    exact ⟨rfl, Draft.KeepsTexts.listOf hd _ hl⟩

/-- A cell with a map keeps the texts when the values do. -/
theorem map (hd : ∀ x ∈ d.children, x.KeepsTexts read write) :
    (Cell.map name read write).KeepsTexts d := by
  intro m hm e he
  cases m with
  | nil => exact absurd he List.not_mem_nil
  | cons f m =>
    obtain rfl := List.mem_singleton.mp he
    exact ⟨rfl, Draft.KeepsTexts.mapOf hd _ hm⟩

theorem text (x : Draft) : (Cell.optional name Draft.text .str).KeepsTexts x := optional (.text x)

theorem scalarText (x : Draft) : (Cell.optional name Draft.scalarText .str).KeepsTexts x :=
  optional (.scalarText x)

theorem flag (x : Draft) : (Cell.optional name Draft.boolean .bool).KeepsTexts x :=
  optional (.boolean x)

end KeepsTexts

end Cell

/-! ### Objects -/

namespace Rest

/-- What is written for what is remembered of keys stands in the record, or has no token. -/
def KeepsTexts (R : Rest) : Prop :=
  ∀ (fs gs : List (String × Draft)) (x : R.Value), gs ⊆ fs →
    gs.foldlM (fun x e => R.keep e.1 e.2 x) R.absent = .ok x →
    ∀ e ∈ R.entries x, (Draft.record fs .closed).HoldsEntry e

/-- An extension is kept with the key and the value that stand in the record. -/
theorem holds_keepEntry {fs gs : List (String × Draft)} {m m' : Keyed Json} (hgs : gs ⊆ fs)
    (hm : ∀ e ∈ m, (Draft.record fs .closed).HoldsEntry e)
    (h : gs.foldlM (fun m e => keepEntry m e.1 e.2) m = .ok m') :
    ∀ e ∈ m', (Draft.record fs .closed).HoldsEntry e := by
  induction gs generalizing m with
  | nil =>
    obtain rfl := Except.ok.inj h
    exact hm
  | cons g gs ih =>
    obtain ⟨k, d⟩ := g
    obtain ⟨hg, hgs⟩ := List.cons_subset.mp hgs
    rw [List.foldlM_cons] at h
    obtain ⟨m₁, hm₁, h⟩ := Reading.exists_of_bind_eq_ok h
    obtain ⟨j, hj, rfl⟩ := keepEntry_eq_ok hm₁
    refine ih hgs (fun e he => ?_) h
    rcases Keyed.mem_insert he with rfl | he
    · have hchild : d ∈ (Draft.record fs .closed).children :=
        List.mem_map_of_mem (f := Prod.snd) hg
      have hfree := Draft.KeepsTexts.free d j (Draft.free_eq_ok_iff.mpr hj)
      exact ⟨Draft.holds_of_mem_keys (List.mem_map_of_mem (f := Prod.fst) hg),
        fun t ht => Draft.holds_of_mem_children hchild (hfree t ht)⟩
    · exact hm e he

/-- Extensions are kept one by one, and each of them stands in the record. -/
theorem keepsTexts_kept : kept.KeepsTexts := fun _ _ _ hgs h =>
  holds_keepEntry hgs (fun _ he => absurd he List.not_mem_nil) h

end Rest

/-- What is written for a row that is read from a record stands in the record, or has no token, when
that is so for the row of an object without keys. -/
theorem Row.holds_of_reads {R : Rest} (hrest : R.KeepsTexts) {names : List String}
    {fs : List (String × Draft)} {cs : List Cell} {r : Row R.Value cs} (hr : Reads R names fs cs r)
    (hc : ∀ x ∈ (Draft.record fs .closed).children, ∀ c ∈ cs, c.KeepsTexts x)
    (habsent : ∀ e ∈ entries R cs (absent R cs), (Draft.record fs .closed).HoldsEntry e) :
    ∀ e ∈ entries R cs r, (Draft.record fs .closed).HoldsEntry e := by
  induction cs with
  | nil => exact hrest fs _ r List.filter_sublist.subset hr
  | cons c cs ih =>
    obtain ⟨⟨hsome, hnone⟩, hrow⟩ := hr
    obtain ⟨hcell, habsent⟩ := List.forall_mem_append.mp habsent
    refine List.forall_mem_append.mpr ⟨fun e he => ?_,
      ih hrow (fun x hx c hc' => hc x hx c (List.mem_cons_of_mem _ hc')) habsent⟩
    cases hget : Keyed.get? fs c.name with
    | none =>
      rw [hnone hget] at he
      exact hcell e he
    | some d =>
      have hmem := Keyed.mem_of_get? hget
      have hchild : d ∈ (Draft.record fs .closed).children :=
        List.mem_map_of_mem (f := Prod.snd) hmem
      obtain ⟨hname, htexts⟩ := hc d hchild c List.mem_cons_self r.1 (hsome d hget) e he
      refine ⟨hname ▸ Draft.holds_of_mem_keys (List.mem_map_of_mem (f := Prod.fst) hmem), ?_⟩
      exact fun t ht => Draft.holds_of_mem_children hchild (htexts t ht)

/-- **Reading an object brings in no token** when reading its cells does not. -/
theorem Shape.Describes.keepsTexts {α : Type} {S : Shape α} {read : Draft → Reading α}
    {write : α → Json} (h : S.Describes read write) (hrest : S.rest.KeepsTexts)
    (hempty : ∀ e ∈ Row.entries S.rest S.cells (S.view.get S.empty),
      Placeholder.opensToken e.1.toList = false ∧
        ∀ t ∈ e.2.texts, Placeholder.opensToken t.toList = false) {d : Draft}
    (hd : ∀ x ∈ d.children, ∀ c ∈ S.cells, c.KeepsTexts x) : d.KeepsTexts read write := by
  intro a ha t ht
  obtain ⟨fs, rfl, hrow⟩ := h.reads_of_read ha
  rw [S.get_empty] at hempty
  rw [h.write_eq, Shape.write, Json.texts_obj] at ht
  obtain ⟨e, he, ht⟩ := List.mem_flatMap.mp ht
  have hholds := Row.holds_of_reads hrest hrow hd
    (fun e he => ⟨.inr (hempty e he).1, fun t ht => .inr ((hempty e he).2 t ht)⟩) e he
  rcases List.mem_cons.mp ht with rfl | ht
  · exact hholds.1
  · exact hholds.2 t ht

end ApiAssembly
