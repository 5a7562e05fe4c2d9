import ApiAssembly.Proofs.Json.Drafts
import ApiAssembly.Proofs.Reading.Fields
import ApiAssembly.Schema.Coding

/-!
# Proofs — Reading — what was read is read again

`d.RoundTrips read write` says of a draft that the value that is read from it, once it is written,
is read again, and that what is written holds no key twice and is nested no deeper than the draft.
It is said draft by draft so that it can be shown along a tree: a list and a map have it when the
drafts right in them do (`roundTrips_listOf`, `roundTrips_mapOf`).

The scalars have it at every draft.  A text may come from a number or a flag; it is written as a
text, and read again from that.
-/

namespace ApiAssembly

namespace Draft

/-- The value is read again from what is written of it, which is a value that can come from a draft
of a depth. -/
structure Rereads {α : Type} (read : Draft → Reading α) (write : α → Json) (depth : Nat) (a : α) :
    Prop where
  again : read (write a).draft = .ok a
  readFrom : (write a).ReadFrom depth

theorem Rereads.mono {α : Type} {read : Draft → Reading α} {write : α → Json} {m n : Nat} {a : α}
    (h : Rereads read write m a) (hmn : m ≤ n) : Rereads read write n a :=
  ⟨h.again, h.readFrom.mono hmn⟩

/-- The value that is read from the draft is read again, from a value that is no deeper. -/
def RoundTrips {α : Type} (read : Draft → Reading α) (write : α → Json) (d : Draft) : Prop :=
  ∀ a, read d = .ok a → Rereads read write d.depth a

/-- The drafts right in a draft. -/
def children : Draft → List Draft
  | .list ds     => ds
  | .record fs _ => fs.map Prod.snd
  | _            => []

/-- The drafts right in a draft are smaller, so induction may go down to them. -/
theorem sizeOf_lt_of_mem_children {d x : Draft} (h : x ∈ d.children) : sizeOf x < sizeOf d := by
  cases d with
  | list ds =>
    have := List.sizeOf_lt_of_mem (show x ∈ ds from h)
    simp only [list.sizeOf_spec]
    omega
  | record fs e =>
    obtain ⟨⟨k, x⟩, hf, rfl⟩ := List.mem_map.mp h
    have := List.sizeOf_lt_of_mem hf
    simp only [record.sizeOf_spec, Prod.mk.sizeOf_spec] at this ⊢
    omega
  | _ => exact absurd h List.not_mem_nil

/-- What is right in a draft that has a depth is less deep. -/
theorem depth_le_of_mem_children {d x : Draft} {n : Nat} (hn : d.depth ≤ n + 1)
    (h : x ∈ d.children) : x.depth ≤ n := by
  cases d with
  | list ds => exact depthOfItems_le_iff.mp (Nat.le_of_succ_le_succ hn) x h
  | record fs e =>
    obtain ⟨f, hf, rfl⟩ := List.mem_map.mp h
    exact depthOfFields_le_iff.mp (Nat.le_of_succ_le_succ hn) f hf
  | _ => exact absurd h List.not_mem_nil

variable {α : Type} {read : Draft → Reading α} {write : α → Json}

/-! ### Drafts that are not what is wanted -/

/-- A draft that is refused gives no value. -/
theorem refuse_ne_ok (d : Draft) (w : Wanted) (a : α) : d.refuse w ≠ .ok a := by
  rw [refuse]
  split <;> exact nofun

theorem refuseItems_ne_ok (d : Draft) (w : Wanted) (a : α) : d.refuseItems w ≠ .ok a := by
  unfold refuseItems
  split
  · exact nofun
  · exact refuse_ne_ok d w a

theorem refuseFields_ne_ok (d : Draft) (w : Wanted) (a : α) : d.refuseFields w ≠ .ok a := by
  unfold refuseFields
  split
  · exact nofun
  · exact refuse_ne_ok d w a

/-- Items come from a list. -/
theorem items_eq_ok {d : Draft} {w : Wanted} {ds : List Draft} (h : d.items w = .ok ds) :
    d = .list ds := by
  unfold items at h
  split at h
  · exact congrArg list (Except.ok.inj h)
  · exact absurd h (refuseItems_ne_ok _ w ds)

/-- Fields come from a record. -/
theorem fields_eq_ok {d : Draft} {w : Wanted} {fs : List (String × Draft)} {e : Ending}
    (h : d.fields w = .ok (fs, e)) : d = .record fs e := by
  unfold fields at h
  split at h
  · obtain ⟨rfl, rfl⟩ := Prod.mk.inj (Except.ok.inj h)
    rfl
  · exact absurd h (refuseFields_ne_ok _ w (fs, e))

/-- What is not null is read as a value that is there. -/
theorem optional_of_ne_null {d : Draft} (h : d ≠ .null) : d.optional read = (read d).map some := by
  cases d with
  | null => exact absurd rfl h
  | _ => rfl

/-! ### Scalars -/

/-- A free value is what the draft says. -/
theorem free_eq_ok_iff {d : Draft} {j : Json} : d.free = .ok j ↔ d.json? = some j := by
  rw [free]
  cases d.json? <;> simp

/-- A free value is written as it is. -/
theorem roundTrips_free (d : Draft) : d.RoundTrips free id := fun _ h =>
  have hback := Json.readFrom_of_json? (free_eq_ok_iff.mp h)
  ⟨free_eq_ok_iff.mpr hback.readsBack, hback⟩

theorem text_draft_str (s : String) : text (Json.str s).draft = .ok s := rfl

theorem roundTrips_text (d : Draft) : d.RoundTrips text .str := fun s _ =>
  ⟨text_draft_str s, Json.readFrom_str s _⟩

theorem roundTrips_boolean (d : Draft) : d.RoundTrips boolean .bool :=
  fun _ _ => ⟨rfl, rfl, Nat.zero_le _⟩

/-- A text that came from a number or a flag is written as a text. -/
theorem roundTrips_scalarText (d : Draft) : d.RoundTrips scalarText .str :=
  fun s _ => ⟨rfl, Json.readFrom_str s _⟩

/-! ### Lists -/

/-- The items of a list come from its drafts. -/
theorem exists_of_itemsFrom {i : Nat} {ds : List Draft} {l : List α}
    (h : itemsFrom read i ds = .ok l) : ∀ a ∈ l, ∃ d ∈ ds, read d = .ok a := by
  induction ds generalizing i l with
  | nil =>
    obtain rfl := Except.ok.inj h
    exact fun a ha => absurd ha List.not_mem_nil
  | cons d ds ih =>
    obtain ⟨x, hx, h⟩ := Reading.exists_of_bind_eq_ok h
    obtain ⟨xs, hxs, h⟩ := Reading.exists_of_bind_eq_ok h
    obtain rfl := Except.ok.inj h
    refine List.forall_mem_cons.mpr ⟨⟨d, List.mem_cons_self, Reading.of_under_eq_ok hx⟩, ?_⟩
    intro a ha
    obtain ⟨d', hd', hr⟩ := ih hxs a ha
    exact ⟨d', List.mem_cons_of_mem _ hd', hr⟩

/-- The items of a list are read again when each of them is. -/
theorem itemsFrom_draftItems {l : List α} (h : ∀ a ∈ l, read (write a).draft = .ok a) (i : Nat) :
    itemsFrom read i (Json.draftItems (l.map write)) = .ok l := by
  induction l generalizing i with
  | nil => rfl
  | cons a l ih =>
    obtain ⟨ha, hl⟩ := List.forall_mem_cons.mp h
    rw [List.map_cons, Json.draftItems, itemsFrom, ha, ih hl]
    rfl

/-- A list is read again when its items are. -/
theorem rereads_listOf {d : Draft} {n : Nat}
    (h : ∀ x ∈ d.children, ∀ a, read x = .ok a → Rereads read write n a) {l : List α}
    (hl : listOf read d = .ok l) :
    Rereads (listOf read) (fun l => .arr (l.map write)) (n + 1) l := by
  obtain ⟨ds, hds, hl⟩ := Reading.exists_of_bind_eq_ok hl
  obtain rfl := items_eq_ok hds
  have hall : ∀ a ∈ l, Rereads read write n a := by
    intro a ha
    obtain ⟨x, hx, hr⟩ := exists_of_itemsFrom hl a ha
    exact h x hx a hr
  refine ⟨itemsFrom_draftItems (fun a ha => (hall a ha).again) 0, Json.readFrom_arr fun x hx => ?_⟩
  obtain ⟨a, ha, rfl⟩ := List.mem_map.mp hx
  exact (hall a ha).readFrom

/-- A list is read again when its items are. -/
theorem roundTrips_listOf {d : Draft} (h : ∀ x ∈ d.children, x.RoundTrips read write) :
    d.RoundTrips (listOf read) fun l => .arr (l.map write) := by
  intro l hl
  obtain ⟨ds, hds, -⟩ := Reading.exists_of_bind_eq_ok hl
  obtain rfl := items_eq_ok hds
  exact rereads_listOf (fun x hx a ha =>
    (h x hx a ha).mono (depth_le_of_mem_children (Nat.le_refl _) hx)) hl

/-! ### Maps -/

/-- The values of a map come from its drafts. -/
theorem exists_of_entriesOf {fs : List (String × Draft)} {es : List (String × α)}
    (h : entriesOf read fs = .ok es) : ∀ e ∈ es, ∃ f ∈ fs, read f.2 = .ok e.2 := by
  induction fs generalizing es with
  | nil =>
    obtain rfl := Except.ok.inj h
    exact fun a ha => absurd ha List.not_mem_nil
  | cons f fs ih =>
    obtain ⟨k, d⟩ := f
    obtain ⟨x, hx, h⟩ := Reading.exists_of_bind_eq_ok h
    obtain ⟨xs, hxs, h⟩ := Reading.exists_of_bind_eq_ok h
    obtain rfl := Except.ok.inj h
    refine List.forall_mem_cons.mpr ⟨⟨(k, d), List.mem_cons_self, Reading.of_under_eq_ok hx⟩, ?_⟩
    intro e he
    obtain ⟨f, hf, hr⟩ := ih hxs e he
    exact ⟨f, List.mem_cons_of_mem _ hf, hr⟩

/-- The entries of a map have the keys that stand there. -/
theorem keys_of_entriesOf {fs : List (String × Draft)} {es : List (String × α)}
    (h : entriesOf read fs = .ok es) : Keyed.keys es = Keyed.keys fs := by
  induction fs generalizing es with
  | nil => obtain rfl := Except.ok.inj h; rfl
  | cons f fs ih =>
    obtain ⟨x, -, h⟩ := Reading.exists_of_bind_eq_ok h
    obtain ⟨xs, hxs, h⟩ := Reading.exists_of_bind_eq_ok h
    obtain rfl := Except.ok.inj h
    exact congrArg (f.1 :: ·) (ih hxs)

/-- The entries of a map are read again when each of its values is. -/
theorem entriesOf_draftFields {m : Keyed α} (h : ∀ e ∈ m, read (write e.2).draft = .ok e.2) :
    entriesOf read (Json.draftFields (m.mapValues write)) = .ok m := by
  induction m with
  | nil => rfl
  | cons e m ih =>
    obtain ⟨k, a⟩ := e
    obtain ⟨ha, hm⟩ := List.forall_mem_cons.mp h
    rw [Keyed.mapValues, List.map_cons, ← Keyed.mapValues, Json.draftFields, entriesOf, ha, ih hm]
    rfl

/-- A map comes from a closed record, the later entries of a key over the earlier ones. -/
theorem mapOf_eq_ok {d : Draft} {m : Keyed α} (h : mapOf read d = .ok m) :
    ∃ fs es, d = .record fs .closed ∧ entriesOf read fs = .ok es ∧ m = Keyed.ofList es := by
  obtain ⟨⟨fs, ending⟩, hfs, h⟩ := Reading.exists_of_bind_eq_ok h
  obtain rfl := fields_eq_ok hfs
  replace h : (entriesOf read fs >>= fun es =>
      if ending.stops then .error .malformed else .ok (Keyed.ofList es)) = .ok m := h
  obtain ⟨es, hes, h⟩ := Reading.exists_of_bind_eq_ok h
  cases ending with
  | closed => exact ⟨fs, es, rfl, hes, (Except.ok.inj h).symm⟩
  | _ => cases h

/-- Entries with keys that are apart make the map that they are. -/
theorem mapOf_draft {m : Keyed α} (hkeys : m.keys.Nodup)
    (h : ∀ e ∈ m, read (write e.2).draft = .ok e.2) :
    mapOf read (Json.obj (m.mapValues write)).draft = .ok m := by
  show (entriesOf read (Json.draftFields (m.mapValues write)) >>= _) = _
  rw [entriesOf_draftFields h]
  exact congrArg Except.ok (Keyed.ofList_of_nodup hkeys)

/-- A map is read again when its values are. -/
theorem roundTrips_mapOf {d : Draft} (h : ∀ x ∈ d.children, x.RoundTrips read write) :
    d.RoundTrips (mapOf read) fun m => .obj (m.mapValues write) := by
  intro m hm
  obtain ⟨fs, es, rfl, hes, rfl⟩ := mapOf_eq_ok hm
  -- The map holds the last value of a key that stands twice, and its entries are among `es`.
  have hall : ∀ e ∈ Keyed.ofList es, Rereads read write (depthOfFields fs) e.2 := by
    intro e he
    obtain ⟨f, hf, hr⟩ := exists_of_entriesOf hes e (Keyed.mem_of_mem_ofList he)
    have hf' : f.2 ∈ (record fs .closed).children := List.mem_map_of_mem hf
    exact (h f.2 hf' e.2 hr).mono (depth_le_of_mem_children (Nat.le_refl _) hf')
  have hkeys := Keyed.nodup_keys_ofList es
  refine ⟨mapOf_draft hkeys fun e he => (hall e he).again, Json.readFrom_obj ?_ fun f hf => ?_⟩
  · rwa [Keyed.keys_mapValues]
  · obtain ⟨e, he, rfl⟩ := List.mem_map.mp hf
    exact (hall e he).readFrom

/-! ### Objects -/

/-- An object is read from a closed record. -/
theorem object_eq_ok {kind : Kind} {table : List (Field α)} {required : List String}
    {other : String → Draft → α → Reading α} {empty : α} {d : Draft} {a : α}
    (h : object kind table required other empty d = .ok a) :
    ∃ fs q, d = .record fs .closed ∧
      Partial.readFields table other ⟨empty, []⟩ fs = .ok q ∧ q.object = a := by
  obtain ⟨⟨fs, ending⟩, hfs, hrest⟩ := Reading.exists_of_bind_eq_ok h
  obtain rfl := fields_eq_ok hfs
  obtain ⟨q, hq, hrest⟩ := Reading.exists_of_bind_eq_ok hrest
  cases ending with
  | closed =>
    refine ⟨fs, q, rfl, hq, ?_⟩
    rw [if_neg (by decide)] at hrest
    split at hrest
    · cases hrest
    · exact Except.ok.inj hrest
  | _ => cases hrest

end Draft

/-- A list of texts has one level. -/
theorem readFrom_textList (texts : List String) : (textList texts).ReadFrom 1 := by
  refine Json.readFrom_arr fun x hx => ?_
  obtain ⟨text, -, rfl⟩ := List.mem_map.mp hx
  exact Json.readFrom_str text 0

namespace SchemaType

theorem textsOf?_map_str (texts : List String) : textsOf? (texts.map .str) = some texts := by
  induction texts with
  | nil => rfl
  | cons text texts ih => rw [List.map_cons, textsOf?, ih, Option.map_some]

/-- A type is read again, a name or a list of names. -/
theorem ofDraft_toJson (t : SchemaType) : ofDraft t.toJson.draft = .ok t := by
  cases t with
  | single name => rfl
  | multiple names =>
    have hfree : (textList names).draft.free = .ok (textList names) :=
      Draft.free_eq_ok_iff.mpr (readFrom_textList names).readsBack
    rw [toJson, ofDraft, hfree]
    simp only [bind, Except.bind, textList, textsOf?_map_str]

/-- A type is read again, be it one or several. -/
theorem roundTrips (d : Draft) : d.RoundTrips ofDraft toJson := by
  intro t ht
  refine ⟨t.ofDraft_toJson, ?_⟩
  cases t with
  | single name => exact Json.readFrom_str name _
  | multiple names =>
    -- A list of names is read from a list.
    have hread : 1 ≤ d.depth := by
      obtain ⟨j, hj, ht⟩ := Reading.exists_of_bind_eq_ok ht
      have hdepth := (Json.readFrom_of_json? (Draft.free_eq_ok_iff.mp hj)).depth_le
      cases j with
      | arr js => exact Nat.le_trans (Nat.succ_le_succ (Nat.zero_le _)) hdepth
      | _ => cases ht
    exact (readFrom_textList names).mono hread

end SchemaType

end ApiAssembly
