import ApiAssembly.Proofs.Reading.Shape

/-!
# Proofs — Reading — where a mismatch is, and what it comes of

A place names keys, and a record may hold a key twice, so a node of a draft is named by positions
here: `LeadsTo positions place d node` says that the positions lead from `d` to `node`, and that
`place` is what they are called.  `SameThrough positions d d'` says that the two drafts are the same
in the order of the text up to that node, with the node; what follows may be anything, also nothing.

Readers walk a draft in this order and stop at the first mismatch.  So it is found in the place that
it is said to be in, and again in every draft that is the same so far (`Draft.Pinned`); and what is
read without a fault is well written (`Draft.InOrder`).  It goes from the parts to the whole: lists
and maps have it when what is in them does, and an object when its cells do
(`Shape.Describes.inOrder`).
-/

namespace ApiAssembly

namespace Draft

/-! ### Nodes -/

/-- The positions lead to a node, whose place is the indexes and keys on the way. -/
inductive LeadsTo : List Nat → Place → Draft → Draft → Prop
  | here (d : Draft) : LeadsTo [] [] d d
  | item {positions : List Nat} {place : Place} {d node : Draft} (before after : List Draft)
      (h : LeadsTo positions place d node) :
      LeadsTo (before.length :: positions) (.index before.length :: place)
        (.list (before ++ d :: after)) node
  | field {positions : List Nat} {place : Place} {d node : Draft}
      (before after : List (String × Draft)) (k : String) (e : Ending)
      (h : LeadsTo positions place d node) :
      LeadsTo (before.length :: positions) (.key k :: place)
        (.record (before ++ (k, d) :: after) e) node

/-- Two drafts have the same keys and values in the order of the text, up to and including the node
at the positions. -/
inductive SameThrough : List Nat → Draft → Draft → Prop
  | here (d : Draft) : SameThrough [] d d
  | item {positions : List Nat} {d d' : Draft} (before after after' : List Draft)
      (h : SameThrough positions d d') :
      SameThrough (before.length :: positions) (.list (before ++ d :: after))
        (.list (before ++ d' :: after'))
  | field {positions : List Nat} {d d' : Draft} (before after after' : List (String × Draft))
      (k : String) (e e' : Ending) (h : SameThrough positions d d') :
      SameThrough (before.length :: positions) (.record (before ++ (k, d) :: after) e)
        (.record (before ++ (k, d') :: after') e')

variable {positions : List Nat} {place : Place} {cause : Mismatch} {d x : Draft}

/-- A place that begins with an index leads into that item. -/
theorem LeadsTo.exists_of_index {i : Nat} {ds : List Draft} {node : Draft}
    (h : LeadsTo positions (.index i :: place) (.list ds) node) :
    ∃ below, positions = i :: below ∧ ∃ x ∈ ds[i]?, LeadsTo below place x node := by
  cases h with
  | item before after h => exact ⟨_, rfl, _, by simp, h⟩

/-- A key that comes no more is that of the first field. -/
theorem LeadsTo.exists_of_first_key {k : String} {fs : List (String × Draft)} {e : Ending}
    {node : Draft} (hk : k ∉ Keyed.keys fs)
    (h : LeadsTo positions (.key k :: place) (.record ((k, x) :: fs) e) node) :
    ∃ below, positions = 0 :: below ∧ LeadsTo below place x node := by
  generalize hfs : (k, x) :: fs = fields at h
  cases h with
  | @field below _ y _ before after _ _ h =>
    cases before with
    | nil =>
      obtain ⟨hentry, -⟩ := List.cons.inj hfs
      obtain ⟨-, rfl⟩ := Prod.mk.inj hentry
      exact ⟨below, rfl, h⟩
    | cons f before =>
      refine absurd ?_ hk
      rw [(List.cons.inj hfs).2]
      exact List.mem_map_of_mem (List.mem_append_right before List.mem_cons_self)

/-- The empty place is that of the whole. -/
theorem LeadsTo.eq_nil {node : Draft} (h : LeadsTo positions [] d node) : positions = [] := by
  cases h
  rfl

/-- What is the same through a node in an item has the same items in front of that one. -/
theorem SameThrough.eq_of_item {before after : List Draft} {d' : Draft}
    (h : SameThrough (before.length :: positions) (.list (before ++ x :: after)) d') :
    ∃ x' after', d' = .list (before ++ x' :: after') ∧ SameThrough positions x x' := by
  generalize hn : before.length :: positions = ns at h
  generalize hd : Draft.list (before ++ x :: after) = d at h
  cases h with
  | here => cases hn
  | @item positions' y y' before' after'' after' hsame =>
    obtain ⟨hlength, rfl⟩ := List.cons.inj hn
    obtain ⟨rfl, hrest⟩ := List.append_inj (Draft.list.inj hd) hlength
    obtain ⟨rfl, -⟩ := List.cons.inj hrest
    exact ⟨y', after', rfl, hsame⟩
  | field => cases hd

/-- What is the same through a node in a field has the same fields in front of that one. -/
theorem SameThrough.eq_of_field {before after : List (String × Draft)} {k : String} {e : Ending}
    {d' : Draft}
    (h : SameThrough (before.length :: positions) (.record (before ++ (k, x) :: after) e) d') :
    ∃ x' after' e', d' = .record (before ++ (k, x') :: after') e' ∧ SameThrough positions x x' := by
  generalize hn : before.length :: positions = ns at h
  generalize hd : Draft.record (before ++ (k, x) :: after) e = d at h
  cases h with
  | here => cases hn
  | item => cases hd
  | @field positions' y y' before' after'' after' k' e' e'' hsame =>
    obtain ⟨hlength, rfl⟩ := List.cons.inj hn
    obtain ⟨rfl, hrest⟩ := List.append_inj (Draft.record.inj hd).1 hlength
    obtain ⟨hentry, -⟩ := List.cons.inj hrest
    obtain ⟨rfl, rfl⟩ := Prod.mk.inj hentry
    exact ⟨y', after', e'', rfl, hsame⟩

theorem SameThrough.ne_null {d' : Draft} (h : SameThrough positions d d') (hd : d ≠ .null) :
    d' ≠ .null := by
  cases h with
  | here => exact hd
  | item => exact nofun
  | field => exact nofun

/-! ### Pinned mismatches -/

/-- The place leads to a node of the draft, and every draft that is the same through this node has
the same mismatch in the same place. -/
def Pinned {α : Type} (read : Draft → Reading α) (d : Draft) (place : Place) (cause : Mismatch) :
    Prop :=
  ∃ positions node, LeadsTo positions place d node ∧
    ∀ d', SameThrough positions d d' → read d' = .error (.mismatch place cause)

/-- What is read from the draft is well written, and a mismatch in it is pinned. -/
structure InOrder {α : Type} (read : Draft → Reading α) (d : Draft) : Prop where
  wellWritten : ∀ a, read d = .ok a → d.wellWritten
  pinned : ∀ place cause, read d = .error (.mismatch place cause) → Pinned read d place cause

variable {α β : Type} {read : Draft → Reading α}

/-- A mismatch of the whole is pinned to the whole. -/
theorem pinned_root (h : read d = .error (.mismatch [] cause)) : Pinned read d [] cause := by
  refine ⟨[], d, .here d, fun d' hd' => ?_⟩
  cases hd'
  exact h

/-- Where mismatches are only found in the draft itself, they are pinned. -/
theorem inOrder_of_root (hok : ∀ a, read d = .ok a → d.wellWritten)
    (hroot : ∀ place cause, read d = .error (.mismatch place cause) → place = []) :
    InOrder read d where
  wellWritten := hok
  pinned place cause h := by
    obtain rfl := hroot place cause h
    exact pinned_root h

end Draft

namespace Reading

variable {α β : Type} {x : Reading α} {step : Step} {place : Place} {cause : Mismatch}

/-- A step is put in front of the place of a mismatch. -/
theorem under_eq_mismatch_iff : x.under step = .error (.mismatch place cause) ↔
    ∃ rest, place = step :: rest ∧ x = .error (.mismatch rest cause) := by
  cases x with
  | ok a => exact ⟨nofun, fun ⟨_, _, h⟩ => nomatch h⟩
  | error f =>
    cases f with
    | malformed => exact ⟨nofun, fun ⟨_, _, h⟩ => nomatch h⟩
    | mismatch rest c => simp [under, Fault.under, and_comm, eq_comm]

/-- Two readings in a row fail in the first, or in the second after the first one is done. -/
theorem of_bind_eq_error {f : α → Reading β} {fault : Fault} (h : x >>= f = .error fault) :
    x = .error fault ∨ ∃ a, x = .ok a ∧ f a = .error fault := by
  cases x with
  | ok a => exact .inr ⟨a, rfl, h⟩
  | error e => exact .inl (congrArg Except.error (Except.error.inj h))

theorem map_eq_error_iff {f : α → β} {fault : Fault} :
    x.map f = .error fault ↔ x = .error fault := by
  cases x with
  | ok a => exact ⟨nofun, nofun⟩
  | error e => simp [Except.map]

end Reading

namespace Draft

variable {α β : Type} {read : Draft → Reading α} {place : Place} {cause : Mismatch} {d x : Draft}

/-- A reader that fails wherever another one does has its pinned mismatches. -/
theorem Pinned.of_error {read' : Draft → Reading β} (h : Pinned read d place cause)
    (hread : ∀ d', read d' = .error (.mismatch place cause) →
      read' d' = .error (.mismatch place cause)) : Pinned read' d place cause := by
  obtain ⟨positions, node, hleads, hsame⟩ := h
  exact ⟨positions, node, hleads, fun d' hd' => hread d' (hsame d' hd')⟩

/-- It is enough to know the reader on drafts that are the same up to some node. -/
theorem InOrder.congr {read' : Draft → Reading α} (h : InOrder read d)
    (hread : ∀ positions d', SameThrough positions d d' → read' d' = read d') :
    InOrder read' d := by
  have hself : read' d = read d := hread [] d (.here d)
  refine ⟨fun a ha => h.wellWritten a (hself ▸ ha), fun place cause herror => ?_⟩
  obtain ⟨positions, node, hleads, hsame⟩ := h.pinned place cause (hself ▸ herror)
  exact ⟨positions, node, hleads, fun d' hd' => (hread positions d' hd').trans (hsame d' hd')⟩

/-- Something is made of what was read. -/
theorem InOrder.map (h : InOrder read d) (f : α → β) :
    InOrder (fun d => do .ok (f (← read d))) d where
  wellWritten b hb := by
    obtain ⟨a, ha, -⟩ := Reading.exists_of_bind_eq_ok hb
    exact h.wellWritten a ha
  pinned place cause herror := by
    rcases Reading.of_bind_eq_error herror with herror | ⟨a, -, herror⟩
    · exact (h.pinned place cause herror).of_error fun d' hd' => by rw [hd']; rfl
    · cases herror

/-! ### Scalars -/

/-- What is refused is refused as a whole. -/
theorem refuse_place {w : Wanted} (h : (d.refuse w : Reading α) = .error (.mismatch place cause)) :
    place = [] := by
  rw [refuse] at h
  split at h
  · cases h
    rfl
  · cases h

theorem refuseItems_place {w : Wanted}
    (h : (d.refuseItems w : Reading α) = .error (.mismatch place cause)) : place = [] := by
  unfold refuseItems at h
  split at h
  · cases h
  · exact refuse_place h

theorem refuseFields_place {w : Wanted}
    (h : (d.refuseFields w : Reading α) = .error (.mismatch place cause)) : place = [] := by
  unfold refuseFields at h
  split at h
  · cases h
  · exact refuse_place h

/-- A free value may be anything. -/
theorem free_ne_mismatch (d : Draft) (place : Place) (cause : Mismatch) :
    d.free ≠ .error (.mismatch place cause) := by
  rw [free]
  split <;> simp

theorem inOrder_free (d : Draft) : InOrder free d :=
  inOrder_of_root (fun _ h => wellWritten_of_json? (free_eq_ok_iff.mp h))
    fun place cause h => absurd h (d.free_ne_mismatch place cause)

/-- A text is right or wrong as a whole. -/
theorem inOrder_text (d : Draft) : InOrder text d := by
  refine inOrder_of_root (fun s h => ?_) fun place cause h => ?_
  · unfold text at h
    split at h
    · rfl
    · exact absurd h (refuse_ne_ok _ _ s)
  · unfold text at h
    split at h
    · cases h
    · exact refuse_place h

theorem inOrder_boolean (d : Draft) : InOrder boolean d := by
  refine inOrder_of_root (fun b h => ?_) fun place cause h => ?_
  · unfold boolean at h
    split at h
    · rfl
    · exact absurd h (refuse_ne_ok _ _ b)
  · unfold boolean at h
    split at h
    · cases h
    · exact refuse_place h

/-- A value that is judged when it has been read whole is found wrong in itself. -/
theorem inOrder_free_bind {judge : Json → Reading α}
    (h : ∀ j place cause, judge j = .error (.mismatch place cause) → place = []) (d : Draft) :
    InOrder (fun d => d.free >>= judge) d := by
  refine inOrder_of_root (fun a ha => ?_) fun place cause herror => ?_
  · obtain ⟨j, hj, -⟩ := Reading.exists_of_bind_eq_ok ha
    exact (inOrder_free d).wellWritten j hj
  · rcases Reading.of_bind_eq_error herror with herror | ⟨j, -, herror⟩
    · exact absurd herror (d.free_ne_mismatch place cause)
    · exact h j place cause herror

theorem inOrder_scalarText (d : Draft) : InOrder scalarText d := by
  refine inOrder_free_bind (fun j place cause h => ?_) d
  split at h <;> cases h
  all_goals rfl

/-- A null is nothing, and all else is read as the value. -/
theorem InOrder.optional (h : InOrder read d) : InOrder (Draft.optional read) d := by
  by_cases hd : d = .null
  · subst hd
    exact inOrder_of_root (fun _ _ => rfl) fun _ _ h => nomatch h
  · refine ⟨fun a ha => ?_, fun place cause herror => ?_⟩
    · rw [optional_of_ne_null hd] at ha
      obtain ⟨a, ha, -⟩ := Reading.exists_of_map_eq_ok ha
      exact h.wellWritten a ha
    · rw [optional_of_ne_null hd, Reading.map_eq_error_iff] at herror
      obtain ⟨positions, node, hleads, hsame⟩ := h.pinned place cause herror
      refine ⟨positions, node, hleads, fun d' hd' => ?_⟩
      rw [optional_of_ne_null (hd'.ne_null hd), Reading.map_eq_error_iff]
      exact hsame d' hd'

/-! ### Items and fields -/

/-- A mismatch among items is pinned in one of them: it is found whatever follows. -/
def PinnedItem (run : List Draft → Reading α) (i : Nat) (ds : List Draft) (place : Place)
    (cause : Mismatch) : Prop :=
  ∃ before x after positions node rest, ds = before ++ x :: after ∧
    place = .index (i + before.length) :: rest ∧ LeadsTo positions rest x node ∧
    ∀ x' after', SameThrough positions x x' →
      run (before ++ x' :: after') = .error (.mismatch place cause)

/-- A mismatch among fields is pinned in one of them: it is found whatever follows. -/
def PinnedField (run : List (String × Draft) → Reading α) (fs : List (String × Draft))
    (place : Place) (cause : Mismatch) : Prop :=
  ∃ before k x after positions node rest, fs = before ++ (k, x) :: after ∧
    place = .key k :: rest ∧ LeadsTo positions rest x node ∧
    ∀ x' after', SameThrough positions x x' →
      run (before ++ (k, x') :: after') = .error (.mismatch place cause)

variable {γ : Type} {run : List Draft → Reading β} {i : Nat} {ds : List Draft}

/-- A mismatch in the first item is in front of all other items. -/
theorem PinnedItem.head {rest : Place} (h : Pinned read x rest cause)
    (hrun : ∀ x' after', read x' = .error (.mismatch rest cause) →
      run (x' :: after') = .error (.mismatch (.index i :: rest) cause)) :
    PinnedItem run i (x :: ds) (.index i :: rest) cause := by
  obtain ⟨positions, node, hleads, hsame⟩ := h
  exact ⟨[], x, ds, positions, node, rest, rfl, rfl, hleads,
    fun x' after' hx' => hrun x' after' (hsame x' hx')⟩

/-- A mismatch behind an item that was read has this item in front of it. -/
theorem PinnedItem.cons {run' : List Draft → Reading γ} (h : PinnedItem run' (i + 1) ds place cause)
    (hrun : ∀ ds', run' ds' = .error (.mismatch place cause) →
      run (x :: ds') = .error (.mismatch place cause)) :
    PinnedItem run i (x :: ds) place cause := by
  obtain ⟨before, y, after, positions, node, rest, rfl, rfl, hleads, hsame⟩ := h
  have hindex : i + 1 + before.length = i + (x :: before).length := by
    rw [List.length_cons]
    omega
  rw [hindex] at hrun hsame ⊢
  exact ⟨x :: before, y, after, positions, node, rest, rfl, rfl, hleads,
    fun y' after' hy' => hrun _ (hsame y' after' hy')⟩

/-- A mismatch that is pinned among the items is pinned in the list. -/
theorem PinnedItem.pinned (h : PinnedItem run 0 ds place cause)
    (hread : ∀ ds', run ds' = .error (.mismatch place cause) →
      read (.list ds') = .error (.mismatch place cause)) :
    Pinned read (.list ds) place cause := by
  obtain ⟨before, x, after, positions, node, rest, rfl, rfl, hleads, hsame⟩ := h
  rw [Nat.zero_add] at hread hsame ⊢
  refine ⟨before.length :: positions, node, .item before after hleads, fun d' hd' => ?_⟩
  obtain ⟨x', after', rfl, hx'⟩ := hd'.eq_of_item
  exact hread _ (hsame x' after' hx')

variable {runFields : List (String × Draft) → Reading β} {fs : List (String × Draft)} {k : String}

/-- A mismatch in the first field is in front of all other fields. -/
theorem PinnedField.head {rest : Place} (h : Pinned read x rest cause)
    (hrun : ∀ x' after', read x' = .error (.mismatch rest cause) →
      runFields ((k, x') :: after') = .error (.mismatch (.key k :: rest) cause)) :
    PinnedField runFields ((k, x) :: fs) (.key k :: rest) cause := by
  obtain ⟨positions, node, hleads, hsame⟩ := h
  exact ⟨[], k, x, fs, positions, node, rest, rfl, rfl, hleads,
    fun x' after' hx' => hrun x' after' (hsame x' hx')⟩

/-- A mismatch behind a field that was read has this field in front of it. -/
theorem PinnedField.cons {run' : List (String × Draft) → Reading γ}
    (h : PinnedField run' fs place cause)
    (hrun : ∀ fs', run' fs' = .error (.mismatch place cause) →
      runFields ((k, x) :: fs') = .error (.mismatch place cause)) :
    PinnedField runFields ((k, x) :: fs) place cause := by
  obtain ⟨before, k', y, after, positions, node, rest, rfl, hplace, hleads, hsame⟩ := h
  exact ⟨(k, x) :: before, k', y, after, positions, node, rest, rfl, hplace, hleads,
    fun y' after' hy' => hrun _ (hsame y' after' hy')⟩

/-- A mismatch that is pinned among the fields is pinned in the record. -/
theorem PinnedField.pinned {e : Ending} (h : PinnedField runFields fs place cause)
    (hread : ∀ fs' e', runFields fs' = .error (.mismatch place cause) →
      read (.record fs' e') = .error (.mismatch place cause)) :
    Pinned read (.record fs e) place cause := by
  obtain ⟨before, k, x, after, positions, node, rest, rfl, rfl, hleads, hsame⟩ := h
  refine ⟨before.length :: positions, node, .field before after k e hleads, fun d' hd' => ?_⟩
  obtain ⟨x', after', e', rfl, hx'⟩ := hd'.eq_of_field
  exact hread _ e' (hsame x' after' hx')

/-! ### Lists and maps -/

/-- The first mismatch of a list is in one of its items, by induction on the items. -/
theorem pinnedItem_itemsFrom (h : ∀ x ∈ ds, InOrder read x)
    (herror : itemsFrom read i ds = .error (.mismatch place cause)) :
    PinnedItem (itemsFrom read i) i ds place cause := by
  induction ds generalizing i with
  | nil => cases herror
  | cons d ds ih =>
    obtain ⟨hd, hds⟩ := List.forall_mem_cons.mp h
    rcases Reading.of_bind_eq_error herror with herror | ⟨a, ha, herror⟩
    · obtain ⟨rest, rfl, hread⟩ := Reading.under_eq_mismatch_iff.mp herror
      refine .head (hd.pinned rest cause hread) fun x' after' hx' => ?_
      rw [itemsFrom, hx']
      rfl
    · rcases Reading.of_bind_eq_error herror with herror | ⟨l, -, herror⟩
      · refine (ih hds herror).cons fun ds' hds' => ?_
        rw [itemsFrom, ha, hds']
        rfl
      · cases herror

/-- Items that were all read are all well written. -/
theorem wellWritten_of_itemsFrom (h : ∀ x ∈ ds, InOrder read x) {l : List α}
    (hread : itemsFrom read i ds = .ok l) : ∀ x ∈ ds, x.wellWritten := by
  induction ds generalizing i l with
  | nil => exact List.forall_mem_nil _
  | cons d ds ih =>
    obtain ⟨hd, hds⟩ := List.forall_mem_cons.mp h
    obtain ⟨a, ha, hread⟩ := Reading.exists_of_bind_eq_ok hread
    obtain ⟨l', hl', -⟩ := Reading.exists_of_bind_eq_ok hread
    exact List.forall_mem_cons.mpr ⟨hd.wellWritten a (Reading.of_under_eq_ok ha), ih hds hl'⟩

/-- A list in the order of its items, whatever it is called when it is missed. -/
theorem inOrder_itemsOf (wanted : Wanted) (h : ∀ x ∈ d.children, InOrder read x) :
    InOrder (fun d => do itemsFrom read 0 (← d.items wanted)) d where
  wellWritten l hl := by
    obtain ⟨ds, hds, hl⟩ := Reading.exists_of_bind_eq_ok hl
    obtain rfl := items_eq_ok hds
    exact wellWrittenItems_iff.mpr (wellWritten_of_itemsFrom h hl)
  pinned place cause herror := by
    rcases Reading.of_bind_eq_error herror with hitems | ⟨ds, hds, hitems⟩
    · have hplace : place = [] := by
        unfold items at hitems
        split at hitems
        · cases hitems
        · exact refuseItems_place hitems
      subst hplace
      exact pinned_root herror
    · obtain rfl := items_eq_ok hds
      exact (pinnedItem_itemsFrom h hitems).pinned fun _ => id

/-- A list is read in order when its items are. -/
theorem inOrder_listOf (h : ∀ x ∈ d.children, InOrder read x) : InOrder (listOf read) d :=
  inOrder_itemsOf .sequence h

/-- The first mismatch of a map is in one of its values, by induction on the entries. -/
theorem pinnedField_entriesOf (h : ∀ f ∈ fs, InOrder read f.2)
    (herror : entriesOf read fs = .error (.mismatch place cause)) :
    PinnedField (entriesOf read) fs place cause := by
  induction fs with
  | nil => cases herror
  | cons f fs ih =>
    obtain ⟨k, d⟩ := f
    obtain ⟨hd, hfs⟩ := List.forall_mem_cons.mp h
    rcases Reading.of_bind_eq_error herror with herror | ⟨a, ha, herror⟩
    · obtain ⟨rest, rfl, hread⟩ := Reading.under_eq_mismatch_iff.mp herror
      refine .head (hd.pinned rest cause hread) fun x' after' hx' => ?_
      rw [entriesOf, hx']
      rfl
    · rcases Reading.of_bind_eq_error herror with herror | ⟨l, -, herror⟩
      · refine (ih hfs herror).cons fun fs' hfs' => ?_
        rw [entriesOf, ha, hfs']
        rfl
      · cases herror

theorem wellWritten_of_entriesOf (h : ∀ f ∈ fs, InOrder read f.2) {l : List (String × α)}
    (hread : entriesOf read fs = .ok l) : ∀ f ∈ fs, f.2.wellWritten := by
  induction fs generalizing l with
  | nil => exact List.forall_mem_nil _
  | cons f fs ih =>
    obtain ⟨hd, hfs⟩ := List.forall_mem_cons.mp h
    obtain ⟨a, ha, hread⟩ := Reading.exists_of_bind_eq_ok hread
    obtain ⟨l', hl', -⟩ := Reading.exists_of_bind_eq_ok hread
    exact List.forall_mem_cons.mpr ⟨hd.wellWritten a (Reading.of_under_eq_ok ha), ih hfs hl'⟩

theorem fields_place {w : Wanted} (h : d.fields w = .error (.mismatch place cause)) :
    place = [] := by
  unfold fields at h
  split at h
  · cases h
  · exact refuseFields_place h

/-- A map is read in order when its values are. -/
theorem inOrder_mapOf (h : ∀ x ∈ d.children, InOrder read x) : InOrder (mapOf read) d where
  wellWritten m hm := by
    obtain ⟨fs, es, rfl, hes, -⟩ := mapOf_eq_ok hm
    exact wellWritten_closed (wellWritten_of_entriesOf (List.forall_mem_map.mp h) hes)
  pinned place cause herror := by
    rcases Reading.of_bind_eq_error herror with hfields | ⟨⟨fs, e⟩, hfs, hentries⟩
    · obtain rfl := fields_place hfields
      exact pinned_root herror
    · obtain rfl := fields_eq_ok hfs
      rcases Reading.of_bind_eq_error hentries with hentries | ⟨es, -, hend⟩
      · refine (pinnedField_entriesOf (List.forall_mem_map.mp h) hentries).pinned
          fun fs' e' hfs' => ?_
        show (entriesOf read fs' >>= _) = _
        rw [hfs']
        rfl
      · replace hend : (if e.stops then .error .malformed else .ok (Keyed.ofList es) :
            Reading (Keyed α)) = .error (.mismatch place cause) := hend
        split at hend <;> cases hend

end Draft

/-! ### Objects -/

section Objects

variable {α : Type} {table : List (Field α)} {other : String → Draft → α → Reading α}
  {place : Place} {cause : Mismatch} {fs : List (String × Draft)} {p q : Partial α}

/-- Keys that are not modelled are only read where they are well written, and without a mismatch. -/
structure PassesOver (other : String → Draft → α → Reading α) : Prop where
  wellWritten : ∀ {k d a a'}, other k d a = .ok a' → d.wellWritten
  ne_mismatch : ∀ {k d a place cause}, other k d a ≠ .error (.mismatch place cause)

/-- A mismatch in a field is one of its value, unless the field has been there before. -/
theorem Partial.of_readField_eq_mismatch (hother : PassesOver other) {k : String} {d : Draft}
    (h : p.readField table other k d = .error (.mismatch place cause)) (hplace : place ≠ []) :
    ∃ f ∈ table, ∃ rest, place = .key k :: rest ∧
      f.read d p.object = .error (.mismatch rest cause) ∧
      ∀ d', f.read d' p.object = .error (.mismatch rest cause) →
        p.readField table other k d' = .error (.mismatch place cause) := by
  rw [readField] at h
  split at h
  case h_1 => exact absurd (Reading.map_eq_error_iff.mp h) hother.ne_mismatch
  case h_2 f hf =>
    split at h
    case isTrue =>
      cases h
      exact absurd rfl hplace
    case isFalse hseen =>
      obtain ⟨rest, rfl, hread⟩ := Reading.under_eq_mismatch_iff.mp (Reading.map_eq_error_iff.mp h)
      refine ⟨f, List.mem_of_find?_eq_some hf, rest, rfl, hread, fun d' hd' => ?_⟩
      rw [readField, hf]
      dsimp only
      rw [if_neg hseen, hd']
      rfl

/-- A mismatch below an object is in one of its fields. -/
theorem pinnedField_readFields (hother : PassesOver other)
    (h : ∀ e ∈ fs, ∀ f ∈ table, ∀ a, e.2.InOrder fun d => f.read d a)
    (herror : p.readFields table other fs = .error (.mismatch place cause)) (hplace : place ≠ []) :
    Draft.PinnedField (fun fs => p.readFields table other fs) fs place cause := by
  induction fs generalizing p with
  | nil => cases herror
  | cons e fs ih =>
    obtain ⟨k, d⟩ := e
    obtain ⟨hd, hfs⟩ := List.forall_mem_cons.mp h
    rcases Reading.of_bind_eq_error herror with herror | ⟨q, hq, herror⟩
    · obtain ⟨f, hf, rest, rfl, hread, hagain⟩ :=
        Partial.of_readField_eq_mismatch hother herror hplace
      refine .head ((hd f hf p.object).pinned rest cause hread) fun x' after' hx' => ?_
      rw [Partial.readFields, hagain x' hx']
      rfl
    · refine (ih hfs herror).cons fun fs' hfs' => ?_
      rw [Partial.readFields, hq]
      exact hfs'

/-- Fields that were all read, or passed over, are all well written. -/
theorem wellWritten_of_readFields (hother : PassesOver other)
    (h : ∀ e ∈ fs, ∀ f ∈ table, ∀ a, e.2.InOrder fun d => f.read d a)
    (hq : p.readFields table other fs = .ok q) : ∀ e ∈ fs, e.2.wellWritten := by
  induction fs generalizing p with
  | nil => exact List.forall_mem_nil _
  | cons e fs ih =>
    obtain ⟨k, d⟩ := e
    obtain ⟨hd, hfs⟩ := List.forall_mem_cons.mp h
    obtain ⟨p', hp', hq⟩ := Reading.exists_of_bind_eq_ok hq
    refine List.forall_mem_cons.mpr ⟨?_, ih hfs hq⟩
    rcases Partial.of_readField_eq_ok hp' with ⟨f, hf, -, -, hread, -⟩ | ⟨-, hread, -⟩
    · exact (hd f hf p.object).wellWritten _ hread
    · exact hother.wellWritten hread

/-- **An object is read in order** when the values of its fields are. -/
theorem Draft.inOrder_object {d : Draft} (hother : PassesOver other)
    (h : ∀ x ∈ d.children, ∀ f ∈ table, ∀ a, x.InOrder fun d => f.read d a) (kind : Kind)
    (required : List String) (empty : α) :
    d.InOrder (Draft.object kind table required other empty) where
  wellWritten a ha := by
    obtain ⟨fs, q, rfl, hq, -⟩ := object_eq_ok ha
    exact wellWritten_closed (wellWritten_of_readFields hother (List.forall_mem_map.mp h) hq)
  pinned place cause herror := by
    by_cases hplace : place = []
    · subst hplace
      exact pinned_root herror
    · -- Only a field leads further into the draft.
      rcases Reading.of_bind_eq_error herror with hfields | ⟨⟨fs, e⟩, hfs, hread⟩
      · exact absurd (fields_place hfields) hplace
      · obtain rfl := fields_eq_ok hfs
        rcases Reading.of_bind_eq_error hread with hread | ⟨q, -, hend⟩
        · refine (pinnedField_readFields hother (List.forall_mem_map.mp h) hread hplace).pinned
            fun fs' e' hfs' => ?_
          show (Partial.readFields table other ⟨empty, []⟩ fs' >>= _) = _
          rw [hfs']
          rfl
        · split at hend
          · cases hend
          · split at hend <;> cases hend
            exact absurd rfl hplace

end Objects

/-! ### Shapes -/

namespace Rest

theorem passesOver_kept : PassesOver kept.keep where
  wellWritten h :=
    have ⟨_, hj, _⟩ := keepEntry_eq_ok h
    Draft.wellWritten_of_json? hj
  ne_mismatch {k d m place cause} h := by
    rcases Reading.of_bind_eq_error h with h | ⟨j, -, h⟩
    · exact d.free_ne_mismatch place cause h
    · cases h

theorem passesOver_passed : PassesOver passed.keep where
  wellWritten {k d a a'} h := by
    by_contra hd
    replace h : (if d.wellWritten then .ok () else .error .malformed : Reading Unit) = .ok a' := h
    rw [if_neg hd] at h
    cases h
  ne_mismatch {k d a place cause} h := by
    replace h : (if d.wellWritten then .ok () else .error .malformed : Reading Unit) =
      .error (.mismatch place cause) := h
    split at h <;> cases h

end Rest

namespace Row

variable {α : Type} {R : Rest}

theorem passesOver_other (hrest : PassesOver R.keep) (cs : List Cell)
    (v : View α (Row R.Value cs)) : PassesOver (other R cs v) := by
  induction cs with
  | nil =>
    refine ⟨fun {k d a a'} h => ?_, fun {k d a place cause} h => ?_⟩
    · obtain ⟨x, hx, -⟩ := Reading.exists_of_bind_eq_ok h
      exact hrest.wellWritten hx
    · rcases Reading.of_bind_eq_error h with h | ⟨x, -, h⟩
      · exact hrest.ne_mismatch h
      · cases h
  | cons c cs ih => exact ih v.tail

/-- The fields of a row are read in order when its cells are. -/
theorem inOrder_fields {cs : List Cell} {v : View α (Row R.Value cs)} {x : Draft}
    (h : ∀ c ∈ cs, x.InOrder c.read) :
    ∀ f ∈ fields R cs v, ∀ a, x.InOrder fun d => f.read d a := by
  induction cs with
  | nil => exact List.forall_mem_nil _
  | cons c cs ih =>
    obtain ⟨hc, hcs⟩ := List.forall_mem_cons.mp h
    exact List.forall_mem_cons.mpr ⟨fun a => hc.map fun b => v.head.set b a, ih hcs⟩

end Row

/-- **An object of a shape is read in order** when its cells are. -/
theorem Shape.Describes.inOrder {α : Type} {S : Shape α} {read : Draft → Reading α}
    {write : α → Json} (h : S.Describes read write) (hrest : PassesOver S.rest.keep) {d : Draft}
    (hd : ∀ x ∈ d.children, ∀ c ∈ S.cells, x.InOrder c.read) : d.InOrder read := by
  rw [h.read_eq]
  exact Draft.inOrder_object (Row.passesOver_other hrest S.cells S.view)
    (fun x hx => Row.inOrder_fields (hd x hx)) S.kind S.required S.empty

end ApiAssembly
