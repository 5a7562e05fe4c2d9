import ApiAssembly.Proofs.Reading.Cell

/-!
# Proofs — Reading — objects that are read as they are written

The value of an object is a `Row`: the values of its cells, in the order in which they are written,
and what it remembers of its other keys.  A `View` is the part of an object that a row is.  From
the cells follow the fields that an object is read from (`Row.fields`) and the entries that are
written of it (`Row.entries`).

A `Shape` says this of one kind of object.  **What was read in a shape is read again from what is
written of it** (`Shape.rereads_of_read`), when that holds of the values of its cells.
-/

namespace ApiAssembly

/-! ### Views -/

/-- A part of an object that can be replaced. -/
structure View (α β : Type) where
  get : α → β
  set : β → α → α
  get_set (b : β) (a : α) : get (set b a) = b := by intros; rfl
  set_get (a : α) : set (get a) a = a := by intros; rfl
  set_set (b b' : β) (a : α) : set b (set b' a) = set b a := by intros; rfl

namespace View

variable {α β γ : Type}

/-- The first of two parts. -/
def head (v : View α (β × γ)) : View α β where
  get a := (v.get a).1
  set b a := v.set (b, (v.get a).2) a
  get_set b a := by rw [v.get_set]
  set_get a := v.set_get a
  set_set b b' a := by rw [v.get_set, v.set_set]

/-- The second of two parts. -/
def tail (v : View α (β × γ)) : View α γ where
  get a := (v.get a).2
  set c a := v.set ((v.get a).1, c) a
  get_set c a := by rw [v.get_set]
  set_get a := v.set_get a
  set_set c c' a := by rw [v.get_set, v.set_set]

/-- Setting the first cell leaves the other ones alone. -/
theorem tail_get_head_set (v : View α (β × γ)) (b : β) (a : α) :
    v.tail.get (v.head.set b a) = v.tail.get a := by
  show (v.get (v.set (b, (v.get a).2) a)).2 = _
  rw [v.get_set]
  rfl

/-- Setting the other cells leaves the first one alone. -/
theorem head_get_tail_set (v : View α (β × γ)) (c : γ) (a : α) :
    v.head.get (v.tail.set c a) = v.head.get a := by
  show (v.get (v.set ((v.get a).1, c) a)).1 = _
  rw [v.get_set]
  rfl

theorem tail_set_head_set (v : View α (β × γ)) (b : β) (c : γ) (a : α) :
    v.tail.set c (v.head.set b a) = v.set (b, c) a := by
  show v.set ((v.get (v.set (b, (v.get a).2) a)).1, c) (v.set (b, (v.get a).2) a) = _
  rw [v.get_set, v.set_set]

end View

/-! ### Rows -/

/-- The values of the cells, and then a value of `ρ`. -/
def Row (ρ : Type) : List Cell → Type
  | []      => ρ
  | c :: cs => c.Value × Row ρ cs

namespace Row

variable {α : Type} (R : Rest)

/-- The row of an object that has no keys. -/
def absent : (cs : List Cell) → Row R.Value cs
  | []      => R.absent
  | c :: cs => (c.absent, absent cs)

/-- What is written for a row. -/
def entries : (cs : List Cell) → Row R.Value cs → List (String × Json)
  | [],      r => R.entries r
  | c :: cs, r => c.entries r.1 ++ entries cs r.2

/-- Every value of the row is restored, from values of at most a depth; the keys that are not
modelled are none of the given names. -/
def Restores (names : List String) (depth : Nat) : (cs : List Cell) → Row R.Value cs → Prop
  | [],      r => R.Sound names depth r
  | c :: cs, r => c.Restores depth r.1 ∧ Restores names depth cs r.2

/-- The fields that a row of an object is read from. -/
def fields : (cs : List Cell) → View α (Row R.Value cs) → List (Field α)
  | [],      _ => []
  | c :: cs, v =>
    ⟨c.name, fun d a => do .ok (v.head.set (← c.read d) a)⟩ :: fields cs (View.tail v)

/-- What is done with a key that is not modelled. -/
def other : (cs : List Cell) → View α (Row R.Value cs) → String → Draft → α → Reading α
  | [],      v, k, d, a => do .ok (v.set (← R.keep k d (v.get a)) a)
  | _ :: cs, v, k, d, a => other cs (View.tail v) k d a

variable {R} {names : List String} {depth : Nat}

/-- A row in which nothing is there is restored. -/
theorem restores_absent {cs : List Cell} (h : ∀ c ∈ cs, c.floor ≤ depth) :
    Restores R names depth cs (absent R cs) := by
  induction cs with
  | nil => exact R.sound_absent names depth
  | cons c cs ih =>
    obtain ⟨hc, hcs⟩ := List.forall_mem_cons.mp h
    refine ⟨?_, ih hcs⟩
    have habsent : c.Restores c.floor c.absent := c.restores_absent.imp_left fun h => ⟨h, rfl⟩
    exact habsent.mono hc

/-- What is restored within some depth is restored within a greater one. -/
theorem Restores.mono {cs : List Cell} {r : Row R.Value cs} {m n : Nat}
    (hr : Restores R names m cs r) (hmn : m ≤ n) : Restores R names n cs r := by
  induction cs with
  | nil => exact R.sound_mono hr hmn
  | cons c cs ih => exact ⟨hr.1.mono hmn, ih hr.2⟩

/-- What is written for a row that is restored can come from drafts that are no deeper. -/
theorem readFrom_of_restores {cs : List Cell} {r : Row R.Value cs}
    (hr : Restores R names depth cs r) : ∀ e ∈ entries R cs r, e.2.ReadFrom depth := by
  induction cs with
  | nil => exact fun e he => (R.of_mem hr e he).2
  | cons c cs ih =>
    obtain ⟨hcell, hrow⟩ := hr
    refine List.forall_mem_append.mpr ⟨fun e he => ?_, ih hrow⟩
    rcases hcell with ⟨hnone, -⟩ | ⟨j, hone, -, hfrom⟩
    · rw [hnone] at he
      exact absurd he List.not_mem_nil
    · rw [hone] at he
      obtain rfl := List.mem_singleton.mp he
      exact hfrom

/-- A key that is written is that of a cell, or is not modelled. -/
theorem mem_names_or_of_mem_entries {cs : List Cell} {r : Row R.Value cs}
    (hr : Restores R names depth cs r) :
    ∀ e ∈ entries R cs r, e.1 ∈ cs.map Cell.name ∨ e.1 ∉ names := by
  induction cs with
  | nil => exact fun e he => .inr (R.of_mem hr e he).1
  | cons c cs ih =>
    obtain ⟨hcell, hrow⟩ := hr
    refine List.forall_mem_append.mpr ⟨fun e he => ?_, fun e he =>
      (ih hrow e he).imp_left (List.mem_cons_of_mem _)⟩
    rcases hcell with ⟨hnone, -⟩ | ⟨j, hone, -⟩
    · rw [hnone] at he
      exact absurd he List.not_mem_nil
    · rw [hone] at he
      obtain rfl := List.mem_singleton.mp he
      exact .inl List.mem_cons_self

/-- No key is written twice. -/
theorem nodup_keys_entries {cs : List Cell} (hnames : (cs.map Cell.name).Nodup)
    (hsub : cs.map Cell.name ⊆ names) {r : Row R.Value cs} (hr : Restores R names depth cs r) :
    (Keyed.keys (entries R cs r)).Nodup := by
  induction cs with
  | nil => exact R.nodup_keys hr
  | cons c cs ih =>
    obtain ⟨hcell, hrow⟩ := hr
    obtain ⟨hnew, hnames⟩ := List.nodup_cons.mp hnames
    obtain ⟨hc, hsub⟩ := List.cons_subset.mp hsub
    have hrest := ih hnames hsub hrow
    show (Keyed.keys (c.entries r.1 ++ entries R cs r.2)).Nodup
    rcases hcell with ⟨hnone, -⟩ | ⟨j, hone, -⟩
    · rwa [hnone, List.nil_append]
    · rw [hone]
      refine List.nodup_cons.mpr ⟨fun hm => ?_, hrest⟩
      obtain ⟨e, he, hname : e.1 = c.name⟩ := List.mem_map.mp hm
      rcases mem_names_or_of_mem_entries hrow e he with h | h
      · exact hnew (hname ▸ h)
      · exact h (hname ▸ hc)

/-- The fields are called like the cells. -/
theorem map_name_fields (cs : List Cell) (v : View α (Row R.Value cs)) :
    (fields R cs v).map Field.name = cs.map Cell.name := by
  induction cs with
  | nil => rfl
  | cons c cs ih => exact congrArg (c.name :: ·) (ih v.tail)

/-! ### What reading an object keeps -/

/-- Reading a field replaces one value of the row by one that is restored. -/
theorem restores_field {cs : List Cell} {v : View α (Row R.Value cs)} {f : Field α}
    (hf : f ∈ fields R cs v) {d : Draft} (hd : ∀ c ∈ cs, c.SoundAt d) (hdepth : d.depth ≤ depth)
    {a a' : α} (h : f.read d a = .ok a') (ha : Restores R names depth cs (v.get a)) :
    ∃ r, a' = v.set r a ∧ Restores R names depth cs r := by
  induction cs with
  | nil => exact absurd hf List.not_mem_nil
  | cons c cs ih =>
    obtain ⟨hc, hcs⟩ := List.forall_mem_cons.mp hd
    rcases List.mem_cons.mp hf with rfl | hf
    · obtain ⟨x, hx, h⟩ := Reading.exists_of_bind_eq_ok h
      exact ⟨(x, (v.get a).2), (Except.ok.inj h).symm, (hc x hx).mono hdepth, ha.2⟩
    · obtain ⟨r, hr, hrow⟩ := ih hf hcs ha.2
      exact ⟨((v.get a).1, r), hr, ha.1, hrow⟩

/-- A key that is not modelled is added to what the row remembers. -/
theorem restores_other {cs : List Cell} {v : View α (Row R.Value cs)} {k : String}
    (hk : k ∉ names) {d : Draft} (hdepth : d.depth ≤ depth) {a a' : α}
    (h : other R cs v k d a = .ok a') (ha : Restores R names depth cs (v.get a)) :
    ∃ r, a' = v.set r a ∧ Restores R names depth cs r := by
  induction cs with
  | nil =>
    obtain ⟨x, hx, h⟩ := Reading.exists_of_bind_eq_ok h
    exact ⟨x, (Except.ok.inj h).symm, R.sound_keep ha hk hdepth hx⟩
  | cons c cs ih =>
    obtain ⟨r, hr, hrow⟩ := ih h ha.2
    exact ⟨((v.get a).1, r), hr, ha.1, hrow⟩

/-! ### Reading what was written -/

variable {T : List (Field α)} {O : String → Draft → α → Reading α}

/-- The keys that are not modelled are kept one after the other. -/
theorem readFields_rest {v : View α R.Value} (hO : O = other R [] v) {fs : List (String × Draft)}
    (hT : ∀ e ∈ fs, T.find? (fun f => f.name == e.1) = none) {p : Partial α} {x : R.Value}
    (h : fs.foldlM (fun x e => R.keep e.1 e.2 x) (v.get p.object) = .ok x) :
    p.readFields T O fs = .ok ⟨v.set x p.object, p.seen⟩ := by
  induction fs generalizing p with
  | nil =>
    obtain rfl := Except.ok.inj h
    rw [v.set_get]
    rfl
  | cons e fs ih =>
    obtain ⟨k, d⟩ := e
    obtain ⟨hk, hfs⟩ := List.forall_mem_cons.mp hT
    rw [List.foldlM_cons] at h
    obtain ⟨y, hy, h⟩ := Reading.exists_of_bind_eq_ok h
    have hstep : p.readField T O k d = .ok ⟨v.set y p.object, p.seen⟩ := by
      have hother : other R [] v k d p.object = .ok (v.set y p.object) := by
        show (do .ok (v.set (← R.keep k d (v.get p.object)) p.object) : Reading α) = _
        rw [hy]
        rfl
      rw [Partial.readField, hk, hO, hother]
      rfl
    show (p.readField T O k d >>= fun p => p.readFields T O fs) = _
    rw [hstep]
    show Partial.readFields T O ⟨v.set y p.object, p.seen⟩ fs = _
    rw [ih hfs (by rwa [v.get_set]), v.set_set]

/-- Behind an object without keys of its own, what is written for a row is read as the row. -/
theorem readFields_entries {cs : List Cell} {v : View α (Row R.Value cs)} (hO : O = other R cs v)
    (hT : ∀ f ∈ fields R cs v, T.find? (fun g => g.name == f.name) = some f)
    (hrest : ∀ k ∉ names, T.find? (fun f => f.name == k) = none)
    (hnames : (cs.map Cell.name).Nodup) {p : Partial α} (hseen : ∀ c ∈ cs, c.name ∉ p.seen)
    (hget : v.get p.object = absent R cs) {r : Row R.Value cs} (hr : Restores R names depth cs r) :
    ∃ seen, p.readFields T O (Json.draftFields (entries R cs r)) = .ok ⟨v.set r p.object, seen⟩ ∧
      p.seen ⊆ seen ∧ ∀ c ∈ cs, (∀ x, c.entries x ≠ []) → c.name ∈ seen := by
  -- A cell writes nothing and is left at its absent value, or writes one entry, whose name has not
  -- been seen because the names of the cells are different.
  induction cs generalizing p with
  | nil =>
    refine ⟨p.seen, ?_, List.Subset.refl _, fun c hc => absurd hc List.not_mem_nil⟩
    refine readFields_rest hO (fun e he => ?_) (hget ▸ R.keep_entries hr)
    replace he : e ∈ Json.draftFields (R.entries r) := he
    rw [Json.draftFields_eq_mapValues] at he
    obtain ⟨e', he', rfl⟩ := List.mem_map.mp he
    exact hrest e'.1 (R.of_mem hr e' he').1
  | cons c cs ih =>
    obtain ⟨x, r⟩ := r
    obtain ⟨hcell, hrow⟩ := hr
    obtain ⟨hfield, hT⟩ := List.forall_mem_cons.mp hT
    obtain ⟨hnew, hnames⟩ := List.nodup_cons.mp hnames
    obtain ⟨hc, hcs⟩ := List.forall_mem_cons.mp hseen
    have hhead : (v.get p.object).1 = c.absent := congrArg Prod.fst hget
    have htail : v.tail.get p.object = absent R cs := congrArg Prod.snd hget
    rcases hcell with ⟨hnone, hx : x = c.absent⟩ | ⟨j, hone, hj, -⟩
    · obtain ⟨seen, hread, hsub, hwritten⟩ := ih hO hT hnames hcs htail hrow
      refine ⟨seen, ?_, hsub, List.forall_mem_cons.mpr ⟨fun h => absurd hnone (h x), hwritten⟩⟩
      show p.readFields T O (Json.draftFields (c.entries x ++ entries R cs r)) = _
      rw [hnone, List.nil_append, hread]
      show Except.ok (Partial.mk (v.set ((v.get p.object).1, r) p.object) seen) = _
      rw [hhead, ← hx]
    · obtain ⟨seen, hread, hsub, hwritten⟩ := ih (p := ⟨v.head.set x p.object, c.name :: p.seen⟩)
        hO hT hnames (fun c' hc' h => (List.mem_cons.mp h).elim
          (fun he => hnew (he ▸ List.mem_map_of_mem hc')) (hcs c' hc'))
        (by rw [v.tail_get_head_set, htail]) hrow
      refine ⟨seen, ?_, (List.cons_subset.mp hsub).2,
        List.forall_mem_cons.mpr ⟨fun _ => (List.cons_subset.mp hsub).1, hwritten⟩⟩
      have hstep : p.readField T O c.name j.draft =
          .ok ⟨v.head.set x p.object, c.name :: p.seen⟩ := by
        rw [Partial.readField, hfield]
        show (if p.seen.contains c.name then _ else (Reading.under _ (do
          .ok (v.head.set (← c.read j.draft) p.object))).map _) = _
        rw [if_neg (by simpa using hc), hj]
        rfl
      show p.readFields T O (Json.draftFields (c.entries x ++ entries R cs r)) = _
      rw [hone]
      show (p.readField T O c.name j.draft >>= fun p => p.readFields T O _) = _
      rw [hstep]
      show Partial.readFields T O _ (Json.draftFields (entries R cs r)) = _
      rw [hread, v.tail_set_head_set]

end Row

/-! ### Shapes -/

/-- Of fields with different names, each is found by its name. -/
theorem Field.find?_of_mem {α : Type} {fields : List (Field α)}
    (hnames : (fields.map Field.name).Nodup) {f : Field α} (hf : f ∈ fields) :
    fields.find? (fun g => g.name == f.name) = some f := by
  induction fields with
  | nil => exact absurd hf List.not_mem_nil
  | cons g fields ih =>
    obtain ⟨hg, hnames⟩ := List.nodup_cons.mp hnames
    rcases List.mem_cons.mp hf with rfl | hf
    · rw [List.find?_cons_of_pos (by simp)]
    · have hne : g.name ≠ f.name := fun he => hg (he ▸ List.mem_map_of_mem hf)
      rw [List.find?_cons_of_neg (by simpa using hne), ih hnames hf]

/-- How the objects of one kind are read and written. -/
structure Shape (α : Type) where
  kind : Kind
  rest : Rest
  cells : List Cell
  view : View α (Row rest.Value cells)
  required : List String
  /-- The object that reading starts from. -/
  empty : α
  /-- The depth of what is written even for the object that reading starts from. -/
  base : Nat := 0
  floor_le : ∀ c ∈ cells, c.floor ≤ base := by decide
  nodup_names : (cells.map Cell.name).Nodup := by decide
  get_empty : view.get empty = Row.absent rest cells := by rfl
  /-- What has to be there is always written. -/
  required_written : ∀ name ∈ required, ∃ c ∈ cells, c.name = name ∧ ∀ x, c.entries x ≠ []

namespace Shape

variable {α : Type} (S : Shape α)

/-- The names of the modelled keys. -/
def names : List String := S.cells.map Cell.name

/-- The fields of the object. -/
def table : List (Field α) := Row.fields S.rest S.cells S.view

def read : Draft → Reading α :=
  Draft.object S.kind S.table S.required (Row.other S.rest S.cells S.view) S.empty

def write (a : α) : Json := .obj (Row.entries S.rest S.cells (S.view.get a))

/-- The object is all in its row, and the row is restored. -/
def Restored (depth : Nat) (a : α) : Prop :=
  a = S.view.set (S.view.get a) S.empty ∧
    Row.Restores S.rest S.names depth S.cells (S.view.get a)

/-- A field of the table is found by its name. -/
theorem find?_table {f : Field α} (hf : f ∈ S.table) :
    S.table.find? (fun g => g.name == f.name) = some f :=
  Field.find?_of_mem (by rw [table, Row.map_name_fields]; exact S.nodup_names) hf

theorem find?_table_eq_none {k : String} (hk : k ∉ S.names) :
    S.table.find? (fun f => f.name == k) = none := by
  rw [List.find?_eq_none]
  intro f hf he
  refine hk ?_
  rw [names, ← Row.map_name_fields S.cells S.view]
  exact (beq_iff_eq.mp he) ▸ List.mem_map_of_mem hf

/-! ### What was read is restored -/

theorem restored_empty {n : Nat} (hn : S.base ≤ n) : S.Restored n S.empty :=
  ⟨(S.view.set_get S.empty).symm,
    S.get_empty ▸ Row.restores_absent fun c hc => Nat.le_trans (S.floor_le c hc) hn⟩

variable {S} {n : Nat}

/-- An object is restored when its row is. -/
theorem Restored.of_set {a : α} (ha : S.Restored n a) {r : Row S.rest.Value S.cells}
    (hr : Row.Restores S.rest S.names n S.cells r) : S.Restored n (S.view.set r a) := by
  refine ⟨?_, ?_⟩
  · rw [S.view.get_set]
    conv_lhs => rw [ha.1]
    exact S.view.set_set _ _ _
  · rw [S.view.get_set]
    exact hr

/-- Reading one field keeps an object restored. -/
theorem restored_field {f : Field α} (hf : f ∈ S.table) {d : Draft}
    (hd : ∀ c ∈ S.cells, c.SoundAt d) (hdepth : d.depth ≤ n) {a a' : α} (h : f.read d a = .ok a')
    (ha : S.Restored n a) : S.Restored n a' := by
  obtain ⟨r, rfl, hr⟩ := Row.restores_field hf hd hdepth h ha.2
  exact ha.of_set hr

/-- So does reading all of them, one after the other. -/
theorem restored_readFields {p q : Partial α} {fs : List (String × Draft)}
    (hd : ∀ e ∈ fs, ∀ c ∈ S.cells, c.SoundAt e.2) (hdepth : ∀ e ∈ fs, e.2.depth ≤ n)
    (h : p.readFields S.table (Row.other S.rest S.cells S.view) fs = .ok q)
    (hp : S.Restored n p.object) : S.Restored n q.object := by
  induction fs generalizing p with
  | nil => exact Except.ok.inj h ▸ hp
  | cons e fs ih =>
    obtain ⟨k, d⟩ := e
    obtain ⟨he, hfs⟩ := List.forall_mem_cons.mp hd
    obtain ⟨hde, hdfs⟩ := List.forall_mem_cons.mp hdepth
    obtain ⟨p', hp', h⟩ := Reading.exists_of_bind_eq_ok h
    refine ih hfs hdfs h ?_
    -- An entry is a field, which replaces one value of the row, or a key that is not modelled.
    rcases Partial.of_readField_eq_ok hp' with ⟨f, hf, -, -, hread, -⟩ | ⟨hk, hread, -⟩
    · exact restored_field hf he hde hread hp
    · have hk : k ∉ S.names := by
        rw [names, ← Row.map_name_fields S.cells S.view]
        exact fun hm => (List.mem_map.mp hm).elim fun f hf => hk f hf.1 hf.2
      obtain ⟨r, hr, hrow⟩ := Row.restores_other hk hde hread hp.2
      exact hr ▸ hp.of_set hrow

/-- What is read in the shape is restored, when it is in its cells. -/
theorem restored_read {d : Draft} (hd : ∀ x ∈ d.children, ∀ c ∈ S.cells, c.SoundAt x)
    (hbase : S.base ≤ n) (hdepth : d.depth ≤ n + 1) {a : α} (h : S.read d = .ok a) :
    S.Restored n a := by
  obtain ⟨fs, q, rfl, hq, rfl⟩ := Draft.object_eq_ok h
  have hchild : ∀ e ∈ fs, e.2 ∈ (Draft.record fs .closed).children := fun e he =>
    List.mem_map_of_mem he
  exact restored_readFields (fun e he => hd e.2 (hchild e he))
    (fun e he => Draft.depth_le_of_mem_children hdepth (hchild e he)) hq (S.restored_empty hbase)

/-! ### What is restored is read again -/

/-- What is restored is read as it was written. -/
theorem read_write {a : α} (ha : S.Restored n a) : S.read (S.write a).draft = .ok a := by
  obtain ⟨seen, hread, -, hwritten⟩ := Row.readFields_entries (T := S.table)
    (p := ⟨S.empty, []⟩) rfl (fun f hf => S.find?_table hf)
    (fun k (hk : k ∉ S.names) => S.find?_table_eq_none hk) S.nodup_names
    (fun _ _ => List.not_mem_nil) S.get_empty ha.2
  have hmissing : missing? S.required seen = none := by
    rw [missing?, List.find?_eq_none]
    intro name hname
    obtain ⟨c, hc, rfl, hentries⟩ := S.required_written name hname
    simpa using hwritten c hc hentries
  show (Partial.readFields S.table _ ⟨S.empty, []⟩ (Json.draftFields _) >>= _) = _
  rw [hread]
  simp only [bind, Except.bind, hmissing]
  exact congrArg Except.ok ha.1.symm

theorem rereads {a : α} (ha : S.Restored n a) : Draft.Rereads S.read S.write (n + 1) a :=
  ⟨read_write ha,
    Json.readFrom_obj (Row.nodup_keys_entries S.nodup_names (List.Subset.refl _) ha.2)
      (Row.readFrom_of_restores ha.2)⟩

/-- **What was read in a shape is read again from what is written of it**, which holds no key twice
and is no deeper than the draft and what is written in any case. -/
theorem rereads_of_read {d : Draft} (hd : ∀ x ∈ d.children, ∀ c ∈ S.cells, c.SoundAt x) {a : α}
    (h : S.read d = .ok a) :
    Draft.Rereads S.read S.write (max d.depth (S.base + 1)) a := by
  obtain ⟨fs, q, rfl, -⟩ := Draft.object_eq_ok h
  rw [Draft.depth, Nat.add_max_add_right]
  exact rereads (restored_read hd (Nat.le_max_right _ _)
    (Nat.succ_le_succ (Nat.le_max_left _ _)) h)

theorem roundTrips (hbase : S.base = 0) {d : Draft}
    (hd : ∀ x ∈ d.children, ∀ c ∈ S.cells, c.SoundAt x) : d.RoundTrips S.read S.write := by
  intro a h
  have hback := rereads_of_read hd h
  obtain ⟨fs, q, rfl, -⟩ := Draft.object_eq_ok h
  refine hback.mono (Nat.max_le.mpr ⟨Nat.le_refl _, ?_⟩)
  rw [hbase]
  exact Nat.succ_le_succ (Nat.zero_le _)

/-- The objects of a kind are read and written by the shape. -/
structure Describes (S : Shape α) (read : Draft → Reading α) (write : α → Json) : Prop where
  read_eq : read = S.read
  write_eq : write = S.write
  soundAt : ∀ d : Draft, ∀ c ∈ S.cells, c.SoundAt d

/-- Objects of a kind are read again by the shape that describes it. -/
theorem Describes.roundTrips {read : Draft → Reading α} {write : α → Json}
    (h : S.Describes read write) (hbase : S.base = 0) (d : Draft) : d.RoundTrips read write := by
  obtain ⟨rfl, rfl, hcells⟩ := h
  exact Shape.roundTrips hbase fun x _ => hcells x

end Shape

end ApiAssembly
