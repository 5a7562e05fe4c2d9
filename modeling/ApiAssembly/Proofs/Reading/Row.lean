import ApiAssembly.Proofs.Reading.Shape

/-!
# Proofs — Reading — what the values of an object are read from

The value of a cell is read from the entry under its name, or it is absent when there is none; what
is remembered of the other keys comes from the entries under them, in order (`Row.Reads`).  So each
cell is a part of the object that one field reads and no other (`Row.reads_cell`), and **what was
read in a shape is read cell by cell** (`Shape.reads_of_read`).
-/

namespace ApiAssembly

namespace Row

variable {α : Type} {R : Rest}

/-- The value of each cell is read from the entry under its name, or absent without one; the rest
comes from the entries under other names. -/
def Reads (R : Rest) (names : List String) (fs : List (String × Draft)) :
    (cs : List Cell) → Row R.Value cs → Prop
  | [],      r =>
    (fs.filter fun e => e.1 ∉ names).foldlM (fun x e => R.keep e.1 e.2 x) R.absent = .ok r
  | c :: cs, r =>
    ((∀ d ∈ Keyed.get? fs c.name, c.read d = .ok r.1) ∧
      (Keyed.get? fs c.name = none → r.1 = c.absent)) ∧ Reads R names fs cs r.2

/-! ### A field changes the row alone -/

/-- A field changes nothing but the row. -/
theorem exists_set_of_field {cs : List Cell} {v : View α (Row R.Value cs)} {f : Field α}
    (hf : f ∈ fields R cs v) {d : Draft} {a a' : α} (h : f.read d a = .ok a') :
    ∃ r, a' = v.set r a := by
  induction cs with
  | nil => exact absurd hf List.not_mem_nil
  | cons c cs ih =>
    rcases List.mem_cons.mp hf with rfl | hf
    · obtain ⟨x, -, h⟩ := Reading.exists_of_bind_eq_ok h
      exact ⟨_, (Except.ok.inj h).symm⟩
    · obtain ⟨r, hr⟩ := ih hf
      exact ⟨_, hr⟩

/-- A key that is not modelled changes nothing but the row. -/
theorem exists_set_of_other {cs : List Cell} {v : View α (Row R.Value cs)} {k : String}
    {d : Draft} {a a' : α} (h : other R cs v k d a = .ok a') : ∃ r, a' = v.set r a := by
  induction cs with
  | nil =>
    obtain ⟨x, -, h⟩ := Reading.exists_of_bind_eq_ok h
    exact ⟨x, (Except.ok.inj h).symm⟩
  | cons c cs ih =>
    obtain ⟨r, hr⟩ := ih h
    exact ⟨_, hr⟩

/-! ### A table with the fields of some cells -/

variable {T : List (Field α)} {O : String → Draft → α → Reading α}

/-- A table has the fields of the cells, and its other fields leave their values alone. -/
structure InTable (T : List (Field α)) (cs : List Cell) (v : View α (Row R.Value cs)) : Prop where
  nodup : (cs.map Cell.name).Nodup
  fields_subset : fields R cs v ⊆ T
  of_mem : ∀ f ∈ T, f ∈ fields R cs v ∨
    f.name ∉ cs.map Cell.name ∧ ∀ {d a a'}, f.read d a = .ok a' → v.get a' = v.get a

theorem name_mem_of_mem_fields {cs : List Cell} {v : View α (Row R.Value cs)} {f : Field α}
    (hf : f ∈ fields R cs v) : f.name ∈ cs.map Cell.name :=
  map_name_fields cs v ▸ List.mem_map_of_mem hf

theorem InTable.tail {c : Cell} {cs : List Cell} {v : View α (Row R.Value (c :: cs))}
    (h : InTable T (c :: cs) v) : InTable T cs v.tail where
  nodup := (List.nodup_cons.mp h.nodup).2
  fields_subset := (List.cons_subset.mp h.fields_subset).2
  of_mem f hf := by
    rcases h.of_mem f hf with hf | ⟨hname, hkeep⟩
    · rcases List.mem_cons.mp hf with rfl | hf
      · refine .inr ⟨(List.nodup_cons.mp h.nodup).1, fun {d a a'} hread => ?_⟩
        obtain ⟨x, -, hread⟩ := Reading.exists_of_bind_eq_ok hread
        obtain rfl := Except.ok.inj hread
        exact v.tail_get_head_set x a
      · exact .inl hf
    · exact .inr ⟨fun hm => hname (List.mem_cons_of_mem _ hm),
        fun hread => congrArg Prod.snd (hkeep hread)⟩

/-- The value of the first cell is read from its field and from no other. -/
theorem reads_cell {c : Cell} {cs : List Cell} {v : View α (Row R.Value (c :: cs))}
    (h : InTable T (c :: cs) v) (hO : O = other R (c :: cs) v) :
    Field.Reads T O c.name c.read fun a => (v.get a).1 where
  isField := ⟨_, (List.cons_subset.mp h.fields_subset).1, rfl⟩
  ofField f hf hname {d a a'} hread := by
    rcases h.of_mem f hf with hf | ⟨hout, -⟩
    · rcases List.mem_cons.mp hf with rfl | hf
      · obtain ⟨x, hx, hread⟩ := Reading.exists_of_bind_eq_ok hread
        obtain rfl := Except.ok.inj hread
        have hget : (v.get (v.head.set x a)).1 = x := v.head.get_set x a
        rw [hx, hget]
      · exact absurd (hname ▸ name_mem_of_mem_fields hf) (List.nodup_cons.mp h.nodup).1
    · exact absurd (hname ▸ List.mem_cons_self) hout
  ofOthers f hf hname {d a a'} hread := by
    rcases h.of_mem f hf with hf | ⟨-, hkeep⟩
    · rcases List.mem_cons.mp hf with rfl | hf
      · exact absurd rfl hname
      · obtain ⟨r, rfl⟩ := exists_set_of_field hf hread
        exact v.head_get_tail_set r a
    · exact congrArg Prod.fst (hkeep hread)
  ofRest {k d a a'} hread := by
    subst hO
    obtain ⟨r, rfl⟩ := exists_set_of_other (v := v.tail) hread
    exact v.head_get_tail_set r a

/-- What is remembered of the other keys comes from the entries that no field reads. -/
theorem reads_rest {v : View α R.Value} (h : InTable T [] v) (hO : O = other R [] v)
    {names : List String} (hnames : ∀ k, k ∈ names ↔ ∃ f ∈ T, f.name = k)
    {fs : List (String × Draft)} {p q : Partial α} (hq : p.readFields T O fs = .ok q) :
    (fs.filter fun e => e.1 ∉ names).foldlM (fun x e => R.keep e.1 e.2 x) (v.get p.object) =
      .ok (v.get q.object) := by
  induction fs generalizing p with
  | nil =>
    obtain rfl := Except.ok.inj hq
    rfl
  | cons e fs ih =>
    obtain ⟨k, d⟩ := e
    obtain ⟨p', hp', hq⟩ := Reading.exists_of_bind_eq_ok hq
    rcases Partial.of_readField_eq_ok hp' with ⟨f, hf, hname, -, hread, -⟩ | ⟨hnone, hread, -⟩
    · have hk : k ∈ names := (hnames k).mpr ⟨f, hf, hname⟩
      have hkeep : v.get p'.object = v.get p.object :=
        ((h.of_mem f hf).resolve_left List.not_mem_nil).2 hread
      rw [List.filter_cons_of_neg (by simpa using hk), ← hkeep]
      exact ih hq
    · have hk : k ∉ names := fun hk => (hnames k).mp hk |>.elim fun f hf => hnone f hf.1 hf.2
      subst hO
      obtain ⟨x, hx, hread⟩ := Reading.exists_of_bind_eq_ok hread
      have hobject := Except.ok.inj hread
      have hget : v.get p'.object = x := by rw [← hobject, v.get_set]
      rw [List.filter_cons_of_pos (by simpa using hk), List.foldlM_cons, hx, ← hget]
      exact ih hq

/-- Reading all fields of an object reads its row. -/
theorem reads_readFields {cs : List Cell} {v : View α (Row R.Value cs)} (h : InTable T cs v)
    (hO : O = other R cs v) {names : List String} (hnames : ∀ k, k ∈ names ↔ ∃ f ∈ T, f.name = k)
    {fs : List (String × Draft)} {p q : Partial α} (hq : p.readFields T O fs = .ok q)
    (hp : v.get p.object = absent R cs) : Reads R names fs cs (v.get q.object) := by
  induction cs with
  | nil =>
    have hrest := reads_rest h hO hnames hq
    rwa [hp] at hrest
  | cons c cs ih =>
    obtain ⟨hsome, hnone⟩ := (reads_cell h hO).readFields hq
    have hhead : (v.get p.object).1 = c.absent := congrArg Prod.fst hp
    exact ⟨⟨hsome, fun hget => (hnone hget).trans hhead⟩,
      ih h.tail hO (congrArg Prod.snd hp)⟩

end Row

namespace Shape

variable {α : Type} {S : Shape α}

theorem inTable (S : Shape α) : Row.InTable S.table S.cells S.view where
  nodup := S.nodup_names
  fields_subset := List.Subset.refl _
  of_mem _ hf := .inl hf

/-- **What was read in a shape is read cell by cell.** -/
theorem reads_of_read {d : Draft} {a : α} (h : S.read d = .ok a) :
    ∃ fs, d = .record fs .closed ∧ Row.Reads S.rest S.names fs S.cells (S.view.get a) := by
  obtain ⟨fs, q, rfl, hq, rfl⟩ := Draft.object_eq_ok h
  have hnames : ∀ k, k ∈ S.names ↔ ∃ f ∈ S.table, f.name = k := fun k => by
    rw [names, ← Row.map_name_fields S.cells S.view]
    exact List.mem_map
  exact ⟨fs, rfl, Row.reads_readFields S.inTable rfl hnames hq S.get_empty⟩

/-- Objects of a kind are read cell by cell in the shape that describes it. -/
theorem Describes.reads_of_read {read : Draft → Reading α} {write : α → Json}
    (h : S.Describes read write) {d : Draft} {a : α} (ha : read d = .ok a) :
    ∃ fs, d = .record fs .closed ∧ Row.Reads S.rest S.names fs S.cells (S.view.get a) :=
  Shape.reads_of_read (h.read_eq ▸ ha)

end Shape

end ApiAssembly
