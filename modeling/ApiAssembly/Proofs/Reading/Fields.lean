import ApiAssembly.Reading.Field

/-!
# Proofs — Reading — the fields of an object

Objects are read from a table of fields, one entry after the other.  `Partial.of_readField_eq_ok`
takes the reading of one entry apart.  `Field.Reads` says that a part of an object is what the
field of one name is read as, and `Reads.readFields` what becomes of that part when all the fields
of an object are read: a key counts once, so the first entry of the key has the last word.
-/

namespace ApiAssembly

section Fields

variable {α β : Type} {table : List (Field α)} {other : String → Draft → α → Reading α}

theorem Reading.exists_of_bind_eq_ok {x : Reading α} {f : α → Reading β} {b : β}
    (h : x >>= f = .ok b) : ∃ a, x = .ok a ∧ f a = .ok b := by
  cases x with
  | error e => cases h
  | ok a => exact ⟨a, rfl, h⟩

theorem Reading.exists_of_map_eq_ok {x : Reading α} {f : α → β} {b : β}
    (h : x.map f = .ok b) : ∃ a, x = .ok a ∧ f a = b := by
  cases x with
  | error e => cases h
  | ok a => exact ⟨a, rfl, Except.ok.inj h⟩

theorem Reading.of_under_eq_ok {step : Step} {x : Reading α} {a : α}
    (h : Reading.under step x = .ok a) : x = .ok a := by
  cases x with
  | error e => cases h
  | ok b => exact h

/-- What reading one entry does: the field of its key is read, for the first time, or the entry is
kept. -/
theorem Partial.of_readField_eq_ok {p p' : Partial α} {key : String} {d : Draft}
    (h : p.readField table other key d = .ok p') :
    (∃ f ∈ table, f.name = key ∧ key ∉ p.seen ∧ f.read d p.object = .ok p'.object ∧
      p'.seen = key :: p.seen) ∨
    ((∀ f ∈ table, f.name ≠ key) ∧ other key d p.object = .ok p'.object ∧ p'.seen = p.seen) := by
  rw [readField] at h
  split at h
  case h_1 hnone =>
    obtain ⟨a, ha, rfl⟩ := Reading.exists_of_map_eq_ok h
    exact .inr ⟨by simpa using hnone, ha, rfl⟩
  case h_2 f hf =>
    have hname : f.name = key := by simpa using List.find?_some hf
    split at h
    case isTrue => cases h
    case isFalse hseen =>
      obtain ⟨a, ha, rfl⟩ := Reading.exists_of_map_eq_ok h
      exact .inl ⟨f, List.mem_of_find?_eq_some hf, hname, by simpa using hseen,
        Reading.of_under_eq_ok ha, rfl⟩

/-- The part of an object that is read from the field of a name, and from no other. -/
structure Field.Reads (table : List (Field α)) (other : String → Draft → α → Reading α)
    (name : String) (read : Draft → Reading β) (part : α → β) : Prop where
  isField : ∃ f ∈ table, f.name = name
  ofField : ∀ f ∈ table, f.name = name → ∀ {d a a'}, f.read d a = .ok a' → read d = .ok (part a')
  ofOthers : ∀ f ∈ table, f.name ≠ name → ∀ {d a a'}, f.read d a = .ok a' → part a' = part a
  ofRest : ∀ {key d a a'}, other key d a = .ok a' → part a' = part a

namespace Field.Reads

variable {name : String} {read : Draft → Reading β} {part : α → β}

/-- A field that was read comes no more. -/
theorem get?_eq_none_of_seen (hr : Reads table other name read part) {p q : Partial α}
    {fs : List (String × Draft)} (hseen : name ∈ p.seen)
    (h : p.readFields table other fs = .ok q) : Keyed.get? fs name = none := by
  induction fs generalizing p with
  | nil => rfl
  | cons entry fs ih =>
    obtain ⟨key, d⟩ := entry
    obtain ⟨p', hp', h⟩ := Reading.exists_of_bind_eq_ok h
    rcases Partial.of_readField_eq_ok hp' with ⟨f, -, -, hnew, -, hs⟩ | ⟨hkey, -, hs⟩
    · have hne : key ≠ name := fun he => hnew (he ▸ hseen)
      rw [Keyed.get?_cons, if_neg hne]
      exact ih (hs ▸ List.mem_cons_of_mem key hseen) h
    · obtain ⟨f, hf, hname⟩ := hr.isField
      rw [Keyed.get?_cons, if_neg fun he => hkey f hf (hname.trans he.symm)]
      exact ih (hs ▸ hseen) h

/-- The part is read from the entry of its field, and stays where there is none. -/
theorem readFields (hr : Reads table other name read part) {p q : Partial α}
    {fs : List (String × Draft)} (h : p.readFields table other fs = .ok q) :
    (∀ d ∈ Keyed.get? fs name, read d = .ok (part q.object)) ∧
      (Keyed.get? fs name = none → part q.object = part p.object) := by
  induction fs generalizing p with
  | nil =>
    obtain rfl := Except.ok.inj h
    exact ⟨nofun, fun _ => rfl⟩
  | cons entry fs ih =>
    obtain ⟨key, d⟩ := entry
    obtain ⟨p', hp', h⟩ := Reading.exists_of_bind_eq_ok h
    obtain ⟨hsome, hnone⟩ := ih h
    rw [Keyed.get?_cons]
    rcases Partial.of_readField_eq_ok hp' with ⟨f, hf, hkey, -, hread, hs⟩ | ⟨hkey, hread, -⟩
    · by_cases hname : key = name
      · have hlast : Keyed.get? fs name = none :=
          hr.get?_eq_none_of_seen (hs ▸ hname ▸ List.mem_cons_self) h
        rw [if_pos hname, hnone hlast]
        refine ⟨fun d' hd' => ?_, nofun⟩
        obtain rfl := Option.some.inj hd'
        exact hr.ofField f hf (hkey.trans hname) hread
      · rw [if_neg hname]
        have hkeep := hr.ofOthers f hf (fun he => hname (hkey.symm.trans he)) hread
        exact ⟨hsome, fun hfs => (hnone hfs).trans hkeep⟩
    · obtain ⟨f, hf, hname⟩ := hr.isField
      rw [if_neg fun he => hkey f hf (hname.trans he.symm)]
      exact ⟨hsome, fun hfs => (hnone hfs).trans (hr.ofRest hread)⟩

end Field.Reads

end Fields

end ApiAssembly
