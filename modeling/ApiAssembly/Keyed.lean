/-!
# Keyed — maps that remember the order of their keys

A map is the list of its entries, in the order in which the keys came. Looking a key up finds its
first entry, and every operation here leaves a key at most once when its operands hold it at most
once: a key that is written again keeps its place and changes its value.

`get?_insert_self` and `get?_insert_of_ne` say what writing does to the view `get?`, and
`keys_insert` says what it does to the order.
-/

namespace ApiAssembly

/-- A map from text to `α`, as the list of its entries in order. -/
abbrev Keyed (α : Type) := List (String × α)

namespace Keyed

variable {α β : Type}

/-- The keys, in order. -/
def keys (m : Keyed α) : List String := m.map Prod.fst

/-- The value under a key. -/
def get? : Keyed α → String → Option α
  | [],          _ => none
  | (k, v) :: m, q => if k = q then some v else get? m q

/-- Whether the key has an entry. -/
def has (m : Keyed α) (k : String) : Bool := (m.get? k).isSome

/-- Writes a value: a known key keeps its place, a new one goes to the end. -/
def insert : Keyed α → String → α → Keyed α
  | [],          q, w => [(q, w)]
  | (k, v) :: m, q, w => if k = q then (k, w) :: m else (k, v) :: insert m q w

/-- Writes a value only where the key has none yet. -/
def insertNew (m : Keyed α) (k : String) (v : α) : Keyed α :=
  if m.has k then m else m ++ [(k, v)]

/-- Changes the value under a key; other entries stay. -/
def modify (m : Keyed α) (k : String) (f : α → α) : Keyed α :=
  m.map fun entry => if entry.1 = k then (entry.1, f entry.2) else entry

/-- The entries of a list written one after the other, so the last value of a key wins and its
first place stays. -/
def ofList (entries : List (String × α)) : Keyed α :=
  entries.foldl (fun m entry => m.insert entry.1 entry.2) []

/-- Writes every entry of the second map over the first. -/
def extend (m new : Keyed α) : Keyed α :=
  new.foldl (fun m entry => m.insert entry.1 entry.2) m

/-- Adds the entries of the second map whose keys the first does not have. -/
def extendNew (m new : Keyed α) : Keyed α :=
  new.foldl (fun m entry => m.insertNew entry.1 entry.2) m

/-- Applies a function to every value. -/
def mapValues (f : α → β) (m : Keyed α) : Keyed β := m.map fun entry => (entry.1, f entry.2)

/-- The entries in increasing order of their keys, by code points. -/
def sortKeys (m : Keyed α) : Keyed α := m.mergeSort fun a b => decide (a.1 ≤ b.1)

@[simp] theorem get?_nil (q : String) : get? ([] : Keyed α) q = none := rfl

theorem get?_cons (k : String) (v : α) (m : Keyed α) (q : String) :
    get? ((k, v) :: m) q = if k = q then some v else get? m q := rfl

theorem get?_insert_self (m : Keyed α) (k : String) (v : α) : (m.insert k v).get? k = some v := by
  induction m with
  | nil => simp [insert, get?]
  | cons entry m ih =>
    obtain ⟨k', v'⟩ := entry
    by_cases h : k' = k <;> simp [insert, get?, h, ih]

theorem get?_insert_of_ne (m : Keyed α) {k q : String} (v : α) (h : k ≠ q) :
    (m.insert k v).get? q = m.get? q := by
  induction m with
  | nil => simp [insert, get?, h]
  | cons entry m ih =>
    obtain ⟨k', v'⟩ := entry
    by_cases hk : k' = k
    · subst hk; simp [insert, get?, h]
    · rw [insert, if_neg hk, get?_cons, get?_cons, ih]

theorem keys_insert (m : Keyed α) (k : String) (v : α) :
    (m.insert k v).keys = if k ∈ m.keys then m.keys else m.keys ++ [k] := by
  induction m with
  | nil => simp [insert, keys]
  | cons entry m ih =>
    obtain ⟨k', v'⟩ := entry
    by_cases h : k' = k
    · simp [insert, keys, h]
    · have h' : ¬ k = k' := fun e => h e.symm
      simp only [keys] at ih
      by_cases hm : k ∈ List.map Prod.fst m <;> simp_all [insert, keys]

@[simp] theorem keys_mapValues (f : α → β) (m : Keyed α) : (m.mapValues f).keys = m.keys := by
  simp [mapValues, keys, Function.comp_def]

theorem get?_mapValues (f : α → β) (m : Keyed α) (q : String) :
    (m.mapValues f).get? q = (m.get? q).map f := by
  induction m with
  | nil => rfl
  | cons entry m ih =>
    obtain ⟨k, v⟩ := entry
    by_cases h : k = q
    · simp [mapValues, get?, h]
    · simpa [mapValues, get?, h] using ih

end Keyed

end ApiAssembly
