/-!
# TextSet — sets of texts that remember their order

A set is the list of its texts in the order in which they came, each at its first place only. A
text that is there already is not added again.
-/

namespace ApiAssembly

/-- A set of texts, in order. -/
structure TextSet where
  items : List String
  nodup : items.Nodup

namespace TextSet

instance : EmptyCollection TextSet := ⟨⟨[], List.nodup_nil⟩⟩

def isEmpty (s : TextSet) : Bool := s.items.isEmpty

def contains (s : TextSet) (x : String) : Bool := s.items.contains x

theorem nodup_concat {xs : List String} {x : String} (hxs : xs.Nodup) (hx : x ∉ xs) :
    (xs ++ [x]).Nodup := by
  refine List.nodup_append.mpr ⟨hxs, by simp, ?_⟩
  rintro a ha b hb rfl
  exact hx (List.mem_singleton.mp hb ▸ ha)

/-- Adds a text at the end, unless it is there. -/
def add (s : TextSet) (x : String) : TextSet :=
  if h : x ∈ s.items then s else ⟨s.items ++ [x], nodup_concat s.nodup h⟩

/-- Adds texts in their order. -/
def addAll (s : TextSet) (xs : List String) : TextSet := xs.foldl add s

/-- The set of some texts. -/
def ofList (xs : List String) : TextSet := addAll ∅ xs

theorem items_add (s : TextSet) (x : String) :
    (s.add x).items = if x ∈ s.items then s.items else s.items ++ [x] := by
  rw [add]
  split <;> rfl

end TextSet

end ApiAssembly
