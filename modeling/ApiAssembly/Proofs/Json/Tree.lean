import ApiAssembly.Json.Basic

/-!
# Proofs — Json — values as trees

`Json.induct` is the induction that follows a value: an array comes after its items, and an object
after the values of its entries.  `Json.numbers` lists the numbers at any depth, and `Json.depth`
counts how deep arrays and objects are nested.
-/

namespace ApiAssembly

namespace Json

/-- Induction along a value: a statement holds of an array or object when it holds of the values
right in it. -/
@[elab_as_elim]
theorem induct {P : Json → Prop} (null : P .null) (bool : ∀ b, P (.bool b))
    (num : ∀ n, P (.num n)) (str : ∀ s, P (.str s))
    (arr : ∀ items, (∀ x ∈ items, P x) → P (.arr items))
    (obj : ∀ fields : List (String × Json), (∀ f ∈ fields, P f.2) → P (.obj fields)) :
    ∀ j, P j := by
  refine Json.rec (motive_1 := P) (motive_2 := fun items => ∀ x ∈ items, P x)
    (motive_3 := fun fields => ∀ f ∈ fields, P f.2) (motive_4 := fun f => P f.2)
    null bool num str arr obj ?nil ?cons ?fnil ?fcons ?pair
  case nil => exact fun _ h => absurd h List.not_mem_nil
  case cons => exact fun x items hx hitems => List.forall_mem_cons.mpr ⟨hx, hitems⟩
  case fnil => exact fun _ h => absurd h List.not_mem_nil
  case fcons => exact fun f fields hf hfields => List.forall_mem_cons.mpr ⟨hf, hfields⟩
  case pair => exact fun _ _ h => h

mutual

/-- The numbers of a value. -/
def numbers : Json → List Number
  | .num n      => [n]
  | .arr items  => numbersOfItems items
  | .obj fields => numbersOfFields fields
  | _           => []

/-- The numbers of the items. -/
def numbersOfItems : List Json → List Number
  | []         => []
  | x :: items => x.numbers ++ numbersOfItems items

/-- The numbers of the entries. -/
def numbersOfFields : List (String × Json) → List Number
  | []               => []
  | (_, x) :: fields => x.numbers ++ numbersOfFields fields

end

mutual

/-- How deep arrays and objects are nested. -/
def depth : Json → Nat
  | .arr items  => depthOfItems items + 1
  | .obj fields => depthOfFields fields + 1
  | _           => 0

/-- The depth of the deepest item. -/
def depthOfItems : List Json → Nat
  | []         => 0
  | x :: items => max x.depth (depthOfItems items)

/-- The depth of the deepest entry. -/
def depthOfFields : List (String × Json) → Nat
  | []               => 0
  | (_, x) :: fields => max x.depth (depthOfFields fields)

end

/-- The numbers of an array are those of its items. -/
theorem numbersOfItems_eq (items : List Json) : numbersOfItems items = items.flatMap numbers := by
  induction items with
  | nil => rfl
  | cons x items ih => rw [numbersOfItems, ih, List.flatMap_cons]

/-- The numbers of an object are those of its values. -/
theorem numbersOfFields_eq (fields : List (String × Json)) :
    numbersOfFields fields = fields.flatMap fun f => f.2.numbers := by
  induction fields with
  | nil => rfl
  | cons f fields ih => rw [numbersOfFields, ih, List.flatMap_cons]

/-- An array is as deep as the deepest of its items. -/
theorem depthOfItems_le_iff {items : List Json} {n : Nat} :
    depthOfItems items ≤ n ↔ ∀ x ∈ items, x.depth ≤ n := by
  induction items with
  | nil => simp [depthOfItems]
  | cons x items ih => rw [depthOfItems, Nat.max_le, List.forall_mem_cons, ih]

theorem depthOfFields_le_iff {fields : List (String × Json)} {n : Nat} :
    depthOfFields fields ≤ n ↔ ∀ f ∈ fields, f.2.depth ≤ n := by
  induction fields with
  | nil => simp [depthOfFields]
  | cons f fields ih => rw [depthOfFields, Nat.max_le, List.forall_mem_cons, ih]

end Json

end ApiAssembly
