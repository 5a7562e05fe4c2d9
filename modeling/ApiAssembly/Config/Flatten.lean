import ApiAssembly.Json.Basic
import ApiAssembly.Number.Text

/-!
# Config — Flatten — trees as dotted keys

Every scalar of a tree but null has a key: the keys on the way to it with points between them, and
indexes in brackets. An array has a key too, under which its own scalars stand with commas between
them. `Json.leaves` lists the keys in the order in which they are written, an array after what is in
it.
-/

namespace ApiAssembly

/-- The text of a scalar; null, arrays and objects have none. -/
def Json.scalarText? : Json → Option String
  | .str s      => some s
  | .bool true  => some "true"
  | .bool false => some "false"
  | .num n      => some (String.ofList n.chars)
  | .null       => none
  | .arr _      => none
  | .obj _      => none

/-- The key of an entry below another key. -/
def dottedKey (above key : String) : String := if above.isEmpty then key else above ++ "." ++ key

/-- The key of an item below another key. -/
def indexedKey (above : String) (i : Nat) : String :=
  above ++ "[" ++ String.ofList (digitChars i) ++ "]"

/-- The scalars directly among some items, with commas between them. -/
def joinedScalars (items : List Json) : String :=
  ",".intercalate (items.filterMap Json.scalarText?)

namespace Json

mutual

/-- The keys and texts of a tree below a key. -/
def leaves (above : String) : Json → List (String × String)
  | .obj fields => leavesOfFields above fields
  | .arr items  => leavesOfItems above 0 items ++ [(above, joinedScalars items)]
  | .null       => []
  | .str s      => [(above, s)]
  | .bool true  => [(above, "true")]
  | .bool false => [(above, "false")]
  | .num n      => [(above, String.ofList n.chars)]

/-- The keys and texts of entries below a key. -/
def leavesOfFields (above : String) : List (String × Json) → List (String × String)
  | []          => []
  | (k, x) :: r => x.leaves (dottedKey above k) ++ leavesOfFields above r

/-- The keys and texts of items below a key, from an index on. -/
def leavesOfItems (above : String) (i : Nat) : List Json → List (String × String)
  | []     => []
  | x :: r => x.leaves (indexedKey above i) ++ leavesOfItems above (i + 1) r

end

/-- Writes the keys of a tree over a map. -/
def flattenInto (m : Keyed String) (j : Json) : Keyed String := m.extend (j.leaves "")

end Json

end ApiAssembly
