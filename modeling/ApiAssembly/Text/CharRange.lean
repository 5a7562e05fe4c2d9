/-!
# Text — CharRange — sets of characters as runs

A set of code points is a list of runs: a first and a last code point and the distance between
neighbours, one or two. Tables of character properties are written this way.
-/

namespace ApiAssembly

/-- First code point, last code point and the distance between neighbours. -/
abbrev CharRun := Nat × Nat × Nat

/-- Whether a code point belongs to a run. -/
def CharRun.holds (r : CharRun) (n : Nat) : Bool :=
  r.1 ≤ n && n ≤ r.2.1 && (n - r.1) % r.2.2 == 0

/-- Whether a code point belongs to one of the runs. -/
def inRuns (runs : List CharRun) (n : Nat) : Bool := runs.any fun r => r.holds n

end ApiAssembly
