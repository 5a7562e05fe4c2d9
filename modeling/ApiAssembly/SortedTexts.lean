/-!
# SortedTexts — sets of texts in order

A list of texts sorted by code points, with each text once.
-/

namespace ApiAssembly

/-- The texts in increasing order, each once. -/
def sortedTexts (texts : List String) : List String :=
  (texts.mergeSort fun a b => decide (a ≤ b)).eraseReps

end ApiAssembly
