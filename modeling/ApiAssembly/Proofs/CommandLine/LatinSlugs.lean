import ApiAssembly.CommandLine.LatinSlugs
import Mathlib

/-!
# Proofs — CommandLine — what the slugger for Latin letters writes

`LatinSlugs.slugFrom` keeps the ASCII letters and digits of a spelled title, in lower case, and puts
dashes between them.  Whatever the spellings are, nothing else comes out (`isSlugChar_of_mem_slug`),
so the slugger does what is expected of one (`writesSlugs_latinSlugger`).
-/

namespace ApiAssembly

namespace LatinSlugs

/-- An ASCII letter or digit in lower case is a character of a slug. -/
theorem isSlugChar_toLower {c : Char} (h : c.isAlphanum) : IsSlugChar c.toLower := by
  by_cases halpha : c.isAlpha
  · exact .inr (.inl (c.isLower_toLower_eq_isAlpha.trans halpha))
  · have hupper : ¬ c.isUpper := fun hu =>
      halpha ((Bool.or_eq_true c.isUpper c.isLower).mpr (.inl hu))
    have hdigit : c.isDigit := ((Bool.or_eq_true c.isAlpha c.isDigit).mp h).resolve_left halpha
    rw [Char.toLower_eq_of_not_isUpper hupper]
    exact .inr (.inr hdigit)

theorem isSlugChar_of_mem_slugFrom {started pending : Bool} {cs : List Char} {c : Char}
    (h : c ∈ slugFrom started pending cs) : IsSlugChar c := by
  induction cs generalizing started pending with
  | nil => cases h
  | cons d cs ih =>
    rw [slugFrom] at h
    split at h
    case isTrue hd =>
      have hlower : IsSlugChar d.toLower := isSlugChar_toLower hd
      split at h
      · rcases List.mem_cons.mp h with rfl | h
        · exact .inl rfl
        · rcases List.mem_cons.mp h with rfl | h
          · exact hlower
          · exact ih h
      · rcases List.mem_cons.mp h with rfl | h
        · exact hlower
        · exact ih h
    case isFalse => exact ih h

/-- A slug is made of characters of slugs, whatever the letters of the title are spelled like. -/
theorem isSlugChar_of_mem_slug {title : String} {c : Char} (h : c ∈ (slug title).toList) :
    IsSlugChar c := by
  rw [slug, String.toList_ofList] at h
  exact isSlugChar_of_mem_slugFrom h

end LatinSlugs

/-- The slugger for Latin letters does what is expected of one. -/
theorem writesSlugs_latinSlugger : latinSlugger.WritesSlugs :=
  fun _ _ hc => LatinSlugs.isSlugChar_of_mem_slug hc

end ApiAssembly
