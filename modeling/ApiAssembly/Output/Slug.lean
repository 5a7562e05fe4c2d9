/-!
# Output — Slug — titles as names of files

A file is named after a title by the slug of the title, a text of lower-case ASCII letters, digits
and dashes. How the letters of all scripts are spelled in these is not laid down here: it takes
tables that are not part of this library, and whoever runs it brings a slugger along.
-/

namespace ApiAssembly

/-- What makes slugs of titles. -/
class Slugger where
  /-- The slug of a title. -/
  slug : String → String

/-- A character of a slug: a dash, a lower-case ASCII letter or a digit. -/
def IsSlugChar (c : Char) : Prop := c = '-' ∨ c.isLower ∨ c.isDigit

instance : DecidablePred IsSlugChar := fun _ => inferInstanceAs (Decidable (_ ∨ _))

/-- What is expected of a slugger: its slugs are made of characters of slugs. -/
def Slugger.WritesSlugs (s : Slugger) : Prop := ∀ title, ∀ c ∈ (s.slug title).toList, IsSlugChar c

end ApiAssembly
