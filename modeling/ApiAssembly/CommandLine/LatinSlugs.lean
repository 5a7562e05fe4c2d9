import ApiAssembly.Output.Slug

/-!
# CommandLine — LatinSlugs — slugs of titles in Latin letters

The slugger that the command line brings along is one for titles in ASCII and the letters of the
Latin-1 range. It keeps ASCII digits and letters, in lower case, and spells the other letters in
ASCII first. Whatever else stands between them becomes one dash, and there is none at the ends.
Titles in other scripts need a slugger that can spell them.
-/

namespace ApiAssembly

namespace LatinSlugs

/-- The ASCII spelling of the letters from U+00AA to U+00FF. -/
def latinSpellings : List (Char × String) := [
  ('ª', "a"), ('µ', "u"), ('º', "o"),
  ('À', "A"), ('Á', "A"), ('Â', "A"), ('Ã', "A"), ('Ä', "A"), ('Å', "A"), ('Æ', "AE"), ('Ç', "C"),
  ('È', "E"), ('É', "E"), ('Ê', "E"), ('Ë', "E"), ('Ì', "I"), ('Í', "I"), ('Î', "I"), ('Ï', "I"),
  ('Ð', "D"), ('Ñ', "N"), ('Ò', "O"), ('Ó', "O"), ('Ô', "O"), ('Õ', "O"), ('Ö', "O"), ('Ø', "O"),
  ('Ù', "U"), ('Ú', "U"), ('Û', "U"), ('Ü', "U"), ('Ý', "Y"), ('Þ', "Th"), ('ß', "ss"),
  ('à', "a"), ('á', "a"), ('â', "a"), ('ã', "a"), ('ä', "a"), ('å', "a"), ('æ', "ae"), ('ç', "c"),
  ('è', "e"), ('é', "e"), ('ê', "e"), ('ë', "e"), ('ì', "i"), ('í', "i"), ('î', "i"), ('ï', "i"),
  ('ð', "d"), ('ñ', "n"), ('ò', "o"), ('ó', "o"), ('ô', "o"), ('õ', "o"), ('ö', "o"), ('ø', "o"),
  ('ù', "u"), ('ú', "u"), ('û', "u"), ('ü', "u"), ('ý', "y"), ('þ', "th"), ('ÿ', "y")]

/-- A character in ASCII; a dash for what has no spelling. -/
def spellings (c : Char) : List Char :=
  if c.toNat < 128 then [c]
  else match latinSpellings.find? fun s => s.1 == c with
    | some s => s.2.toList
    | none   => ['-']

/-- The slug of the rest of a text; `pending` says that a dash is due before the next letter. -/
def slugFrom (started pending : Bool) : List Char → List Char
  | []      => []
  | c :: cs =>
    if c.isAlphanum then
      if started && pending then '-' :: c.toLower :: slugFrom true false cs
      else c.toLower :: slugFrom true false cs
    else slugFrom started true cs

/-- The slug of a title. -/
def slug (title : String) : String :=
  String.ofList (slugFrom false false (title.toList.flatMap spellings))

end LatinSlugs

/-- The slugger for titles in Latin letters. -/
instance latinSlugger : Slugger := ⟨LatinSlugs.slug⟩

end ApiAssembly
