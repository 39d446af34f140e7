import BuilderApi.Text.Uppercase

/-!
# Words and markup

The small pieces of prose that descriptions are put together from, and the sigils that names carry.
-/

namespace BuilderApi

/-- The indefinite article of a word: "an" before a small vowel, else "a". -/
def article (word : String) : String :=
  match word.toList with
  | c :: _ => if c ∈ ['a', 'e', 'i', 'o', 'u'] then "an" else "a"
  | [] => "a"

/-- The word with its first character in upper case. -/
def capitalize (word : String) : String :=
  match word.toList with
  | [] => ""
  | c :: rest => String.ofList (uppercase c ++ rest)

/-- A word set as code. -/
def code (s : String) : String := "<code>" ++ s ++ "</code>"

/-- A link whose text and target are one word. -/
def link (s : String) : String := "[" ++ s ++ "](" ++ s ++ ")"

/-- What stands behind a sigil, if the text starts with it. -/
def behind? (sigil text : String) : Option String :=
  if sigil.toList.isPrefixOf text.toList then
    some (String.ofList (text.toList.drop sigil.length))
  else none

/-- The text without a sigil in front. -/
def without (sigil text : String) : String :=
  (behind? sigil text).getD text

end BuilderApi
