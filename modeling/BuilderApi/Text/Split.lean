/-!
# Splitting at a slash

Pointers and paths are texts whose parts are separated by slashes. A text without a slash is its
only part, and there is always one part more than there are slashes.
-/

namespace BuilderApi

/-- The parts of a text between slashes. -/
def splitSlashes : List Char → List (List Char)
  | [] => [[]]
  | c :: rest =>
    if c = '/' then [] :: splitSlashes rest
    else
      match splitSlashes rest with
      | part :: parts => (c :: part) :: parts
      | [] => [[c]]

/-- The parts of a string between slashes. -/
def slashParts (text : String) : List String :=
  (splitSlashes text.toList).map String.ofList

end BuilderApi
