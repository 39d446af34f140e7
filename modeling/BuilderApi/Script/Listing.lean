import BuilderApi.Fields

/-!
# Listings: script text with its imports

A listing is a list of steps: lines, changes of indentation, and needs for symbols of other modules.
Needs may be recorded anywhere, next to the line that uses the symbol; the text of a listing names
them all in front.

The text has one import line per source, the default source first and the others in order of their
first need, each with its symbols in code-point order and without repetition; then an empty line;
then the lines, where a line that is not empty stands behind two blanks for every level of
indentation. The level never goes below zero.
-/

namespace BuilderApi

/-- A step of a listing. -/
inductive ListingStep where
  /-- A line of text, which may be empty. -/
  | line (text : String)
  /-- One level further in. -/
  | indent
  /-- One level back out. -/
  | outdent
  /-- Symbols of a source, the default one if none is named. -/
  | need (source : Option String) (symbols : List String)
deriving DecidableEq, Inhabited

/-- A listing: steps in order. -/
abbrev Listing := List ListingStep

namespace Listing

/-- An empty line. -/
def blank : ListingStep := .line ""

/-- Needs a symbol of the default source. -/
def use (symbol : String) : ListingStep := .need none [symbol]

/-- Needs symbols of the default source. -/
def useAll (symbols : List String) : ListingStep := .need none symbols

/-- Needs a symbol of another source. -/
def useFrom (symbol source : String) : ListingStep := .need (some source) [symbol]

/-- A line, a block one level further in, and a line that closes it. -/
def block (opening : String) (body : Listing) (closing : String) : Listing :=
  .line opening :: .indent :: body ++ [.outdent, .line closing]

/-! ### The ledger of imports -/

/-- Puts a symbol into a list in code-point order, unless it is there. -/
def insertSymbol (symbol : String) : List String → List String
  | [] => [symbol]
  | other :: rest =>
    if symbol = other then other :: rest
    else if symbol < other then symbol :: other :: rest
    else other :: insertSymbol symbol rest

/-- Records symbols of a source. -/
def record (ledger : Fields (List String)) (source : String) (symbols : List String) :
    Fields (List String) :=
  ledger.put source (symbols.foldl (fun acc symbol => insertSymbol symbol acc)
    ((ledger.get? source).getD []))

/-- Records the needs of one step. -/
def recordStep (main : String) (ledger : Fields (List String)) : ListingStep → Fields (List String)
  | .need source symbols => record ledger (source.getD main) symbols
  | _ => ledger

/-- The symbols that a listing needs, by source; `main` is the default source. -/
def ledger (main : String) (listing : Listing) : Fields (List String) :=
  listing.foldl (recordStep main) [(main, [])]

/-- The import line of a source. -/
def importLine (source : String) (symbols : List String) : String :=
  "import \x7b" ++ ", ".intercalate symbols ++ "\x7d from './" ++ source ++ "';"

/-! ### The lines -/

/-- The blanks in front of a line. -/
def indentation (depth : Nat) : String := String.ofList (List.replicate (2 * depth) ' ')

/-- The lines of a listing that starts at this level. -/
def body (depth : Nat) : Listing → List String
  | [] => []
  | .line text :: rest => (if text = "" then "" else indentation depth ++ text) :: body depth rest
  | .indent :: rest => body (depth + 1) rest
  | .outdent :: rest => body (depth - 1) rest
  | .need _ _ :: rest => body depth rest

/-- The text of a listing; `main` is the default source. -/
def text (main : String) (listing : Listing) : String :=
  "\n".intercalate
    ((ledger main listing).map (fun field => importLine field.1 field.2) ++ "" :: body 0 listing)

end Listing

end BuilderApi
