import BuilderApi.Text.Split

/-!
# Paths

A path is a text of segments between slashes. Empty segments and single dots are passed over, except
for a single dot at the start of a relative path; two dots are a segment of their own.
-/

namespace BuilderApi

namespace Path

/-- Does the path start at the root? -/
def isAbsolute (path : String) : Bool := path.toList.head? == some '/'

/-- A path below a root. An absolute path stays as it is. -/
def join (root path : String) : String :=
  if isAbsolute path ∨ root = "" then path
  else if root.toList.getLast? = some '/' then root ++ path
  else root ++ "/" ++ path

/-- Segments without those at the end that are passed over. -/
def trimEnd (segments : List String) : List String :=
  (segments.reverse.dropWhile fun segment => segment == "" || segment == ".").reverse

/-- The segments that a path starts with without naming anything yet, and the others. -/
def splitLead (path : String) : List String × List String :=
  match slashParts path with
  | "" :: rest => if isAbsolute path then ([""], rest) else ([], "" :: rest)
  | "." :: rest => (["."], rest)
  | segments => ([], segments)

/-- The path of segments; the root is a slash. -/
def ofSegments : List String → String
  | [""] => "/"
  | segments => "/".intercalate segments

/-- The path without its last segment; the root and the empty path have none. -/
def parent? (path : String) : Option String :=
  let (lead, rest) := splitLead path
  match trimEnd rest with
  | [] => if lead = ["."] then some "" else none
  | segments => some (ofSegments (lead ++ trimEnd segments.dropLast))

/-- So many ancestors of a path, from its parent upwards. -/
def ancestorsUpTo (path : String) : Nat → List String
  | 0 => []
  | bound + 1 =>
    match parent? path with
    | some parent => parent :: ancestorsUpTo parent bound
    | none => []

/-- The ancestors of a path, from its parent upwards. -/
def ancestors (path : String) : List String :=
  ancestorsUpTo path (slashParts path).length

/-- Does the path end with a slash? -/
def endsWithSlash (path : String) : Bool := path.toList.getLast? == some '/'

/-- The names that have to be followed to reach a path. -/
def steps (path : String) : List String :=
  (slashParts path).filter (· ≠ "")

end Path

end BuilderApi
