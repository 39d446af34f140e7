import BuilderApi.Text.Prose

/-!
# Names of entries

The first character of an entry's name says who sees the entry. A private entry is generated, but
neither indexed nor documented; an external entry is re-exported from another module under its name
without the marker.
-/

namespace BuilderApi

/-- Who sees an entry. -/
inductive Visibility where
  /-- Everyone. -/
  | isPublic
  /-- Only other entries. -/
  | isPrivate
  /-- Everyone, from another module. -/
  | isExternal
deriving DecidableEq, Inhabited

/-- The visibility that a name declares. -/
def Visibility.of (name : String) : Visibility :=
  match name.toList with
  | '_' :: _ => .isPrivate
  | '$' :: _ => .isExternal
  | _ => .isPublic

/-- The name without the external marker. -/
def publicName (name : String) : String := without "$" name

end BuilderApi
