import BuilderApi.Table.Entry

/-!
# The category index

The index lists every entry that is not private, in one section per category. The categories are in
the order of their first entries, and the entries of a section in table order.
-/

namespace BuilderApi

namespace Reference

/-- The category of entries that declare none. -/
def otherCategory : String := "Other"

/-- The entries that are documented, under their public names. -/
def documented (table : Table) : List (String × Entry) :=
  (table.filter fun field => Visibility.of field.1 ≠ .isPrivate).map fun (name, entry) =>
    (publicName name, entry)

/-- The section of an entry. -/
def sectionOf (entry : Entry) : String := entry.category.getD otherCategory

/-- Adds an entry to the section of its category. -/
def addToSection (sections : Fields (List (String × Entry))) (item : String × Entry) :
    Fields (List (String × Entry)) :=
  sections.put (sectionOf item.2) ((sections.get? (sectionOf item.2)).getD [] ++ [item])

/-- The sections of a table. -/
def sections (table : Table) : Fields (List (String × Entry)) :=
  (documented table).foldl addToSection []

/-- The bullet of an entry. -/
def entryLine (lead : String) (item : String × Entry) : String :=
  "- <a href=\"" ++ item.1 ++ "\">" ++ lead ++ "<b>" ++ item.1 ++ "</b></a> - " ++
    item.2.desc.getD "" ++ "\n"

/-- The text of a section. -/
def sectionText (lead category : String) (items : List (String × Entry)) : String :=
  "\n### " ++ category ++ "\n\n" ++ String.join (items.map (entryLine lead))

/-- The index of a table. -/
def index (table : Table) (title lead : String) : String :=
  "## " ++ title ++ "\n" ++
    String.join ((sections table).map fun (category, items) => sectionText lead category items)

end Reference

end BuilderApi
