import BuilderApi.Table.Member

/-!
# Reference pages

Every entry that is not private has a page in Markdown: its signature, its description, what its
constructor does with arguments of each type, and, for a builder, an overview of its members and a
block for each of them. Members come from the same plan as the accessors of the generated module, in
the order of their names.
-/

namespace BuilderApi

namespace Reference

/-! ### Signatures -/

/-- The arguments of a constructor. -/
def arguments : Option (List ArgBinding) → String
  | some bindings => ", ".intercalate (bindings.map ArgBinding.displayName)
  | none => "...values"

/-- The arguments of a member. -/
def memberArguments (member : Member) : String :=
  match member.kind with
  | .property _ true => "...value"
  | .property _ false => "value"
  | .extension ext => ext.binding.displayName
  | .delegation _ | .invocation _ => "...values"

/-! ### Dispatch -/

/-- The type of an argument that a case documents. -/
def caseType (c : DocCase) : String :=
  if c.onItems then c.check.name ++ " array" else c.check.name

/-- The bullet of a case; with a property, the key is one of that property. -/
def caseLine (prop : Option String) (c : DocCase) : String :=
  let target := match prop with
    | some p => p ++ "." ++ c.key
    | none => c.key
  "- If the argument is " ++ article c.check.name ++ " " ++ code (caseType c) ++ ", sets the " ++
    code target ++ " property.\n"

/-- The heading of a dispatch paragraph. -/
def dispatchHeading : String :=
  "The behavior of this method depends on the argument type:\n\n"

/-- The last bullet of a dispatch paragraph. -/
def otherwiseLine : Option String → String
  | some p => "- Otherwise, sets the " ++ code p ++ " property."
  | none => "- Otherwise, sets the properties defined on the input argument(s), if provided."

/-- What a dispatch table does, without the line feed in front. Without a property the cases
describe the arguments of a constructor. -/
def dispatchLines (prop : Option String) (table : TypeTable) : String :=
  dispatchHeading ++ String.join (table.docCases.map (caseLine prop)) ++ otherwiseLine prop

/-- A paragraph on what a dispatch table does. -/
def dispatchParagraph (prop : Option String) (table : TypeTable) : String :=
  "\n" ++ dispatchLines prop table

/-! ### Members -/

/-- The description of a member: its own, else that of the schema property of the same name; and,
for an extension with a dispatch table, what the table does. -/
def memberDescription (member : Member) (shape : Properties) : Option String :=
  let desc := member.desc.or ((shape.get? member.name).bind Json.description)
  match member.kind with
  | .extension ext =>
    match ext.types with
    | none => desc
    | some table =>
      let prop := some (ext.binding.prop?.getD member.name)
      match desc with
      | some d => some (d ++ "\n" ++ dispatchParagraph prop table)
      | none => some (dispatchLines prop table)
  | _ => desc

/-- The bullet of a member in the overview. -/
def overviewLine (member : Member) : String :=
  "* <a href=\"#" ++ member.name ++ "\">" ++ member.name ++ "</a>\n"

/-- The anchor and the signature of a member. -/
def anchorLines (name : String) (member : Member) : String :=
  "<a id=\"" ++ member.name ++ "\" href=\"#" ++ member.name ++ "\">#</a>\n<em>" ++ name ++
    "</em>.<b>" ++ member.name ++ "</b>(<em>" ++ memberArguments member ++ "</em>)\n"

/-- The block of a member. -/
def memberBlock (name : String) (shape : Properties) (member : Member) : String :=
  anchorLines name member ++
    (match memberDescription member shape with
      | some desc => "\n" ++ desc ++ "\n"
      | none => "") ++ "\n"

/-- The overview and the blocks of the members, if there are any. -/
def memberSections (name : String) (shape : Properties) (members : List Member) : String :=
  if members.isEmpty then ""
  else
    "## <code>" ++ name ++ "</code> Method Overview\n\n" ++
      String.join (members.map overviewLine) ++ "\n" ++
      "## <code>" ++ name ++ "</code> API Reference\n\n" ++
      String.join (members.map (memberBlock name shape))

/-! ### Pages -/

/-- The signature, the description, and what the constructor does with its arguments. -/
def pageHead (lead name : String) (entry : Entry) : String :=
  lead ++ "<b>" ++ name ++ "</b>(<em>" ++ arguments entry.args ++ "</em>)\n" ++
    (match entry.desc with
      | some desc => "\n" ++ desc
      | none => "") ++
    (match (entry.method?.bind (·.typeTable 0)) with
      | some table => "\n" ++ dispatchParagraph none table
      | none => "") ++ "\n"

/-- The rest of a page. -/
def pageBody (name : String) (shape : Properties) : Entry → String
  | .external _ => ""
  | .method spec =>
    match spec.ctr with
    | some proxy => "Returns a " ++ link proxy.call ++ " instance.\n"
    | none => "\n" ++ memberSections name shape (Member.sorted spec shape)

/-- The page of an entry under its public name; `lead` stands in front of the documented name. -/
def page (name : String) (entry : Entry) (shape : Properties) (lead : String) : String :=
  pageHead lead name entry ++ pageBody name shape entry

end Reference

end BuilderApi
