import BuilderApi.Proofs.Script.Token
import BuilderApi.Table.Dispatch

/-!
# Expressions of script text, and their values

The part of the expression grammar of scripts that dispatch needs: conditionals, which associate to
the right, calls of one argument, items of arrays, `map` with an arrow function whose body returns,
and literals of arrays, objects and plain values. Parsing is by recursive descent and never guesses,
so a text has at most one reading; how deep it may descend is bounded by the number of tokens.

An expression is evaluated in a scope of variables. An object literal in which a name is repeated
gives it its first place and its last value. Two kinds of names are special in scripts and have no
value here: `__proto__`, which does not name a member, and names made of digits, which are put in
front of all others. The helper functions that check types do what `BuilderApi.TypeCheck.holds`
says.
-/

namespace BuilderApi

namespace Script

/-- An expression. -/
inductive Term where
  /-- A variable. -/
  | name (name : String)
  /-- A plain value. -/
  | value (value : Json)
  /-- An array. -/
  | list (items : List Term)
  /-- An object. -/
  | object (members : List (String × Term))
  /-- An item of an array. -/
  | item (list index : Term)
  /-- A call of a function. -/
  | call (function : String) (argument : Term)
  /-- An array whose items are computed from those of another. -/
  | map (list : Term) (parameter : String) (body : Term)
  /-- One of two expressions. -/
  | choice (test yes no : Term)

/-! ### Parsing -/

/-- Words that are no variables. -/
def reserved : List String :=
  ["break", "case", "catch", "class", "const", "continue", "debugger", "default", "delete",
    "do", "else",
    "enum", "export", "extends", "finally", "for", "function", "if", "import", "in", "instanceof",
    "let", "new",
    "return", "static", "super", "switch", "this", "throw", "try", "typeof", "var", "void",
    "while", "with", "yield", "await", "async"]

/-- Reads something off the front of some tokens. -/
abbrev Parser (α : Type) := List Token → Option (α × List Token)

/-- Takes these tokens off the front. -/
def expect : List Token → List Token → Option (List Token)
  | [], tokens => some tokens
  | token :: rest, other :: tokens => if token = other then expect rest tokens else none
  | _ :: _, [] => none

/-- Flips the sign of a numeral. -/
def negated : Number → Number
  | .int n => .int (-n)
  | .double x => .double ⟨(x.bits.toNat + 2 ^ 63).toUInt64⟩

section

variable (sub : Parser Term)

/-- The items of an array literal that is not empty. -/
def items : Nat → Parser (List Term)
  | 0, _ => none
  | bound + 1, tokens => do
    let (item, tokens) ← sub tokens
    match tokens with
    | .mark ']' :: tokens => some ([item], tokens)
    | .mark ',' :: tokens => (items bound tokens).map fun (rest, tokens) => (item :: rest, tokens)
    | _ => none

/-- The name of a member. -/
def memberName : Token → Option String
  | .word name | .string name => some name
  | _ => none

/-- The members of an object literal that is not empty. -/
def members : Nat → Parser (List (String × Term))
  | 0, _ => none
  | _ + 1, [] => none
  | bound + 1, token :: tokens => do
    let name ← memberName token
    let tokens ← expect [.mark ':'] tokens
    let (value, tokens) ← sub tokens
    match tokens with
    | .mark '\x7d' :: tokens => some ([(name, value)], tokens)
    | .mark ',' :: tokens =>
      (members bound tokens).map fun (rest, tokens) => ((name, value) :: rest, tokens)
    | _ => none

/-- A word as an expression. -/
def wordTerm (name : String) : Option Term :=
  if name = "null" then some (.value .null)
  else if name = "true" then some (.value (.bool true))
  else if name = "false" then some (.value (.bool false))
  else if name ∈ reserved then none
  else some (.name name)

/-- An expression that is not put together by operators. -/
def primary (bound : Nat) : Parser Term
  | .word name :: tokens => (wordTerm name).map fun term => (term, tokens)
  | .number n :: tokens => some (.value (.num n), tokens)
  | .string s :: tokens => some (.value (.str s), tokens)
  -- only literals without parts have nothing between their brackets
  | .mark '[' :: .mark ']' :: tokens => some (.list [], tokens)
  | .mark '[' :: tokens => (items sub bound tokens).map fun (items, tokens) => (.list items, tokens)
  | .mark '\x7b' :: .mark '\x7d' :: tokens => some (.object [], tokens)
  | .mark '\x7b' :: tokens =>
    (members sub bound tokens).map fun (members, tokens) => (.object members, tokens)
  | _ => none

/-- The items, calls and maps that follow an expression. -/
def suffixes : Nat → Term → Parser Term
  | 0, _, _ => none
  | bound + 1, term, .mark '[' :: tokens => do
    let (index, tokens) ← sub tokens
    let tokens ← expect [.mark ']'] tokens
    suffixes bound (.item term index) tokens
  -- only the name of a function can be called
  | bound + 1, .name function, .mark '(' :: tokens => do
    let (argument, tokens) ← sub tokens
    let tokens ← expect [.mark ')'] tokens
    suffixes bound (.call function argument) tokens
  | _ + 1, _, .mark '(' :: _ => none
  | bound + 1, term, .mark '.' :: tokens => do
    let tokens ← expect [.word "map", .mark '('] tokens
    match tokens with
    | .word parameter :: tokens => do
      let tokens ← expect [.arrow, .mark '\x7b', .word "return"] tokens
      let (body, tokens) ← sub tokens
      let tokens ← expect [.mark ';', .mark '\x7d', .mark ')'] tokens
      suffixes bound (.map term parameter body) tokens
    | _ => none
  | _ + 1, term, tokens => some (term, tokens)

/-- An operand of a conditional. -/
def operand (bound : Nat) : Parser Term
  | .mark '-' :: .number n :: tokens => some (.value (.num (negated n)), tokens)
  | tokens => do
    let (term, tokens) ← primary sub bound tokens
    suffixes sub bound term tokens

/-- An expression. -/
def conditional (bound : Nat) : Parser Term := fun tokens => do
  let (test, tokens) ← operand sub bound tokens
  match tokens with
  | .mark '?' :: tokens => do
    -- both parts are expressions again, so conditionals associate to the right
    let (yes, tokens) ← sub tokens
    let tokens ← expect [.mark ':'] tokens
    let (no, tokens) ← sub tokens
    some (.choice test yes no, tokens)
  | tokens => some (test, tokens)

end

/-- An expression that is nested at most so deep. -/
def expression : Nat → Parser Term
  | 0, _ => none
  | bound + 1, tokens => conditional (expression bound) (bound + 1) tokens

/-- The expression that a text is. -/
def parse (letters : Letters) (text : String) : Option Term := do
  let tokens ← lex letters text.toList
  match expression tokens.length tokens with
  | some (term, []) => some term
  | _ => none

/-! ### Values -/

/-- The values of the variables. -/
abbrev Scope := String → Option Json

/-- A scope with one more variable, which hides an older one of that name. -/
def Scope.set (scope : Scope) (name : String) (value : Json) : Scope :=
  fun other => if other = name then some value else scope other

/-- The check that a helper function performs. -/
def helperCheck (name : String) : Option TypeCheck :=
  TypeCheck.all.find? fun check => check.helper == name

/-- Does an object literal put a member of this name at the place where it was written? -/
def isMemberName (name : String) : Bool := name != "__proto__" && !name.toList.all Char.isDigit

/-- The object that has these members. -/
def makeObject (members : List (String × Json)) : Option Json :=
  if members.all fun member =>
    isMemberName member.1 then some (.obj (Fields.ofList members)) else none

mutual

/-- The value of an expression. -/
def eval (scope : Scope) : Term → Option Json
  | .name name => scope name
  | .value value => some value
  | .list items => (evalItems scope items).map .arr
  | .object members => (evalMembers scope members).bind makeObject
  | .item list index =>
    match eval scope list, eval scope index with
    | some (.arr items), some (.num (.int (.ofNat n))) => items[n]?
    | _, _ => none
  -- a variable would hide the helper function of its name
  | .call function argument =>
    match scope function, helperCheck function, eval scope argument with
    | none, some check, some value => some (.bool (check.holds value))
    | _, _, _ => none
  | .map list parameter body =>
    match eval scope list with
    | some (.arr items) => (items.mapM fun item => eval (scope.set parameter item) body).map .arr
    | _ => none
  | .choice test yes no =>
    match eval scope test with
    | some value => if value.truthy then eval scope yes else eval scope no
    | none => none

/-- The values of the items of an array. -/
def evalItems (scope : Scope) : List Term → Option (List Json)
  | [] => some []
  | item :: rest =>
    match eval scope item, evalItems scope rest with
    | some value, some values => some (value :: values)
    | _, _ => none

/-- The values of the members of an object. -/
def evalMembers (scope : Scope) : List (String × Term) → Option (List (String × Json))
  | [] => some []
  | (name, member) :: rest =>
    match eval scope member, evalMembers scope rest with
    | some value, some values => some ((name, value) :: values)
    | _, _ => none

end

/-! ### How expressions are read -/

/-- Tokens that do not continue an operand. -/
def EndsOperand (tokens : List Token) : Prop :=
  ∀ token ∈ tokens.head?, token ≠ .mark '[' ∧ token ≠ .mark '(' ∧ token ≠ .mark '.'

/-- Tokens that do not continue an expression. -/
def EndsExpression (tokens : List Token) : Prop :=
  EndsOperand tokens ∧ ∀ token ∈ tokens.head?, token ≠ .mark '?'

/-- These tokens are read as this expression, wherever one may be nested so deep. -/
def ReadsAs (bound : Nat) (tokens : List Token) (term : Term) : Prop :=
  ∀ rest, EndsExpression rest → expression bound (tokens ++ rest) = some (term, rest)

theorem endsExpression_nil : EndsExpression [] := by
  constructor
  · intro token h
    cases h
  · intro token h
    cases h

theorem endsExpression_mark {c : Char} (h : c ∈ [')', ']', '\x7d', ':', ',', ';'])
    (tokens : List Token) :
    EndsExpression (.mark c :: tokens) := by
  simp only [List.mem_cons, List.not_mem_nil, or_false] at h
  rcases h with rfl | rfl | rfl | rfl | rfl | rfl <;>
    simp [EndsExpression, EndsOperand]

theorem endsOperand_choice (tokens : List Token) : EndsOperand (.mark '?' :: tokens) := by
  simp [EndsOperand]

variable {sub : Parser Term}

theorem expect_self (expected tokens : List Token) :
    expect expected (expected ++ tokens) = some tokens := by
  induction expected with
  | nil => cases tokens <;> rfl
  | cons token rest ih => rw [List.cons_append, expect, if_pos rfl, ih]

theorem expect_cons (token : Token) (tokens : List Token) :
    expect [token] (token :: tokens) = some tokens :=
  expect_self [token] tokens

theorem items_last {bound : Nat} {tokens rest : List Token} {term : Term}
    (h : sub (tokens ++ .mark ']' :: rest) = some (term, .mark ']' :: rest)) :
    items sub (bound + 1) (tokens ++ .mark ']' :: rest) = some ([term], rest) := by
  rw [items, h]
  rfl

theorem items_cons {bound : Nat} {tokens more rest : List Token} {term : Term} {terms : List Term}
    (h : sub (tokens ++ .mark ',' :: more) = some (term, .mark ',' :: more))
    (hmore : items sub bound more = some (terms, rest)) :
    items sub (bound + 1) (tokens ++ .mark ',' :: more) = some (term :: terms, rest) := by
  rw [items, h]
  simp only [Option.bind_eq_bind, Option.bind_some, hmore, Option.map_some]

theorem members_last {bound : Nat} {token : Token} {name : String} {tokens rest : List Token}
    {term : Term} (hname : memberName token = some name)
    (h : sub (tokens ++ .mark '\x7d' :: rest) = some (term, .mark '\x7d' :: rest)) :
    members sub (bound + 1) (token :: .mark ':' :: (tokens ++ .mark '\x7d' :: rest)) =
      some ([(name, term)], rest) := by
  rw [members]
  simp only [hname, Option.bind_eq_bind, Option.bind_some, expect_cons, h]

theorem members_cons {bound : Nat} {token : Token} {name : String} {tokens more rest : List Token}
    {term : Term} {terms : List (String × Term)} (hname : memberName token = some name)
    (h : sub (tokens ++ .mark ',' :: more) = some (term, .mark ',' :: more))
    (hmore : members sub bound more = some (terms, rest)) :
    members sub (bound + 1) (token :: .mark ':' :: (tokens ++ .mark ',' :: more)) =
      some ((name, term) :: terms, rest) := by
  rw [members]
  simp only [hname, Option.bind_eq_bind, Option.bind_some, expect_cons, h, hmore, Option.map_some]

/-- An item of an array is read from the brackets behind it. -/
theorem suffixes_item {bound : Nat} {list index : Term} {tokens rest : List Token}
    (h : sub (tokens ++ .mark ']' :: rest) = some (index, .mark ']' :: rest)) :
    suffixes sub (bound + 1) list (.mark '[' :: (tokens ++ .mark ']' :: rest)) =
      suffixes sub bound (.item list index) rest := by
  rw [suffixes]
  simp only [h, Option.bind_eq_bind, Option.bind_some, expect_cons]

/-- A call is read from the parentheses behind the name of a function. -/
theorem suffixes_call {bound : Nat} {function : String} {argument : Term} {tokens rest : List Token}
    (h : sub (tokens ++ .mark ')' :: rest) = some (argument, .mark ')' :: rest)) :
    suffixes sub (bound + 1) (.name function) (.mark '(' :: (tokens ++ .mark ')' :: rest)) =
      suffixes sub bound (.call function argument) rest := by
  rw [suffixes]
  simp only [h, Option.bind_eq_bind, Option.bind_some, expect_cons]

/-- What stands in front of the body of a map. -/
def mapOpening (parameter : String) : List Token :=
  [.mark '.', .word "map", .mark '(', .word parameter, .arrow, .mark '\x7b', .word "return"]

/-- What stands behind it. -/
def mapClosing : List Token := [.mark ';', .mark '\x7d', .mark ')']

/-- A map is read from what stands around its body. -/
theorem suffixes_map {bound : Nat} {list body : Term} {parameter : String}
    {tokens rest : List Token}
    (h : sub (tokens ++ (mapClosing ++ rest)) = some (body, mapClosing ++ rest)) :
    suffixes sub (bound + 1) list (mapOpening parameter ++ (tokens ++ (mapClosing ++ rest))) =
      suffixes sub bound (.map list parameter body) rest := by
  have hopen := expect_self [.word "map", .mark '(']
    (.word parameter :: .arrow :: .mark '\x7b' :: .word "return" ::
      (tokens ++ (mapClosing ++ rest)))
  have hbody := expect_self [.arrow, .mark '\x7b', .word "return"] (tokens ++ (mapClosing ++ rest))
  have hclose := expect_self mapClosing rest
  simp only [List.cons_append, List.nil_append] at hopen hbody
  rw [mapOpening]
  simp only [List.cons_append, List.nil_append]
  rw [suffixes]
  simp only [hopen, hbody, h, Option.bind_eq_bind, Option.bind_some]
  rw [← mapClosing, hclose]
  rfl

theorem suffixes_end {tokens : List Token} (h : EndsOperand tokens) (bound : Nat) (term : Term) :
    suffixes sub (bound + 1) term tokens = some (term, tokens) := by
  unfold suffixes
  split
  · omega
  · exact absurd rfl (h _ (by simp)).1
  · exact absurd rfl (h _ (by simp)).2.1
  · exact absurd rfl (h _ (by simp)).2.1
  · exact absurd rfl (h _ (by simp)).2.2
  · rfl

theorem operand_of_primary {bound : Nat} {tokens rest : List Token} {term : Term}
    (hsign : tokens.head? ≠ some (.mark '-')) (h : primary sub bound tokens = some (term, rest)) :
    operand sub bound tokens = suffixes sub bound term rest := by
  unfold operand
  split
  · exact absurd rfl hsign
  · rw [h]
    rfl

/-- An operand in front of something that does not continue it is an expression. -/
theorem conditional_of_operand {bound : Nat} {tokens rest : List Token} {term : Term}
    (h : operand sub bound tokens = some (term, rest)) (hrest : EndsExpression rest) :
    conditional sub bound tokens = some (term, rest) := by
  rw [conditional, h]
  simp only [Option.bind_eq_bind, Option.bind_some]
  split
  · exact absurd rfl (hrest.2 _ (by simp))
  · rfl

/-- What is read without operators in front of something that does not continue it is an
expression. -/
theorem expression_of_primary {bound : Nat} {tokens rest : List Token} {term : Term}
    (hsign : tokens.head? ≠ some (.mark '-'))
    (h : primary (expression bound) (bound + 1) tokens = some (term, rest))
    (hrest : EndsExpression rest) :
    expression (bound + 1) tokens = some (term, rest) := by
  rw [expression]
  refine conditional_of_operand ?_ hrest
  rw [operand_of_primary hsign h, suffixes_end hrest.1]

/-- **A choice is read from its parts.** -/
theorem conditional_of_choice {bound : Nat} {tokens yesTokens noTokens rest : List Token}
    {test yes no : Term} (htest : operand sub bound tokens =
      some (test, .mark '?' :: (yesTokens ++ .mark ':' :: (noTokens ++ rest))))
    (hyes : sub (yesTokens ++ .mark ':' :: (noTokens ++ rest)) =
      some (yes, .mark ':' :: (noTokens ++ rest)))
    (hno : sub (noTokens ++ rest) = some (no, rest)) :
    conditional sub bound tokens = some (.choice test yes no, rest) := by
  rw [conditional, htest]
  simp only [Option.bind_eq_bind, Option.bind_some, hyes, expect_cons, hno]

end Script

end BuilderApi
