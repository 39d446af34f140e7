import BuilderApi.Builder.Construct

/-!
# Calling members of builders

A call finds its member in the member plan and follows its kind. Property and extension accessors
give a new builder, or, when they are called without arguments, the value of their property. A
delegation constructs a companion, hands it the state of the builder, and may call the companion in
turn; an invocation calls an external function.

Only delegations call further members. What such a call does next depends on the entry, the member
and whether there are arguments, so a chain of delegations longer than twice their number never
ends; the bound below is that number.
-/

namespace BuilderApi

namespace Session

/-! ### Properties and extensions -/

/-- Reads a property, or writes it: its one value, or all arguments flattened. Fixed assignments
follow the write. -/
def access (s : Session) (b : Builder) (prop : String) (spread : Bool) (types : Option TypeTable)
    (set : Fields Json) (args : List Arg) : Arg :=
  match args with
  | [] => .json (b.read prop)
  | first :: _ =>
    let value :=
      if spread then
        .arr ((Arg.flatten args).map fun arg => s.value false (arg.dispatch types))
      else s.value false (first.dispatch types)
    .builder ((b.put prop value).apply set)

/-- The value of a property that an accretion builds on: one that a script takes for true. -/
def standing (b : Builder) (prop : String) : Option Json :=
  (b.get? prop).filter Json.truthy

/-- A list that is unwrapped when it has one element. -/
def unwrap : List Json → Json
  | [value] => value
  | values => .arr values

/-- The value that merged arguments leave in a property. -/
def stored (s : Session) (b : Builder) (prop : String) (policy : MergePolicy)
    (accretion : Accretion) (values : List Arg) : Json :=
  match accretion with
  | .replace => s.merge policy values
  | .object => s.merge policy ((standing b prop).toList.map Arg.json ++ values)
  | .array =>
    let old := match standing b prop with
      | some (.arr items) => items
      | some value => [value]
      | none => []
    unwrap (old ++ [s.merge policy values])

/-- Merges the arguments of an extension into its property. Without arguments and without a literal
in front the property is read. -/
def merging (s : Session) (b : Builder) (prop : String) (ext : Extension) (accretion : Accretion)
    (args : List Arg) : Arg :=
  if ext.pre.isNone && args.isEmpty then .json (b.read prop)
  else
    let values := (ext.pre.toList.map Arg.json ++ args).map (Arg.dispatch ext.types)
    .builder ((b.put prop (s.stored b prop ext.policy accretion values)).apply ext.set)

/-- Follows an extension. -/
def extend (s : Session) (b : Builder) (ext : Extension) (args : List Arg) : Arg :=
  match ext.binding with
  | .copy => .builder (b.apply ext.set)
  | .plain prop => s.access b prop false ext.types ext.set args
  | .spread prop => s.access b prop true ext.types ext.set args
  | .merge accretion prop => s.merging b prop ext accretion args

/-! ### Delegations and invocations -/

/-- A call of a member: the builder, the member's name, the arguments. -/
abbrev Caller := Builder → String → List Arg → Run Arg

/-- Cuts a list to at most so many items. -/
def limit {α : Type} (count : Option Nat) (items : List α) : List α :=
  match count with
  | some n => items.take n
  | none => items

/-- Hands the state of a builder to its companion: by the accessor that the delegation names, which
has to give a builder, or by assignment. -/
def transfer (call : Caller) (b companion : Builder) (pass : Delegation) : Run Builder :=
  match pass.selfMethod with
  | none => made (companion.assign (.builder b))
  | some method => do
    match ← call companion method [.builder b] with
    | .builder out => return out
    | .json _ => throw (.expectedBuilder method)

/-- Follows a delegation. -/
def delegate (s : Session) (call : Caller) (b : Builder) (pass : Delegation) (args : List Arg) :
    Run Arg := do
  let args := limit pass.args args
  match pass.prop with
  | some prop =>
    let companion ← transfer call b (← s.construct pass.call []) pass
    call companion prop args
  | none =>
    return .builder (← transfer call b (← s.construct pass.call args) pass)

/-- Follows an invocation. -/
def invoke (s : Session) (b : Builder) (call : Invocation) (args : List Arg) : Run Arg :=
  match s.functions.get? call.call with
  | none => throw (.unboundFunction call.call)
  | some f => return .json (f (s.toJson b false) ((limit call.args args).map (s.value false)))

/-! ### Calls -/

/-- What an accessor gives: a new builder, or a value. -/
def give : Arg → Making Arg
  | .builder b => .builder <$> made b
  | .json value => return .json value

/-- Calls a member, given how members of companions are called. -/
def callWith (s : Session) (further : Caller) : Caller := fun b method args => do
  let spec ← Run.ofExcept (s.table.builder b.entry)
  match Member.find spec (s.shapes.shape b.entry) method with
  | none => throw (.unknownMember b.entry method)
  | some member =>
    match member.kind with
    | .property _ array => give (s.access b member.name array none [] args)
    | .extension ext => give (s.extend b ext args)
    | .delegation pass => s.delegate further b pass args
    | .invocation call => s.invoke b call args

/-- Calls a member, with at most so many calls inside one another. -/
def callWithin (s : Session) : Nat → Caller
  | 0 => s.callWith fun b method _ => throw (.endlessDelegation b.entry method)
  | bound + 1 => s.callWith (s.callWithin bound)

/-- The number of delegations of a table. -/
def delegationCount : Table → Nat
  | [] => 0
  | (_, .method spec) :: rest => spec.pass.length + delegationCount rest
  | (_, .external _) :: rest => delegationCount rest

/-- Calls a member of a builder. -/
def call (s : Session) : Caller := s.callWithin (2 * delegationCount s.table)

end Session

end BuilderApi
