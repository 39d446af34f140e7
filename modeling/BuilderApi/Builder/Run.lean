import BuilderApi.Builder.Basic

/-!
# Runs of builders

What a constructor or a call does is a **run**: it makes identifiers and builders on its way, and
gives a result at the end or fails. A run is data, so that one text of a function serves whoever
asks for less or for more of what is made. A session asks for the result and the number of
identifiers, which all of its runs share (`BuilderApi.Making.run`).

New identifiers are a base and a number, which counts the identifiers of a session.
-/

namespace BuilderApi

/-- What can go wrong when builders are run. -/
inductive BuilderError where
  /-- The table has no entry of this name. -/
  | unknownEntry (name : String)
  /-- The builder has no member of this name. -/
  | unknownMember (owner method : String)
  /-- No external function of this name is registered. -/
  | unboundFunction (name : String)
  /-- The entry is external and cannot be constructed. -/
  | externalEntry (name : String)
  /-- The proxy leads back to itself. -/
  | proxyCycle (name : String)
  /-- An accessor that has to give a builder gives a value. -/
  | expectedBuilder (method : String)
  /-- The delegation calls itself without end. -/
  | endlessDelegation (owner method : String)
deriving DecidableEq, Inhabited

/-- The wording of an error. -/
def BuilderError.message : BuilderError → String
  | .unknownEntry name => "no method named `" ++ name ++ "` in the specification table"
  | .unknownMember owner method => "`" ++ owner ++ "` has no member named `" ++ method ++ "`"
  | .unboundFunction name => "external function `" ++ name ++ "` is not registered"
  | .externalEntry name =>
    "`" ++ name ++ "` is re-exported from an external module and cannot be constructed"
  | .proxyCycle name => "proxy `" ++ name ++ "` leads back to itself"
  | .expectedBuilder method => "`" ++ method ++ "` expected a builder instance, got a plain value"
  | .endlessDelegation owner method => "`" ++ owner ++ "." ++ method ++ "` delegates without end"

/-- An identifier that was made. -/
structure Identifier where
  /-- The base that the table chooses. -/
  base : String
  /-- The number that the session counts. -/
  number : Nat
deriving DecidableEq, Inhabited

/-- The text of an identifier. -/
def Identifier.text (identifier : Identifier) : String :=
  identifier.base ++ toString identifier.number

/-- What is made on the way to a result. -/
inductive Making (α : Type) where
  /-- Nothing more is made. -/
  | give (a : α)
  /-- A new identifier is made from a base, and its text is used. -/
  | identify (base : String) (next : String → Making α)
  /-- A builder is made. -/
  | enter (b : Builder) (next : Making α)

namespace Making

variable {α β : Type}

/-- Goes on from the result. -/
def bind : Making α → (α → Making β) → Making β
  | give a, next => next a
  | identify base rest, next => identify base fun text => (rest text).bind next
  | enter b rest, next => enter b (rest.bind next)

instance : Monad Making where
  pure := give
  bind := bind

/-- The result, and how many identifiers are counted behind it, where so many are counted in front
of it. -/
def run : Making α → Nat → α × Nat
  | give a, count => (a, count)
  | identify base next, count => (next (Identifier.text ⟨base, count + 1⟩)).run (count + 1)
  | enter _ next, count => next.run count

end Making

/-- A new identifier. -/
def newIdentifier (base : String) : Making String := .identify base .give

/-- A builder that is made. -/
def made (b : Builder) : Making Builder := .enter b (.give b)

/-- A run of builders: it may fail, and what it has made is made also when it fails. -/
abbrev Run := ExceptT BuilderError Making

/-- A result without a run. -/
def Run.ofExcept {α : Type} (result : Except BuilderError α) : Run α := ExceptT.mk (pure result)

end BuilderApi
