import BuilderApi.Proofs.Script.Accessors

/-!
# The skeleton of a generated module

The lines of a module that begin at column zero are its **skeleton**: they open and close its
functions. Whatever stands inside a function is indented, since the listing inside is balanced, and
a balanced listing never steps out of its block (`BuilderApi.Listing.margin_body_inside`). So the
skeleton can be written down from the name of the entry and its members alone
(`BuilderApi.Script.margin_methodListing`), whatever the entry contains otherwise.
-/

namespace BuilderApi

/-! ### Lines at column zero -/

namespace Listing

/-- Does the line begin at column zero? An empty line does not begin. -/
def atMargin (line : String) : Bool :=
  match line.toList with
  | [] => false
  | c :: _ => c != ' '

/-- The lines that begin at column zero. -/
def margin (lines : List String) : List String := lines.filter atMargin

@[simp] theorem margin_append (a b : List String) : margin (a ++ b) = margin a ++ margin b :=
  List.filter_append ..

theorem atMargin_indented (depth : Nat) (text : String) :
    atMargin (indentation (depth + 1) ++ text) = false := by
  simp [atMargin, indentation, Nat.mul_succ, List.replicate_succ]

/-- One level up makes no difference but one, so the level below is never left and no line stands at
column zero: an outward step from level zero would not be undone. -/
theorem not_atMargin_of_level {listing : Listing} {depth : Nat}
    (h : level (depth + 1) listing = level depth listing + 1) :
    ∀ line ∈ body (depth + 1) listing, atMargin line = false := by
  induction listing generalizing depth with
  | nil => exact List.forall_mem_nil _
  | cons step rest ih =>
    cases step with
    | line text =>
      refine List.forall_mem_cons.2 ⟨?_, ih h⟩
      split
      · rfl
      · exact atMargin_indented depth text
    | indent =>
      have hrest : level (depth + 1 + 1) rest = level (depth + 1) rest + 1 := h
      exact ih hrest
    | outdent =>
      cases depth with
      | zero => exact absurd h (Nat.ne_of_lt (Nat.lt_succ_self _))
      | succ depth => exact ih h
    | need source symbols => exact ih h

/-- **Inside a block nothing stands at column zero.** -/
theorem margin_body_inside {listing : Listing} (h : Balanced listing) (depth : Nat) :
    margin (body (depth + 1) listing) = [] := by
  rw [margin, List.filter_eq_nil_iff]
  intro line hline
  simp [not_atMargin_of_level (by rw [h, h]) line hline]

/-- Of a block only what opens and closes it stands at column zero. -/
theorem margin_block {opening closing : String} {inner : Listing} (h : Balanced inner)
    (hopening : atMargin opening = true) (hclosing : atMargin closing = true) :
    margin (body 0 (block opening inner closing)) = [opening, closing] := by
  have hne : ∀ {line : String}, atMargin line = true → line ≠ "" := by
    rintro _ hline rfl
    cases hline
  have hlines :
      body 0 (block opening inner closing) = [opening] ++ body (0 + 1) inner ++ [closing] := by
    rw [block, List.cons_append, body, if_neg (hne hopening), List.cons_append, body, body_append,
      h, body, body, if_neg (hne hclosing)]
    simp [indentation, body]
  rw [hlines, margin_append, margin_append, margin_body_inside h 0]
  simp [margin, hopening, hclosing]

/-- A balanced listing in front does not indent what follows. -/
theorem margin_body_append {a : Listing} (ha : Balanced a) (b : Listing) :
    margin (body 0 (a ++ b)) = margin (body 0 a) ++ margin (body 0 b) := by
  rw [body_append, ha, margin_append]

end Listing

namespace Script

open Listing

/-! ### The functions of a module -/

/-- A line that begins with text of its own begins at column zero. -/
theorem atMargin_own {text rest : String} (h : ∃ c ∈ text.toList.head?, c ≠ ' ') :
    atMargin (text ++ rest) = true := by
  obtain ⟨c, hc, hne⟩ := h
  obtain ⟨tail, htail⟩ : ∃ tail, text.toList = c :: tail := List.head?_eq_some_iff.1 hc
  simp [atMargin, htail, hne]

/-- What opens an exported factory. -/
def factoryOpening (name : String) : String := "export function " ++ name ++ "(...args) \x7b"

/-- What opens a constructor. -/
def constructorOpening (className : String) : String := "function " ++ className ++ "(...args) \x7b"

theorem margin_factory {name : String} {inner : Listing} (h : Balanced inner) :
    margin (body 0 (factory name inner)) = [factoryOpening name, "\x7d"] := by
  refine margin_block h ?_ rfl
  simp only [String.append_assoc]
  exact atMargin_own ⟨'e', by decide, by decide⟩

theorem margin_constructor (className : String) (spec : MethodSpec) :
    margin (body 0 (constructor className spec)) = [constructorOpening className, "\x7d"] := by
  have hinside := (plain_constructorLines spec).balanced
  have hopening : atMargin (constructorOpening className) = true := by
    simp only [constructorOpening, String.append_assoc]
    exact atMargin_own ⟨'f', by decide, by decide⟩
  rw [Script.constructor, margin_body_append (hinside.block _ _)]
  exact congrArg (· ++ margin (body 0 [Listing.blank])) (margin_block hinside hopening rfl)

/-- Of an accessor the line that opens it stands at column zero, and the one that closes it. -/
theorem IsAccessor.margin {name params : String} {listing : Listing}
    (h : IsAccessor name params listing) :
    Listing.margin (body 0 listing) = [opening name params, "\x7d;"] := by
  induction h with
  | accessor h =>
    have hopening : atMargin (opening name params) = true := by
      simp only [opening, String.append_assoc]
      exact atMargin_own ⟨'p', by decide, by decide⟩
    rw [Script.accessor, margin_body_append (h.balanced.block _ _)]
    exact congrArg (· ++ Listing.margin (body 0 [Listing.blank]))
      (margin_block h.balanced hopening rfl)
  | need source symbols _ ih => exact ih

/-- The lines at column zero that belong to accessors. -/
def accessorSkeleton (name params : String) : List String := [opening name params, "\x7d;"]

/-- The skeleton of a module behind its imports: the constructor, the prototype, the accessors of
the members, the serializer and the factory; or, for a proxy, the factory alone. -/
def skeleton (shape : Properties) (name : String) (spec : MethodSpec) : List String :=
  (if spec.isProxy then []
  else
    [constructorOpening ("_" ++ name), "\x7d", "// eslint-disable-next-line no-unused-vars",
      "const prototype = proto(" ++ ("_" ++ name) ++ ");"] ++
    (Member.plan spec shape).flatMap (fun member =>
      accessorSkeleton member.name (memberParams member)) ++
    (spec.serial.toList.flatMap fun serial =>
      accessorSkeleton "toJSON" (serializerParams serial))) ++
  [factoryOpening name, "\x7d"]

theorem margin_proxyModule (name : String) (spec : MethodSpec) (proxy : Proxy) :
    margin (body 0 (proxyModule name spec proxy)) = [factoryOpening name, "\x7d"] := by
  unfold proxyModule
  simp only [Listing.useFrom, body]
  split
  · exact margin_factory (Plain.line Plain.nil).balanced
  · exact margin_factory (Plain.line ((plain_setLines _ _).append (Plain.line Plain.nil))).balanced

theorem margin_members (members : List Member) :
    margin (body 0 (members.flatMap memberAccessor)) =
      members.flatMap fun member => accessorSkeleton member.name (memberParams member) := by
  induction members with
  | nil => rfl
  | cons member members ih =>
    have hmember := isAccessor_memberAccessor member
    rw [List.flatMap_cons, margin_body_append hmember.single.balanced, hmember.margin, ih]
    rfl

/-- The lines that make the prototype. -/
theorem margin_prototypeLines (name : String) :
    margin (body 0 [Listing.use "proto", .line "// eslint-disable-next-line no-unused-vars",
      .line ("const prototype = proto(" ++ ("_" ++ name) ++ ");"), Listing.blank]) =
      ["// eslint-disable-next-line no-unused-vars",
        "const prototype = proto(" ++ ("_" ++ name) ++ ");"] := by
  have hline : atMargin ("const prototype = proto(" ++ ("_" ++ name) ++ ");") = true := by
    rw [String.append_assoc]
    exact atMargin_own ⟨'c', by decide, by decide⟩
  have hne : "const prototype = proto(" ++ ("_" ++ name) ++ ");" ≠ "" := by
    intro hempty
    rw [hempty] at hline
    cases hline
  have hcomment : atMargin "// eslint-disable-next-line no-unused-vars" = true := rfl
  have hblank : atMargin "" = false := rfl
  simp only [Listing.use, Listing.blank, body, if_neg hne]
  simp [margin, indentation, hline, hcomment, hblank]

/-- **The lines of a module at column zero are its skeleton.** -/
theorem margin_methodListing (shape : Properties) (name : String) (spec : MethodSpec) :
    margin (body 0 (methodListing shape name spec)) = skeleton shape name spec := by
  unfold methodListing skeleton
  cases hctr : spec.ctr with
  | some proxy =>
    simp only [MethodSpec.isProxy, hctr, Option.isSome_some, if_true]
    exact margin_proxyModule name spec proxy
  | none =>
    have hprototype :
        Plain [Listing.use "proto", .line "// eslint-disable-next-line no-unused-vars",
        .line ("const prototype = proto(" ++ ("_" ++ name) ++ ");"), Listing.blank] :=
      Plain.need _ _ (Plain.line (Plain.line (Plain.line Plain.nil)))
    have hmembers : Balanced ((Member.plan spec shape).flatMap memberAccessor) :=
      balanced_flatMap fun member _ => (isAccessor_memberAccessor member).single.balanced
    have hreturn : Plain [.line ("return new " ++ ("_" ++ name) ++ "(...args);")] :=
      Plain.line Plain.nil
    simp only [MethodSpec.isProxy, hctr, Option.isSome_none, Bool.false_eq_true, if_false,
      builderModule, List.append_assoc]
    rw [margin_body_append (plain_constructor _ spec).balanced,
      margin_body_append hprototype.balanced,
      margin_body_append hmembers, margin_constructor, margin_prototypeLines, margin_members]
    cases spec.serial with
    | none =>
      dsimp only
      rw [List.nil_append, margin_factory hreturn.balanced]
      rfl
    | some serial =>
      have hserial := isAccessor_serializer serial
      dsimp only
      rw [margin_body_append hserial.single.balanced, hserial.margin,
        margin_factory hreturn.balanced]
      rfl

/-- The skeleton of a module is among its lines. -/
theorem mem_moduleLines_of_mem_skeleton {shape : Properties} {name : String} {spec : MethodSpec}
    {line : String} (h : line ∈ skeleton shape name spec) : line ∈ moduleLines shape name spec := by
  rw [← margin_methodListing] at h
  exact List.mem_append_right _ (List.mem_cons_of_mem _ (List.mem_of_mem_filter h))

/-! ### Names in opening lines -/

/-- What stands in front of the last place of a character. -/
def frontOfLast (c : Char) (text : List Char) : List Char :=
  ((text.reverse.dropWhile (· != c)).drop 1).reverse

theorem frontOfLast_append {c : Char} {b : List Char} (h : c ∉ b) (a : List Char) :
    frontOfLast c (a ++ c :: b) = a := by
  have hb : ∀ x ∈ b.reverse, (x != c) = true := by
    intro x hx
    simpa using fun heq : x = c => h (heq ▸ List.mem_reverse.1 hx)
  have hreverse : (a ++ c :: b).reverse = b.reverse ++ c :: a.reverse := by simp
  rw [frontOfLast, hreverse, List.dropWhile_append_of_pos hb, List.dropWhile_cons_of_neg (by simp)]
  simp

end Script

end BuilderApi
