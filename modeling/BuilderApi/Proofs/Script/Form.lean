import BuilderApi.Builder.Basic
import BuilderApi.Proofs.Script.Cascade

/-!
# The expressions of serializers

The serializer of a generated module returns one expression. It is made of four things that only
serializers have, which are the plain record of the builder, its hidden fields, the flag, and the
call that moves fields down, and of parts that are expressions of scripts as everywhere else
(`BuilderApi.Script.Term`). Its grammar is put on top of theirs, and like theirs it never guesses
and refuses what it does not know.

A form is evaluated for a builder and a flag. Whatever else it names is free in it
(`BuilderApi.Script.Form.free`) and has no value. Neither has a hidden field that is not there, nor
a computed name that scripts may write in another way than JSON.

For every way of putting a form together there is one lemma that says how its text is read.
-/

namespace BuilderApi

namespace Script

/-- A value inside a serialized form. -/
inductive FormPart where
  /-- An expression that does not ask the builder. -/
  | plain (term : Term)
  /-- The plain record. -/
  | record
  /-- A hidden field. -/
  | hidden (field : String)

/-- The expression of a serializer. -/
inductive Form where
  /-- A value. -/
  | part (part : FormPart)
  /-- An object. -/
  | object (members : List (String × FormPart))
  /-- An object with one member, whose name is computed. -/
  | under (key value : FormPart)
  /-- One of two forms, by the flag. -/
  | byFlag (set unset : Form)
  /-- A form whose fields are moved down, apart from some. -/
  | nest (inner : Form) (keys rest : Term)

/-! ### Parsing -/

/-- What stands behind `proto` where the plain record is asked for. -/
def recordTokens : List Token :=
  [.mark '(', .mark ')', .mark '.', .word "toJSON", .mark '.', .word "call", .mark '(',
    .word "this", .mark ')']

/-- A value inside a form. -/
def formPart (bound : Nat) : Parser FormPart
  | .word "proto" :: tokens => (expect recordTokens tokens).map fun tokens => (.record, tokens)
  | .word "this" :: .mark '[' :: .string field :: .mark ']' :: tokens =>
    some (.hidden field, tokens)
  | tokens => (expression bound tokens).map fun (term, tokens) => (.plain term, tokens)

/-- The members of an object that is not empty. -/
def formMembers (part : Parser FormPart) : Nat → Parser (List (String × FormPart))
  | 0, _ => none
  | _ + 1, [] => none
  | bound + 1, token :: tokens => do
    let name ← memberName token
    let tokens ← expect [.mark ':'] tokens
    let (value, tokens) ← part tokens
    match tokens with
    | .mark '\x7d' :: tokens => some ([(name, value)], tokens)
    | .mark ',' :: tokens =>
      (formMembers part bound tokens).map fun (rest, tokens) => ((name, value) :: rest, tokens)
    | _ => none

/-- A form that is nested at most so deep. -/
def form : Nat → Parser Form
  | 0, _ => none
  | bound + 1, .word "flag" :: .mark '?' :: tokens => do
    let (set, tokens) ← form bound tokens
    let tokens ← expect [.mark ':'] tokens
    let (unset, tokens) ← form bound tokens
    some (.byFlag set unset, tokens)
  | bound + 1, .word "nest" :: .mark '(' :: tokens => do
    let (inner, tokens) ← form bound tokens
    let tokens ← expect [.mark ','] tokens
    let (keys, tokens) ← expression bound tokens
    let tokens ← expect [.mark ','] tokens
    let (rest, tokens) ← expression bound tokens
    let tokens ← expect [.mark ')'] tokens
    some (.nest inner keys rest, tokens)
  | _ + 1, .mark '\x7b' :: .mark '\x7d' :: tokens => some (.object [], tokens)
  | bound + 1, .mark '\x7b' :: .mark '[' :: tokens => do
    let (key, tokens) ← formPart bound tokens
    let tokens ← expect [.mark ']', .mark ':'] tokens
    let (value, tokens) ← formPart bound tokens
    let tokens ← expect [.mark '\x7d'] tokens
    some (.under key value, tokens)
  | bound + 1, .mark '\x7b' :: tokens =>
    (formMembers (formPart bound) bound tokens).map fun (members, tokens) =>
      (.object members, tokens)
  | bound + 1, tokens => (formPart bound tokens).map fun (part, tokens) => (.part part, tokens)

/-- The form that a text is. -/
def parseForm (letters : Letters) (text : String) : Option Form := do
  let tokens ← lex letters text.toList
  match form tokens.length tokens with
  | some (form, []) => some form
  | _ => none

/-! ### Free names -/

mutual

/-- The names that an expression takes from around it. -/
def Term.free : Term → List String
  | .name name => [name]
  | .value _ => []
  | .list items => freeOfItems items
  | .object members => freeOfMembers members
  | .item list index => list.free ++ index.free
  | .call function argument => function :: argument.free
  | .map list parameter body => list.free ++ body.free.filter (· ≠ parameter)
  | .choice test yes no => test.free ++ yes.free ++ no.free

/-- Those of items. -/
def freeOfItems : List Term → List String
  | [] => []
  | item :: rest => item.free ++ freeOfItems rest

/-- Those of members. -/
def freeOfMembers : List (String × Term) → List String
  | [] => []
  | (_, value) :: rest => value.free ++ freeOfMembers rest

end

/-- The names that a part takes from around it. The record and the hidden fields come with the
builder. -/
def FormPart.free : FormPart → List String
  | .plain term => term.free
  | .record | .hidden _ => []

/-- The names that a form takes from around it, apart from the flag that it chooses by. -/
def Form.free : Form → List String
  | .part value => value.free
  | .object members => members.flatMap fun member => member.2.free
  | .under key value => key.free ++ value.free
  | .byFlag set unset => set.free ++ unset.free
  | .nest inner keys rest => inner.free ++ keys.free ++ rest.free

/-! ### Values -/

/-- The one variable of a serializer. -/
def flagScope (keyed : Bool) : Scope :=
  fun name => if name = "flag" then some (.bool keyed) else none

/-- The value of a part. A field that is not there has none. -/
def FormPart.eval (b : Builder) (keyed : Bool) : FormPart → Option Json
  | .plain term => Script.eval (flagScope keyed) term
  | .record => some (.obj b.props)
  | .hidden field => b.hidden? field

/-- The values of the members of an object. -/
def evalParts (b : Builder) (keyed : Bool) :
    List (String × FormPart) → Option (List (String × Json))
  | [] => some []
  | (name, part) :: rest =>
    match part.eval b keyed, evalParts b keyed rest with
    | some value, some values => some ((name, value) :: values)
    | _, _ => none

/-- The name that a value is as the name of a member. Scripts have a text of their own for arrays,
objects and numbers that are not exact, and these are left out. -/
def computedName : Json → Option String
  | .str s => some s
  | .null => some "null"
  | .bool b => some (Json.bool b).text
  | .num (.int n) => if n.natAbs ≤ 2 ^ 53 then some (Json.num (.int n)).text else none
  | _ => none

/-- The value of a form. -/
def Form.eval (b : Builder) (keyed : Bool) : Form → Option Json
  | .part value => value.eval b keyed
  | .object members => (evalParts b keyed members).bind makeObject
  | .under key value => do
    let name ← computedName (← key.eval b keyed)
    let value ← value.eval b keyed
    return .obj [(name, value)]
  | .byFlag set unset => if keyed then set.eval b keyed else unset.eval b keyed
  | .nest inner keys rest => do
    let value ← inner.eval b keyed
    match ← Script.eval (flagScope keyed) keys, ← Script.eval (flagScope keyed) rest with
    | .arr keys, .str rest => return Json.nest (← keys.mapM Json.str?) rest value
    | _, _ => none

/-! ### Texts of forms -/

section

variable {letters : Letters}

/-- **What a text is read as is what it is parsed as.** -/
theorem Reads.parseForm_eq {text : String} {f : Form} (h : Reads letters form text f) :
    parseForm letters text = some f := by
  obtain ⟨tokens, hlex, hreads⟩ := h
  have htokens := hlex [] delimited_nil
  have hform := hreads tokens.length le_rfl [] endsExpression_nil
  rw [List.append_nil] at htokens hform
  rw [parseForm, htokens]
  simp [push, lex, hform]

/-! ### Parts -/

/-- Tokens that begin with neither of the words that parts begin with. -/
def PlainHead (tokens : List Token) : Prop :=
  ∀ name, tokens.head? = some (.word name) → name ≠ "proto" ∧ name ≠ "this"

theorem formPart_eq {tokens : List Token} (h : PlainHead tokens) (bound : Nat) :
    formPart bound tokens = (expression bound tokens).map fun (term, tokens) =>
    (.plain term, tokens) := by
  unfold formPart
  split
  · exact absurd rfl (h _ rfl).1
  · exact absurd rfl (h _ rfl).2
  · rfl

theorem plainHead_literalTokens (value : Json) (rest : List Token) :
    PlainHead (literalTokens value ++ rest) := by
  intro name hname
  cases value with
  | null => cases hname; decide
  | bool b => cases b <;> cases hname <;> decide
  | num n =>
    rw [literalTokens] at hname
    cases n <;> rw [numberTokens] at hname <;> split at hname <;> cases hname
  | _ => cases hname

/-- A literal is a part. -/
theorem reads_literalPart {value : Json} (h : value.isFinite = true) :
    Reads letters formPart (literal value) (.plain (literalTerm value)) := by
  refine ⟨literalTokens value, fun rest hrest => ?_, fun bound hbound rest hrest => ?_⟩
  · rw [literal, String.toList_ofList, lex_literalChars h hrest]
  · rw [formPart_eq (plainHead_literalTokens value rest),
      readsAs_literal value bound hbound rest hrest]
    rfl

/-- A word that scripts take for a variable. -/
structure IsBare (letters : Letters) (text : String) : Prop where
  /-- It is a name of the language. -/
  name : letters.isName text.toList = true
  /-- It is not reserved. -/
  word : wordTerm text = some (.name text)
  /-- It does not begin a call for the record. -/
  ne_proto : text ≠ "proto"

theorem IsBare.ne_this {text : String} (h : IsBare letters text) : text ≠ "this" := by
  rintro rfl
  have := h.word
  simp [wordTerm, reserved] at this

/-- A bare word is a part, which is a variable. -/
theorem reads_bare {text : String} (h : IsBare letters text) :
    Reads letters formPart text (.plain (.name text)) := by
  refine ⟨[.word text], fun rest hrest => lex_name h.name fun c hc => (hrest.not_name c hc).2,
    fun bound hbound rest hrest => ?_⟩
  have hhead : PlainHead ([.word text] ++ rest) := by
    intro name hname
    obtain rfl : text = name := by simpa using hname
    exact ⟨h.ne_proto, h.ne_this⟩
  obtain ⟨bound, rfl⟩ := Nat.exists_eq_add_of_le' hbound
  have hprimary :
      primary (expression bound) (bound + 1) ([.word text] ++ rest) = some (.name text, rest) := by
    rw [List.singleton_append, primary, h.word]
    rfl
  rw [formPart_eq hhead]
  simp only [List.length_singleton]
  rw [expression_of_primary (by simp) hprimary hrest]
  rfl

theorem lex_record (rest : List Char) : lex letters (ScriptExpr.properties.text.toList ++ rest) =
    push (.word "proto" :: recordTokens) (lex letters rest) := by
  have htext : ScriptExpr.properties.text.toList ++ rest = "proto".toList ++ '(' :: ')' :: '.' ::
      ("toJSON".toList ++ '.' :: ("call".toList ++ '(' :: ("this".toList ++ ')' :: rest))) := by
    simp [ScriptExpr.text]
  rw [htext, lex_name rfl (by simp [Letters.isPart]), lex_bracket (by decide),
    lex_bracket (by decide),
    lex_mark (by decide) rfl, lex_name rfl (by simp [Letters.isPart]), lex_mark (by decide) rfl,
    lex_name rfl (by simp [Letters.isPart]), lex_bracket (by decide),
    lex_name rfl (by simp [Letters.isPart]), lex_bracket (by decide)]
  simp [recordTokens]

theorem formPart_record (bound : Nat) (rest : List Token) :
    formPart bound (.word "proto" :: recordTokens ++ rest) = some (.record, rest) := by
  rw [List.cons_append, formPart, expect_self]
  rfl

/-- The plain record is a part. -/
theorem reads_record : Reads letters formPart ScriptExpr.properties.text .record :=
  ⟨.word "proto" :: recordTokens, fun rest _ => lex_record rest, fun bound _ rest _ =>
    formPart_record bound rest⟩

/-- A hidden field is a part. -/
theorem reads_hidden (field : String) :
    Reads letters formPart (ScriptExpr.hidden field).text (.hidden field) := by
  refine ⟨[.word "this", .mark '[', .string field, .mark ']'], fun rest _ =>
    ?_, fun bound _ rest _ => rfl⟩
  have hquoted : (quoted field).toList = escapeSeparators (Json.quoteChars field.toList) := by
    rw [quoted, literal, String.toList_ofList, literalChars, Json.chars]
  have htext : (ScriptExpr.hidden field).text.toList ++ rest =
      "this".toList ++ '[' :: ((quoted field).toList ++ ']' :: rest) := by
    simp [ScriptExpr.text]
  rw [htext, lex_name rfl (by simp [Letters.isPart]), lex_bracket (by decide), hquoted,
    lex_quoteChars, lex_bracket (by decide)]
  simp

/-! ### Forms -/

/-- The plain record is a form of its own. -/
theorem reads_recordForm : Reads letters form ScriptExpr.properties.text (.part .record) := by
  refine ⟨.word "proto" :: recordTokens, fun rest _ =>
    lex_record rest, fun bound hbound rest _ => ?_⟩
  obtain ⟨bound, rfl⟩ := Nat.exists_eq_add_of_le' (show 1 ≤ bound by simp at hbound; omega)
  have hpart := formPart_record bound rest
  rw [List.cons_append] at hpart ⊢
  rw [form, hpart, Option.map_some] <;> simp

/-- An object with one member, whose name is computed. -/
theorem reads_under {key value : FormPart} {keyText valueText : String}
    (hkey : Reads letters formPart keyText key) (hvalue : Reads letters formPart valueText value) :
    Reads letters form ("\x7b[" ++ keyText ++ "]: " ++ valueText ++ "\x7d") (.under key value) := by
  obtain ⟨keyTokens, hkeyLex, hkeyReads⟩ := hkey
  obtain ⟨valueTokens, hvalueLex, hvalueReads⟩ := hvalue
  refine ⟨.mark '\x7b' :: .mark '[' ::
    (keyTokens ++ .mark ']' :: .mark ':' :: (valueTokens ++ [.mark '\x7d'])),
    fun rest hrest => ?_, fun bound hbound rest hrest => ?_⟩
  · have htext : ("\x7b[" ++ keyText ++ "]: " ++ valueText ++ "\x7d").toList ++ rest =
        '\x7b' :: '[' ::
          (keyText.toList ++ ']' :: ':' :: ' ' :: (valueText.toList ++ '\x7d' :: rest)) := by
      simp
    rw [htext, lex_bracket (by decide), lex_bracket (by decide),
      hkeyLex _ (delimited_cons (by decide) _),
      lex_bracket (by decide), lex_bracket (by decide), lex_blank,
      hvalueLex _ (delimited_cons (by decide) _), lex_bracket (by decide)]
    simp
  · simp only [List.length_cons, List.length_append, List.length_nil] at hbound
    obtain ⟨depth, rfl⟩ := Nat.exists_eq_add_of_le' (show 1 ≤ bound by omega)
    have hname :=
      hkeyReads depth (by omega) (.mark ']' :: .mark ':' :: (valueTokens ++ .mark '\x7d' :: rest))
      (endsExpression_mark (by decide) _)
    have hmember :=
      hvalueReads depth (by omega) (.mark '\x7d' :: rest) (endsExpression_mark (by decide) _)
    have hcolon := expect_self [.mark ']', .mark ':'] (valueTokens ++ .mark '\x7d' :: rest)
    simp only [List.cons_append, List.append_assoc, List.nil_append] at hcolon ⊢
    simp only [form, hname, hcolon, hmember, expect_cons, Option.bind_eq_bind, Option.bind_some]

theorem listsMembers_formMembers : ListsMembers formPart fun depth =>
    formMembers (formPart depth) := by
  constructor
  · intro depth bound name tokens rest value h
    rw [formMembers]
    simp only [memberName, Option.bind_eq_bind, Option.bind_some, expect_cons, h]
  · intro depth bound name tokens more rest value values h hmore
    rw [formMembers]
    simp only [memberName, Option.bind_eq_bind, Option.bind_some, expect_cons, h, hmore,
      Option.map_some]

/-- An object whose members are parts. -/
theorem reads_object {list : List (String × ScriptExpr)} {values : List (String × FormPart)}
    (h : List.Forall₂ (ReadsMember letters formPart) list values) :
    Reads letters form (ScriptExpr.record list).text (.object values) := by
  by_cases hnil : list = []
  · obtain rfl := hnil
    obtain rfl := List.forall₂_nil_left_iff.1 h
    refine ⟨[.mark '\x7b', .mark '\x7d'], fun rest _ => ?_, fun bound hbound rest _ => ?_⟩
    · rw [show (ScriptExpr.record []).text.toList ++ rest = '\x7b' :: '\x7d' :: rest by rfl,
        lex_bracket (by decide), lex_bracket (by decide), push_push]
      rfl
    · obtain ⟨depth, rfl⟩ := Nat.exists_eq_add_of_le' (show 1 ≤ bound by simp at hbound; omega)
      rfl
  · obtain ⟨name, tokens, hlex, hreads⟩ := reads_members listsMembers_formMembers hnil h
    refine ⟨.mark '\x7b' :: .word name :: (tokens ++ [.mark '\x7d']), fun rest hrest => ?_,
      fun bound hbound rest hrest => ?_⟩
    · have htext : (ScriptExpr.record list).text.toList ++ rest =
          '\x7b' :: ((ScriptExpr.memberText list).toList ++ '\x7d' :: rest) := by
        simp [ScriptExpr.text]
      rw [htext, lex_bracket (by decide), hlex, lex_bracket (by decide)]
      simp
    · simp only [List.length_cons, List.length_append, List.length_nil] at hbound
      obtain ⟨depth, rfl⟩ := Nat.exists_eq_add_of_le' (show 1 ≤ bound by omega)
      have hmembers := hreads depth depth (by omega) (by omega) rest
      simp only [List.cons_append, List.append_assoc, List.nil_append]
      rw [form, hmembers]
      · rfl
      · simp
      · simp

/-- One of two forms, by the flag. -/
theorem reads_byFlag {set unset : Form} {setText unsetText : String}
    (hset : Reads letters form setText set) (hunset : Reads letters form unsetText unset) :
    Reads letters form ("flag ? " ++ setText ++ " : " ++ unsetText) (.byFlag set unset) := by
  obtain ⟨setTokens, hsetLex, hsetReads⟩ := hset
  obtain ⟨unsetTokens, hunsetLex, hunsetReads⟩ := hunset
  refine ⟨.word "flag" :: .mark '?' :: (setTokens ++ .mark ':' :: unsetTokens),
    fun rest hrest => ?_, fun bound hbound rest hrest => ?_⟩
  · have htext : ("flag ? " ++ setText ++ " : " ++ unsetText).toList ++ rest =
        "flag".toList ++ ' ' :: '?' :: ' ' ::
          (setText.toList ++ ' ' :: ':' :: ' ' :: (unsetText.toList ++ rest)) := by
      simp
    rw [htext, lex_name rfl (by simp [Letters.isPart]), lex_blank,
      lex_mark (by decide) rfl, lex_blank,
      hsetLex _ (delimited_cons (by decide) _), lex_blank, lex_bracket (by decide), lex_blank,
        hunsetLex _ hrest]
    simp
  · simp only [List.length_cons, List.length_append] at hbound
    obtain ⟨depth, rfl⟩ := Nat.exists_eq_add_of_le' (show 1 ≤ bound by omega)
    have hyes := hsetReads depth (by omega) (.mark ':' :: (unsetTokens ++ rest))
      (endsExpression_mark (by decide) _)
    have hno := hunsetReads depth (by omega) rest hrest
    simp only [List.cons_append, List.append_assoc]
    simp only [form, hyes, expect_cons, hno, Option.bind_eq_bind, Option.bind_some]

/-- A form whose fields are moved down, apart from some. -/
theorem reads_nest {inner : Form} {innerText : String} (hinner : Reads letters form innerText inner)
    (keys : List String) (rest : String) :
    Reads letters form
      ("nest(" ++ innerText ++ ", " ++ literal (Json.strs keys) ++ ", " ++ quoted rest ++ ")")
      (.nest inner (literalTerm (Json.strs keys)) (literalTerm (.str rest))) := by
  have hkeysFinite : (Json.strs keys).isFinite = true :=
    Json.everywhere_arr.2 ⟨rfl, List.forall_mem_map.2 fun _ _ => rfl⟩
  obtain ⟨tokens, hlex, hreads⟩ := hinner
  have hkeysSpells : Spells letters (literal (Json.strs keys)) _ := spells_literal hkeysFinite
  have hrestSpells : Spells letters (literal (.str rest)) _ := spells_literal rfl
  obtain ⟨keysTokens, hkeysLex, hkeysReads⟩ := hkeysSpells
  obtain ⟨restTokens, hrestLex, hrestReads⟩ := hrestSpells
  refine ⟨.word "nest" :: .mark '(' :: (tokens ++ .mark ',' :: (keysTokens ++ .mark ',' ::
    (restTokens ++ [.mark ')']))), fun after hafter => ?_, fun bound hbound after hafter => ?_⟩
  · have htext :
        ("nest(" ++ innerText ++ ", " ++ literal (Json.strs keys) ++ ", " ++ quoted rest ++
          ")").toList ++ after =
        "nest".toList ++ '(' ::
          (innerText.toList ++ ',' :: ' ' :: ((literal (Json.strs keys)).toList ++
          ',' :: ' ' :: ((literal (.str rest)).toList ++ ')' :: after))) := by
      simp [quoted]
    rw [htext, lex_name rfl (by simp [Letters.isPart]), lex_bracket (by decide),
      hlex _ (delimited_cons (by decide) _), lex_bracket (by decide), lex_blank,
      hkeysLex _ (delimited_cons (by decide) _), lex_bracket (by decide), lex_blank,
      hrestLex _ (delimited_cons (by decide) _), lex_bracket (by decide)]
    simp
  · simp only [List.length_cons, List.length_append, List.length_nil] at hbound
    obtain ⟨depth, rfl⟩ := Nat.exists_eq_add_of_le' (show 1 ≤ bound by omega)
    have hform := hreads depth (by omega)
      (.mark ',' :: (keysTokens ++ .mark ',' :: (restTokens ++ .mark ')' :: after)))
      (endsExpression_mark (by decide) _)
    have hkeys := hkeysReads depth (by omega) (.mark ',' :: (restTokens ++ .mark ')' :: after))
      (endsExpression_mark (by decide) _)
    have hrest :=
      hrestReads depth (by omega) (.mark ')' :: after) (endsExpression_mark (by decide) _)
    simp only [List.cons_append, List.append_assoc, List.nil_append]
    simp only [form, hform, hkeys, hrest, expect_cons, Option.bind_eq_bind, Option.bind_some]

/-! ### What literals take from around them -/

mutual

theorem free_literalTerm : ∀ value : Json, (literalTerm value).free = []
  | .null | .bool _ | .num _ | .str _ => rfl
  | .arr items => by rw [literalTerm, Term.free, freeOfItems_itemTerms items]
  | .obj members => by rw [literalTerm, Term.free, freeOfMembers_memberTerms members]

theorem freeOfItems_itemTerms : ∀ items : List Json, freeOfItems (itemTerms items) = []
  | [] => rfl
  | item :: rest => by
    rw [itemTerms, freeOfItems, free_literalTerm item, freeOfItems_itemTerms rest, List.nil_append]

theorem freeOfMembers_memberTerms :
    ∀ members : List (String × Json), freeOfMembers (memberTerms members) = []
  | [] => rfl
  | (_, value) :: rest => by
    rw [memberTerms, freeOfMembers, free_literalTerm value, freeOfMembers_memberTerms rest,
      List.nil_append]

end

end

end Script

end BuilderApi
