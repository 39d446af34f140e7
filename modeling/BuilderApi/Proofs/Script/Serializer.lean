import BuilderApi.Builder.Construct
import BuilderApi.Proofs.Builder.Unknown
import BuilderApi.Proofs.Script.Form
import BuilderApi.Proofs.Table.WellFormed
import BuilderApi.Script.Module

/-!
# Serializers of modules and of sessions

A builder is serialized twice: by the running session, and by the generated module. Here the
expression that the module returns is read back as a form (`BuilderApi.Serialization.reads`), and
its value is compared with what the session gives.

The two agree on every shape, for both values of the flag (`BuilderApi.Script.serializer_agrees`),
as long as the names of members are plain names, the hidden fields that are asked for are there, and
literals are JSON text in the form in which modules write it. They differ on **bare words**. A
literal that is no JSON text stands for itself, as a string, in a session, but it is spliced into
the module as it is. There it is a variable that nobody binds, and the form has no value at all
(`BuilderApi.Serialization.eval_form_of_bare`).
-/

namespace BuilderApi

open Script

/-! ### The forms of shapes -/

/-- The part that a reference is in a module. A literal is spliced as it is: as JSON text it is its
value, and otherwise a variable. -/
def KeyRef.part : KeyRef → FormPart
  | .hidden field => .hidden field
  | .literal text =>
    match Json.parse? text with
    | some value => .plain (literalTerm value)
    | none => .plain (.name text)

/-- The words of a reference that are not JSON text. -/
def KeyRef.bareWords : KeyRef → List String
  | .hidden _ => []
  | .literal text => if (Json.parse? text).isSome then [] else [text]

/-- The form that a shape is in a module. -/
def KeyShape.form : KeyShape → Form
  | .plain => .part .record
  | .wrap (.hidden field) => .under (.hidden field) .record
  | .wrap (.literal name) => .object [(name, .record)]
  | .fields refs => .object (refs.map fun (name, ref) => (name, ref.part))
  | .flagged unset set => .byFlag set.form unset.form

/-- The words of a shape that are not JSON text. -/
def KeyShape.bareWords : KeyShape → List String
  | .plain | .wrap _ => []
  | .fields refs => refs.flatMap fun (_, ref) => ref.bareWords
  | .flagged unset set => set.bareWords ++ unset.bareWords

/-- The form that a serializer returns. -/
def Serialization.form (serial : Serialization) : Form :=
  match serial.nest with
  | none => serial.key.form
  | some nest =>
    .nest serial.key.form (literalTerm (Json.strs nest.keys)) (literalTerm (.str nest.rest))

section

variable {letters : Letters}

/-- A reference whose text scripts can read: JSON text as modules write it, or a bare word. -/
def KeyRef.IsReadable (letters : Letters) : KeyRef → Prop
  | .hidden _ => True
  | .literal text =>
    match Json.parse? text with
    | some value => Script.literal value = text ∧ value.isFinite = true ∧ Denotable letters value
    | none => IsBare letters text

/-- A shape with plain names and readable references. -/
def KeyShape.IsReadable (letters : Letters) : KeyShape → Prop
  | .plain | .wrap (.hidden _) => True
  | .wrap (.literal name) => letters.isPlainName name = true
  | .fields refs => ∀ member ∈ refs, letters.isPlainName member.1 = true ∧
    member.2.IsReadable letters
  | .flagged unset set => unset.IsReadable letters ∧ set.IsReadable letters

/-- The text of a reference is read as its part of the form. -/
theorem KeyRef.reads {ref : KeyRef} (h : ref.IsReadable letters) :
    Reads letters formPart ref.expr.text ref.part := by
  cases ref with
  | hidden field => exact reads_hidden field
  | literal text =>
    rw [KeyRef.IsReadable] at h
    rw [KeyRef.expr, KeyRef.part, ScriptExpr.text]
    cases hparse : Json.parse? text with
    | none =>
      rw [hparse] at h
      exact reads_bare h
    | some value =>
      rw [hparse] at h
      obtain ⟨rfl, hfinite, -⟩ := h
      exact reads_literalPart hfinite

/-- **The expression of a shape is read back as its form.** -/
theorem KeyShape.reads : ∀ {shape : KeyShape}, shape.IsReadable letters →
    Reads letters Script.form shape.expr.text shape.form
  | .plain, _ => reads_recordForm
  | .wrap (.hidden field), _ => by
    have hunder : Reads letters Script.form _ (.under (.hidden field) .record) :=
      reads_under (reads_hidden field) reads_record
    have htext : ScriptExpr.text (.underHidden field .properties) =
        "\x7b[" ++ (ScriptExpr.hidden field).text ++ "]: " ++
          ScriptExpr.properties.text ++ "\x7d" :=
      String.toList_inj.1 (by simp [ScriptExpr.text])
    rwa [KeyShape.expr, htext]
  | .wrap (.literal name), h =>
    reads_object (.cons ⟨rfl, isName_of_isPlainName h, reads_record⟩ .nil)
  | .fields refs, h => by
    refine reads_object
      (List.forall₂_map_left_iff.2 (List.forall₂_map_right_iff.2 (List.forall₂_same.2 ?_)))
    exact fun member hmember =>
      ⟨rfl, isName_of_isPlainName (h member hmember).1, KeyRef.reads (h member hmember).2⟩
  | .flagged _ _, h => reads_byFlag (KeyShape.reads h.2) (KeyShape.reads h.1)

/-- The text of a serialized form is read as this form. -/
theorem Serialization.reads {serial : Serialization} (h : serial.key.IsReadable letters) :
    Reads letters Script.form serial.expr.text serial.form := by
  unfold Serialization.expr Serialization.form
  cases serial.nest with
  | none => exact KeyShape.reads h
  | some nest => exact reads_nest (KeyShape.reads h) nest.keys nest.rest

/-! ### Their free names -/

theorem KeyRef.free_part (ref : KeyRef) : ref.part.free = ref.bareWords := by
  cases ref with
  | hidden field => rfl
  | literal text =>
    rw [KeyRef.part, KeyRef.bareWords]
    cases Json.parse? text with
    | none => rfl
    | some value => exact free_literalTerm value

/-- The free words of a form are the bare words of its shape. -/
theorem KeyShape.free_form : ∀ shape : KeyShape, shape.form.free = shape.bareWords
  | .plain | .wrap (.hidden _) | .wrap (.literal _) => rfl
  | .fields refs => by
    simp [KeyShape.form, Form.free, KeyShape.bareWords, List.flatMap_map, KeyRef.free_part]
  | .flagged unset set => by
    rw [KeyShape.form, Form.free, KeyShape.free_form set, KeyShape.free_form unset,
      KeyShape.bareWords]

/-- **The free names of a serializer are its bare words.** -/
theorem Serialization.free_form (serial : Serialization) :
    serial.form.free = serial.key.bareWords := by
  unfold Serialization.form
  cases serial.nest with
  | none => exact KeyShape.free_form serial.key
  | some nest =>
    rw [Form.free, free_literalTerm, free_literalTerm, KeyShape.free_form, List.append_nil,
      List.append_nil]

/-! ### Their values -/

/-- A reference that has a value in a module: the hidden field is there, or the literal is JSON
text. -/
def KeyRef.IsGiven (b : Builder) : KeyRef → Prop
  | .hidden field => (b.hidden? field).isSome = true
  | .literal text => (Json.parse? text).isSome = true

/-- The builder has what the shape asks for with this flag. -/
def KeyShape.IsGiven (b : Builder) (keyed : Bool) : KeyShape → Prop
  | .plain | .wrap (.literal _) => True
  | .wrap (.hidden field) =>
    ∃ value, b.hidden? field = some value ∧ (computedName value).isSome = true
  | .fields refs => ∀ member ∈ refs, member.2.IsGiven b
  | .flagged unset set => if keyed then set.IsGiven b keyed else unset.IsGiven b keyed

/-- A shape in whose objects no name is repeated. -/
def KeyShape.IsKeyed : KeyShape → Prop
  | .plain | .wrap _ => True
  | .fields refs => (Fields.names refs).Nodup
  | .flagged unset set => unset.IsKeyed ∧ set.IsKeyed

/-- A hidden value names the key in the module as in the session. -/
theorem computedName_eq {b : Builder} {field : String} {value : Json}
    (h : b.hidden? field = some value) {name : String} (hname : computedName value = some name) :
    b.keyName (.hidden field) = name := by
  rw [Builder.keyName, h]
  cases value with
  | null => cases hname; rfl
  | bool _ => cases hname; rfl
  | str _ => cases hname; rfl
  | num n =>
    cases n with
    | int n =>
      rw [computedName] at hname
      split at hname <;> cases hname
      rfl
    | double x => cases hname
  | _ => cases hname

variable {b : Builder} {keyed : Bool}

/-- A reference that is given has one value in the module and in the session. -/
theorem KeyRef.eval_part {ref : KeyRef} (hread : ref.IsReadable letters) (hgiven : ref.IsGiven b) :
    ref.part.eval b keyed = some (b.keyValue ref) := by
  cases ref with
  | hidden field =>
    obtain ⟨value, hvalue⟩ := Option.isSome_iff_exists.1 hgiven
    rw [KeyRef.part, FormPart.eval, Builder.keyValue, hvalue]
    rfl
  | literal text =>
    obtain ⟨value, hvalue⟩ := Option.isSome_iff_exists.1 hgiven
    rw [KeyRef.IsReadable, hvalue] at hread
    rw [KeyRef.part, Builder.keyValue, hvalue]
    exact eval_literalTerm (flagScope keyed) hread.2.2

theorem evalParts_refs : ∀ {refs : List (String × KeyRef)},
    (∀ member ∈ refs, member.2.IsReadable letters) → (∀ member ∈ refs, member.2.IsGiven b) →
    evalParts b keyed (refs.map fun (name, ref) => (name, ref.part)) =
      some (refs.map fun (name, ref) => (name, b.keyValue ref))
  | [], _, _ => rfl
  | (name, ref) :: rest, hread, hgiven => by
    obtain ⟨href, hread⟩ := List.forall_mem_cons.1 hread
    obtain ⟨hfirst, hgiven⟩ := List.forall_mem_cons.1 hgiven
    rw [List.map_cons, evalParts, KeyRef.eval_part href hfirst, evalParts_refs hread hgiven]
    rfl

/-- **The form of a shape has the value that the builder is shaped to.** -/
theorem KeyShape.eval_form : ∀ {shape : KeyShape}, shape.IsReadable letters → shape.IsKeyed →
    shape.IsGiven b keyed → shape.form.eval b keyed = some (b.shaped keyed shape)
  | .plain, _, _, _ => rfl
  | .wrap (.hidden field), _, _, ⟨value, hvalue, hname⟩ => by
    obtain ⟨name, hname⟩ := Option.isSome_iff_exists.1 hname
    rw [Builder.shaped, computedName_eq hvalue hname]
    simp [KeyShape.form, Form.eval, FormPart.eval, hvalue, hname]
  | .wrap (.literal name), h, _, _ => by
    have hname : ∀ member ∈ [(name, Json.obj b.props)], isMemberName member.1 = true := by
      simpa using isMemberName_of_isPlainName h
    exact makeObject_eq hname
  | .fields refs, h, hkeyed, hgiven => by
    have hparts : evalParts b keyed (refs.map fun (name, ref) => (name, ref.part)) = _ :=
      evalParts_refs (fun member hmember => (h member hmember).2) hgiven
    have hnames : ∀ member ∈ refs.map fun (name, ref) => (name, b.keyValue ref),
        isMemberName member.1 = true :=
      List.forall_mem_map.2 fun member hmember => isMemberName_of_isPlainName (h member hmember).1
    have hdistinct : (Fields.names (refs.map fun (name, ref) => (name, b.keyValue ref))).Nodup := by
      simpa [KeyShape.IsKeyed, Fields.names, Function.comp_def] using hkeyed
    rw [KeyShape.form, Form.eval, hparts, Option.bind_some, makeObject_eq hnames,
      Fields.ofList_eq_self hdistinct]
    rfl
  | .flagged unset set, h, hkeyed, hgiven => by
    rw [KeyShape.IsGiven] at hgiven
    rw [KeyShape.form, Form.eval, Builder.shaped]
    by_cases hflag : keyed = true
    · rw [if_pos hflag] at hgiven
      rw [if_pos hflag, if_pos hflag]
      exact KeyShape.eval_form h.2 hkeyed.2 hgiven
    · rw [if_neg hflag] at hgiven
      rw [if_neg hflag, if_neg hflag]
      exact KeyShape.eval_form h.1 hkeyed.1 hgiven

/-- A form whose references are given has one value in the module and in the session. -/
theorem Serialization.eval_form {serial : Serialization} (h : serial.key.IsReadable letters)
    (hkeyed : serial.key.IsKeyed) (hgiven : serial.key.IsGiven b keyed) :
    serial.form.eval b keyed = some (b.serialize keyed (some serial)) := by
  have hkey := KeyShape.eval_form h hkeyed hgiven
  cases hnest : serial.nest with
  | none =>
    simp only [Serialization.form, Builder.serialize, hnest]
    exact hkey
  | some nest =>
    have hdenotable : Denotable letters (Json.strs nest.keys) :=
      ⟨Json.isKeyed_arr.2 (List.forall_mem_map.2 fun _ _ => rfl),
        Json.everywhere_arr.2 ⟨rfl, List.forall_mem_map.2 fun _ _ => rfl⟩⟩
    have hkeys := eval_literalTerm (flagScope keyed) hdenotable
    have hstrings : (nest.keys.map Json.str).mapM Json.str? = some nest.keys := by
      induction nest.keys with
      | nil => rfl
      | cons key rest ih => simp [Json.str?, ih]
    simp only [Serialization.form, Builder.serialize, hnest, Form.eval, hkey, hkeys]
    simp [Json.strs, literalTerm, Script.eval, hstrings]

/-! ### Bare words have no value -/

/-- The shape that a value of the flag chooses. -/
def KeyShape.chosen (keyed : Bool) : KeyShape → KeyShape
  | .flagged unset set => if keyed then set.chosen keyed else unset.chosen keyed
  | shape => shape

/-- A bare word has no value, unless it is the flag. -/
theorem KeyRef.eval_part_of_bare {ref : KeyRef} {word : String} (h : word ∈ ref.bareWords)
    (hflag : word ≠ "flag") :
    ref.part.eval b keyed = none := by
  cases ref with
  | hidden field => cases h
  | literal text =>
    rw [KeyRef.bareWords] at h
    split at h
    · cases h
    · next hparse =>
      obtain rfl := List.mem_singleton.1 h
      rw [KeyRef.part, Option.not_isSome_iff_eq_none.1 hparse]
      exact if_neg hflag

theorem evalParts_eq_none {refs : List (String × KeyRef)} {word : String}
    (h : word ∈ refs.flatMap fun (_, ref) => ref.bareWords) (hflag : word ≠ "flag") :
    evalParts b keyed (refs.map fun (name, ref) => (name, ref.part)) = none := by
  induction refs with
  | nil => cases h
  | cons member rest ih =>
    rw [List.flatMap_cons, List.mem_append] at h
    rw [List.map_cons, evalParts]
    rcases h with hfirst | hrest
    · rw [KeyRef.eval_part_of_bare hfirst hflag]
    · rw [ih hrest]
      cases member.2.part.eval b keyed <;> rfl

/-- **A shape with a bare word has no value in a module**, whatever the builder has. -/
theorem KeyShape.eval_form_of_bare {word : String} (hflag : word ≠ "flag") : ∀ {shape : KeyShape},
    word ∈ (shape.chosen keyed).bareWords → shape.form.eval b keyed = none
  | .plain, h | .wrap _, h => by cases h
  | .fields refs, h => by rw [KeyShape.form, Form.eval, evalParts_eq_none h hflag, Option.bind_none]
  | .flagged unset set, h => by
    rw [KeyShape.chosen] at h
    rw [KeyShape.form, Form.eval]
    by_cases hkeyed : keyed = true
    · rw [if_pos hkeyed] at h ⊢
      exact KeyShape.eval_form_of_bare hflag h
    · rw [if_neg hkeyed] at h ⊢
      exact KeyShape.eval_form_of_bare hflag h

/-- A form with a bare word has no value, unless the word is the flag. -/
theorem Serialization.eval_form_of_bare {serial : Serialization} {word : String}
    (hflag : word ≠ "flag") (h : word ∈ (serial.key.chosen keyed).bareWords) :
    serial.form.eval b keyed = none := by
  have hkey := KeyShape.eval_form_of_bare (b := b) hflag h
  unfold Serialization.form
  cases serial.nest with
  | none => exact hkey
  | some nest => rw [Form.eval, hkey, Option.bind_eq_bind, Option.bind_none]

/-! ### Serializers of accepted entries -/

theorem nodup_parseKeyFields {members : List (String × Json)} {fields refs : Fields KeyRef}
    (hfields : (Fields.names fields).Nodup) (h : parseKeyFields fields members = some refs) :
    (Fields.names refs).Nodup := by
  induction members generalizing fields with
  | nil =>
    cases h
    exact hfields
  | cons member rest ih =>
    obtain ⟨name, value⟩ := member
    cases value with
    | str text => exact ih (Fields.nodup_names_put hfields name _) h
    | _ => cases h

/-- Forms that are read repeat no name. -/
theorem KeyShape.isKeyed_of_parseKey {method : String} : ∀ {json : Json} {shape : KeyShape},
    parseKey method json = .ok shape → shape.IsKeyed
  | .null, _, h | .str _, _, h => by
    cases h
    trivial
  | .obj members, shape, h => by
    rw [parseKey] at h
    split at h
    · next refs hrefs =>
      cases h
      exact nodup_parseKeyFields (by simp [Fields.names]) hrefs
    · cases h
  | .arr [unset, set], shape, h => by
    rw [parseKey] at h
    obtain ⟨unset', hunset, h⟩ := exists_of_bind_eq_ok h
    obtain ⟨set', hset, h⟩ := exists_of_bind_eq_ok h
    cases h
    exact ⟨KeyShape.isKeyed_of_parseKey hunset, KeyShape.isKeyed_of_parseKey hset⟩
  | .bool _, _, h | .num _, _, h | .arr [], _, h | .arr [_], _, h | .arr (_ :: _ :: _ :: _), _, h =>
    by cases h

theorem isKeyed_of_parseSerialization {method : String} {key : Option Json} {nest : Option Nest}
    {serial : Serialization} (h : parseSerialization method key nest = .ok (some serial)) :
    serial.key.IsKeyed := by
  unfold parseSerialization at h
  cases key with
  | none =>
    cases nest with
    | none => cases h
    | some nest =>
      cases h
      trivial
  | some key =>
    obtain ⟨shape, hshape, h⟩ := exists_of_bind_eq_ok h
    cases h
    exact KeyShape.isKeyed_of_parseKey hshape

/-- The form of an entry is parsed from its key and its nest. -/
theorem MethodDecl.parseSerialization_of_entry {decl : MethodDecl} {name : String}
    {spec : MethodSpec} (h : decl.entry name = .ok (.method spec)) :
    parseSerialization name decl.key decl.nest = .ok spec.serial := by
  unfold MethodDecl.entry at h
  obtain ⟨args, -, h⟩ := exists_of_bind_eq_ok h
  split at h
  · cases h
  · obtain ⟨types, -, h⟩ := exists_of_bind_eq_ok h
    obtain ⟨ext, -, h⟩ := exists_of_bind_eq_ok h
    obtain ⟨serial, hserial, h⟩ := exists_of_bind_eq_ok h
    cases h
    exact hserial

/-- No key of an accepted table repeats a name. -/
theorem Table.isKeyed_serial {decls : Fields MethodDecl} {table : Table}
    (h : Table.ofDeclarations decls = .ok table) {name : String} {spec : MethodSpec}
    (hspec : table.method? name = some spec) {serial : Serialization}
    (hserial : spec.serial = some serial) : serial.key.IsKeyed := by
  obtain ⟨entry, hentry, hmethod⟩ := Option.bind_eq_some_iff.1 hspec
  cases entry with
  | external _ => cases hmethod
  | method spec' =>
    cases hmethod
    obtain ⟨decl, -, hdecl⟩ := Table.exists_decl_of_mem h (Fields.mem_of_get? hentry)
    have hparse := MethodDecl.parseSerialization_of_entry hdecl
    rw [hserial] at hparse
    exact isKeyed_of_parseSerialization hparse

end

namespace Script

/-- **The serializer of a module and that of a session agree.** Of an accepted entry with a
serialized form whose references can be read, the expression in the module is parsed; what it takes
from around it are its bare words; and its value is what the session serializes a builder to, with
either flag, if the builder has the hidden fields that are asked for and none of the references is a
bare word. With a bare word it has no value. -/
theorem serializer_agrees {letters : Letters} {decls : Fields MethodDecl} {table : Table}
    (htable : Table.ofDeclarations decls = .ok table) {name : String} {spec : MethodSpec}
    (hspec : table.method? name = some spec) {serial : Serialization}
    (hserial : spec.serial = some serial) (hread : serial.key.IsReadable letters) :
    ∃ form, parseForm letters serial.expr.text = some form ∧ form.free = serial.key.bareWords ∧
      (∀ (s : Session) (b : Builder) (keyed : Bool), s.table = table → b.entry = name →
        serial.key.IsGiven b keyed → form.eval b keyed = some (s.toJson b keyed)) ∧
      ∀ (b : Builder) (keyed : Bool), ∀ word ∈ (serial.key.chosen keyed).bareWords, word ≠ "flag" →
        form.eval b keyed = none := by
  have hkeyed := Table.isKeyed_serial htable hspec hserial
  refine ⟨serial.form, (Serialization.reads hread).parseForm_eq, serial.free_form, ?_,
    fun b keyed word hword hflag => Serialization.eval_form_of_bare hflag hword⟩
  rintro s b keyed rfl rfl hgiven
  rw [Session.toJson, hspec, Option.bind_some, hserial]
  exact Serialization.eval_form hread hkeyed hgiven

/-- A brush that is serialized under its identifier, or beside a literal, with all fields but one
moved down. -/
def brushSerial : Serialization where
  key := .flagged (.fields [("selection", .hidden "_sel"), ("clear", .literal "\"dblclick\"")])
    (.wrap (.hidden "_sel"))
  nest := some ⟨["selection"], "options"⟩

/-- Its declaration. -/
def brushDecl : MethodDecl where
  arg := some [.sigil "^_sel"]
  set := some [("type", .str "interval")]
  key := some (.arr [.obj [("selection", .str "_sel"), ("clear", .str "\"dblclick\"")],
    .str "_sel"])
  nest := some ⟨["selection"], "options"⟩

/-- The entry that it describes. -/
def brushSpec : MethodSpec where
  desc := none
  doc := none
  def? := none
  args := some [.hidden "_sel" (some "sel")]
  set := [("type", .str "interval")]
  types := []
  ext := []
  pass := []
  call := []
  serial := some brushSerial
  ctr := none

/-- A session with brushes. -/
def brushSession : Session := ⟨[("brush", .method brushSpec)], [], []⟩

/-- The brush that is constructed first. -/
def firstBrush : Builder := ⟨"brush", [("type", .str "interval")], [("_sel", .str "sel1")]⟩

/-- The brush is constructed, and its form evaluates to what the session serializes. -/
theorem serializer_brush :
    Table.ofDeclarations [("brush", brushDecl)] = .ok brushSession.table ∧
      brushSerial.key.IsReadable asciiLetters ∧
      (brushSession.construct "brush" []).outcome 0 = .ok firstBrush ∧
      ∃ form, parseForm asciiLetters brushSerial.expr.text = some form ∧ form.free = [] ∧
        form.eval firstBrush false =
          some (.obj [("selection", .str "sel1"), ("options", .obj [("clear", .str "dblclick")])]) ∧
        form.eval firstBrush true =
          some (.obj [("options", .obj [("sel1", .obj [("type", .str "interval")])])]) := by
  have htable : Table.ofDeclarations [("brush", brushDecl)] = .ok brushSession.table := rfl
  have hmethod : brushSession.table.method? "brush" = some brushSpec := rfl
  have hclear : Json.parse? "\"dblclick\"" = some (.str "dblclick") := by cbv
  have hread : brushSerial.key.IsReadable asciiLetters := by
    refine ⟨List.forall_mem_cons.2 ⟨⟨by decide, trivial⟩,
      List.forall_mem_singleton.2 ⟨by decide, ?_⟩⟩, trivial⟩
    rw [KeyRef.IsReadable, hclear]
    exact ⟨rfl, rfl, rfl, rfl⟩
  have hunset : brushSerial.key.IsGiven firstBrush false := by
    refine List.forall_mem_cons.2 ⟨rfl, List.forall_mem_singleton.2 ?_⟩
    rw [KeyRef.IsGiven, hclear]
    rfl
  have hset : brushSerial.key.IsGiven firstBrush true := ⟨.str "sel1", rfl, rfl⟩
  have hwords : brushSerial.key.bareWords = [] := by
    simp [brushSerial, KeyShape.bareWords, KeyRef.bareWords, hclear]
  obtain ⟨form, hparse, hfree, hvalue, -⟩ := serializer_agrees htable hmethod rfl hread
  have hconstruct : (brushSession.construct "brush" []).outcome 0 = .ok firstBrush := by
    rw [Session.outcome_construct, Table.chain, Table.follow_of_target rfl rfl]
    rfl
  refine ⟨htable, hread, hconstruct, form, hparse, hfree.trans hwords, ?_, ?_⟩
  · rw [hvalue brushSession firstBrush false rfl rfl hunset]
    cbv
  · rw [hvalue brushSession firstBrush true rfl rfl hset]
    cbv

/-- An entry that is serialized to a word. -/
def selectionDecl : MethodDecl where
  key := some (.obj [("selection", .str "interval")])

/-- The entry that it describes. -/
def selectionSpec : MethodSpec where
  desc := none
  doc := none
  def? := none
  args := none
  set := []
  types := []
  ext := []
  pass := []
  call := []
  serial := some ⟨.fields [("selection", .literal "interval")], none⟩
  ctr := none

/-- A session with such entries. -/
def selectionSession : Session := ⟨[("m", .method selectionSpec)], [], []⟩

/-- A bare word is a string in a session, and a variable without a value in the module. -/
theorem bareLiteral_unbound :
    Table.ofDeclarations [("m", selectionDecl)] = .ok selectionSession.table ∧
      .line "return \x7bselection: interval\x7d;" ∈ methodListing [] "m" selectionSpec ∧
      (∃ form, parseForm asciiLetters "\x7bselection: interval\x7d" = some form ∧
        form.free = ["interval"] ∧
        ∀ b keyed, form.eval b keyed = none) ∧
      (selectionSession.construct "m" []).outcome 0 = .ok (Builder.empty "m") ∧
      ∀ keyed, selectionSession.toJson (Builder.empty "m") keyed =
        .obj [("selection", .str "interval")] := by
  have hbare : Json.parse? "interval" = none := Option.isNone_iff_eq_none.1 (by decide +kernel)
  have hread : KeyShape.IsReadable asciiLetters (.fields [("selection", .literal "interval")]) := by
    refine List.forall_mem_singleton.2 ⟨by decide, ?_⟩
    rw [KeyRef.IsReadable, hbare]
    exact ⟨by decide, rfl, by decide⟩
  have hwords :
      KeyShape.bareWords (.fields [("selection", .literal "interval")]) = ["interval"] := by
    simp [KeyShape.bareWords, KeyRef.bareWords, hbare]
  refine ⟨rfl, ?_, ⟨_, (KeyShape.reads hread).parseForm_eq, (KeyShape.free_form _).trans hwords,
    fun b keyed => ?_⟩, by cbv, fun keyed => ?_⟩
  · simp [methodListing, builderModule, selectionSpec, serializer, accessor, Listing.block,
      Serialization.expr, KeyShape.expr, KeyRef.expr, ScriptExpr.text, ScriptExpr.memberText]
  · have hne : "interval" ≠ "flag" := by decide
    exact KeyShape.eval_form_of_bare hne (by simp [KeyShape.chosen, hwords])
  · simp [Session.toJson, selectionSession, selectionSpec, Table.method?, Fields.get?,
      Entry.method?, Builder.empty, Builder.serialize, Builder.shaped, Builder.keyValue, hbare]

end Script

end BuilderApi
