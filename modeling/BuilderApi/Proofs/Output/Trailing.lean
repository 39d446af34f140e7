import BuilderApi.Output.Build
import BuilderApi.Proofs.Json.Locality
import BuilderApi.Proofs.Table.Finished

/-!
# What stands behind a document

A table and a schema are made of the first value of a text, and nobody asks what follows it. So a
text is accepted exactly if some front of it is one JSON text that is accepted, whatever stands
behind that front (`BuilderApi.ofText_eq_ok_iff_front`); only a number has to be kept from going on,
which a schema may be and a table may not. The front is a whole JSON text, with nothing missing: a
document in which reading broke off is refused.

The literals of generated code are read by `BuilderApi.Json.parse?`, which does ask: two documents
in one text are none to it (`BuilderApi.ofText_two_documents`).
-/

namespace BuilderApi

open JsonText

variable {α ε : Type}

/-! ### Fronts of a text -/

namespace JsonText

variable {lead text rest blanks tail : List Char}

theorem not_mem_blanks (h : Reader.IsBlanks blanks) {c : Char} (hc : Reader.isBlank c = false) :
    c ∉ blanks := fun hmem => by
  rw [h c hmem] at hc
  cases hc

/-- Blanks in front of a number are no part of it. -/
theorem stops_lead_iff (hlead : Reader.IsBlanks lead) (h : Spells .value text) (rest : List Char) :
    Stops (lead ++ text) rest ↔ Stops text rest := by
  obtain ⟨c, others, rfl, -⟩ := exists_head h
  have hmem {d : Char} (hd : Reader.isBlank d = false) :
      d ∈ lead ++ c :: others ↔ d ∈ c :: others := by
    rw [List.mem_append, or_iff_right (not_mem_blanks hlead hd)]
  unfold Stops
  rw [hmem rfl, hmem rfl, hmem rfl, List.getLast?_append_cons]

theorem stops_final (hfinal : Reader.IsBlanks blanks) (h : blanks = [] → Stops text rest) :
    Stops text (blanks ++ rest) := by
  cases blanks with
  | nil => exact h rfl
  | cons c blanks => exact stops_of_ends (ends_of_isBlank (hfinal c List.mem_cons_self) _) text

end JsonText

/-- A value with blanks in front of it is read at the start of a text, whatever stands behind it. -/
theorem Reader.exists_read {lead piece : List Char} (hlead : Reader.IsBlanks lead)
    (h : Spells .value piece) :
    ∃ document whole, ∀ tail, Stops piece tail →
      Reader.read (lead ++ (piece ++ tail)) = (document, Reader.left whole tail) := by
  obtain ⟨document, whole, hread⟩ := Reader.exists_readsTo h Reader.depthLimit
  refine ⟨document, whole, fun tail htail => ?_⟩
  have hbound : piece.length ≤ (lead ++ (piece ++ tail)).length := by
    simp only [List.length_append]
    omega
  rw [Reader.read, Reader.value_append_blanks hlead, hread _ tail hbound htail]

/-- What follows a JSON text makes no difference to the document. -/
theorem Document.ofText_append {front rest : String} (hfront : Json.IsText front.toList)
    (hstops : Stops front.toList rest.toList) :
    Document.ofText (front ++ rest) = Document.ofText front := by
  obtain ⟨lead, piece, final, heq, hlead, hfinal, h⟩ := hfront
  obtain ⟨document, whole, hread⟩ := Reader.exists_read hlead h
  have hbehind : Stops piece (final ++ rest.toList) := by
    refine stops_final hfinal ?_
    rintro rfl
    rw [heq, List.append_nil] at hstops
    exact (stops_lead_iff hlead h _).1 hstops
  have halone : Stops piece final := by
    have hnil := @stops_final piece [] final hfinal fun _ => stops_of_ends NumberText.ends_nil piece
    rwa [List.append_nil] at hnil
  have hlong := hread _ hbehind
  have hshort := hread _ halone
  rw [Document.ofText, Document.ofText, String.toList_append, heq, List.append_assoc,
    List.append_assoc, hlong, hshort]

/-- Behind the value of a JSON text the reader leaves blanks only. -/
theorem Json.skipBlanks_of_isText {text rest : List Char} (h : Json.IsText text)
    (hread : (Reader.read text).2 = some rest) : Reader.skipBlanks rest = [] := by
  obtain ⟨lead, piece, final, rfl, hlead, hfinal, h⟩ := h
  obtain ⟨document, whole, hvalue⟩ := Reader.exists_read hlead h
  have hstops := @stops_final piece [] final hfinal fun _ => stops_of_ends NumberText.ends_nil piece
  rw [List.append_nil] at hstops
  rw [hvalue final hstops] at hread
  cases whole with
  | false => cases hread
  | true =>
    obtain rfl := Option.some.inj hread
    have hskip := Reader.skipBlanks_append hfinal []
    rwa [List.append_nil] at hskip

/-- **Who refuses unfinished documents accepts a text by a front of it**, which is one JSON text,
and does not ask what stands behind. -/
theorem Refuses.ofText_eq_ok_iff {read : Document → Except ε α} (hrefuses : Refuses read)
    {text : String} {a : α} :
    read (.ofText text) = .ok a ↔ ∃ front rest, text = front ++ rest ∧ Json.IsText front.toList ∧
      Stops front.toList rest.toList ∧ read (.ofText front) = .ok a := by
  constructor
  · intro h
    have hended :=
      Reader.ended_value text.toList.length Reader.depthLimit text.toList (Nat.le_refl _)
    cases hread : Reader.value text.toList.length Reader.depthLimit text.toList with
    | mk document left =>
      have hdocument : Document.ofText text = document := by
        rw [Document.ofText, Reader.read, hread]
      rw [hread] at hended
      cases hended with
      | inside hunfinished => exact absurd (hdocument ▸ h) (hrefuses document hunfinished a)
      | @behind _ lead piece rest htext hlead hpiece hstops =>
        have heq : text = String.ofList (lead ++ piece) ++ String.ofList rest := by
          refine String.toList_inj.1 ?_
          simp [htext]
        have hfront : Json.IsText (String.ofList (lead ++ piece)).toList :=
          ⟨lead, piece, [], by simp, hlead, Reader.isBlanks_nil, hpiece⟩
        have hstops' :
            Stops (String.ofList (lead ++ piece)).toList (String.ofList rest).toList := by
          rw [String.toList_ofList, String.toList_ofList, stops_lead_iff hlead hpiece]
          exact hstops
        refine ⟨_, _, heq, hfront, hstops', ?_⟩
        rw [← Document.ofText_append hfront hstops', ← heq]
        exact h
  · rintro ⟨front, rest, rfl, hfront, hstops, h⟩
    rw [Document.ofText_append hfront hstops]
    exact h

/-! ### Tables and schemas -/

theorem Table.refuses_ofDocument (origin : Origin) : Refuses (Table.ofDocument origin) := by
  intro document hunfinished table h
  obtain ⟨decls, hdecls, -⟩ := exists_of_bind_eq_ok h
  exact Declaration.refuses_table origin document hunfinished decls (eq_ok_of_mapError hdecls)

/-- The schema of a document, as it is loaded. -/
def Schema.ofDocument (path : String) (document : Document) : Except SchemaError Schema :=
  match document.value with
  | .ok root => .ok (Schema.ofJson root)
  | .error m => .error (.parse path m)

theorem Schema.refuses_ofDocument (path : String) : Refuses (Schema.ofDocument path) := by
  intro document hunfinished schema h
  unfold Schema.ofDocument at h
  split at h
  · next root hvalue => exact Refuses.value document hunfinished root hvalue
  · cases h

/-- A value either ends by itself or is a number. -/
theorem JsonText.stops_or_number {text : List Char} (h : Spells .value text) :
    (∀ rest, Stops text rest) ∨
      ∃ t : NumberText, t.IsValid ∧ (text = t.chars ∨ text = '-' :: t.chars) := by
  cases h with
  | nested h => exact .inl (stops_nested _ h)
  | leaf h =>
    cases h with
    | null => exact .inl (stops_of_last ['n', 'u', 'l'] (by decide))
    | true => exact .inl (stops_of_last ['t', 'r', 'u'] (by decide))
    | false => exact .inl (stops_of_last ['f', 'a', 'l', 's'] (by decide))
    | string h => exact .inl (stops_string h)
    | number h => exact .inr ⟨_, h, .inl rfl⟩
    | negative h => exact .inr ⟨_, h, .inr rfl⟩

/-- A number declares no table. -/
theorem Declaration.table_leaf_ne_ok (origin : Origin) (result : Except Fault (Number × List Char))
    (decls : Fields MethodDecl) :
    Declaration.table origin (Reader.leaf .num result).1 ≠ .ok decls := by
  cases result <;> exact nofun

/-- The text of a table ends by itself. -/
theorem Table.stops_of_ofText {front : String} {table : Table} (hfront : Json.IsText front.toList)
    (h : Table.ofText front = .ok table) (rest : List Char) : Stops front.toList rest := by
  obtain ⟨lead, piece, final, heq, hlead, hfinal, hpiece⟩ := hfront
  rw [heq]
  rcases List.eq_nil_or_concat' final with rfl | ⟨blanks, c, rfl⟩
  · rw [List.append_nil, stops_lead_iff hlead hpiece]
    rcases stops_or_number hpiece with hstops | ⟨t, ht, hnumber⟩
    · exact hstops rest
    · -- a number is read as one, and that is no table
      obtain ⟨decls, hdecls, -⟩ := exists_of_bind_eq_ok h
      have hdecls := eq_ok_of_mapError hdecls
      rw [Document.ofText, Reader.read, heq, Reader.value_append_blanks hlead] at hdecls
      obtain ⟨c, digits, hchars, hc⟩ := exists_digit_chars ht
      rcases hnumber with rfl | rfl
      · rw [hchars, List.cons_append, Reader.value_digit hc] at hdecls
        exact absurd hdecls (Declaration.table_leaf_ne_ok _ _ _)
      · rw [List.cons_append, Reader.value_minus] at hdecls
        exact absurd hdecls (Declaration.table_leaf_ne_ok _ _ _)
  · rw [← List.append_assoc, ← List.append_assoc]
    exact stops_of_last _ (not_isDigit_of_isBlank (hfinal c (by simp))) rest

/-- **A table and a schema are accepted by a front of their text**, which is one JSON text that is
accepted; what stands behind it makes no difference. A table ends by itself; where a schema is a
bare number, the number must not go on. -/
theorem ofText_eq_ok_iff_front (text : String) :
    (∀ table, Table.ofText text = .ok table ↔
      ∃ front rest, text = front ++ rest ∧ Json.IsText front.toList ∧
        Table.ofText front = .ok table) ∧
    ∀ path schema, Schema.ofText path text = .ok schema ↔
      ∃ front rest, text = front ++ rest ∧ Json.IsText front.toList ∧
        Stops front.toList rest.toList ∧
        Schema.ofText path front = .ok schema := by
  refine ⟨fun table => ?_, fun path schema => (Schema.refuses_ofDocument path).ofText_eq_ok_iff⟩
  refine (Table.refuses_ofDocument .text).ofText_eq_ok_iff.trans ?_
  refine exists_congr fun front => exists_congr fun rest => and_congr_right fun _ =>
    and_congr_right fun hfront => ?_
  exact and_iff_right_of_imp fun h => Table.stops_of_ofText hfront h _

/-- Two documents in one text. -/
def twoDocuments : String := "\x7b\"m\":\x7b\x7d\x7d \x7b\"n\":\x7b\x7d\x7d"

theorem ofText_two_documents :
    (Table.ofText twoDocuments).map Fields.names = .ok ["m"] ∧
      (Schema.ofText "schema.json" twoDocuments).map Schema.root = .ok (.obj [("m", .obj [])]) ∧
      ¬Json.IsText twoDocuments.toList ∧ Json.parse? twoDocuments = none := by
  have hread : Reader.read twoDocuments.toList = (.obj [⟨"m", .obj [] .closed, none⟩] .closed,
      some [' ', '\x7b', '"', 'n', '"', ':', '\x7b', '\x7d', '\x7d']) := by cbv
  have hdocument : Document.ofText twoDocuments = .obj [⟨"m", .obj [] .closed, none⟩] .closed := by
    rw [Document.ofText, hread]
  refine ⟨by rw [Table.ofText, hdocument]; rfl, by rw [Schema.ofText, hdocument]; rfl, fun h => ?_,
    by rw [Json.parse?, hread]; rfl⟩
  have hskip := Json.skipBlanks_of_isText h (congrArg Prod.snd hread)
  cases hskip

end BuilderApi
