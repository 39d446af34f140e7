import BuilderApi.Proofs.Script.Token
import BuilderApi.Proofs.Table.Dispatch
import BuilderApi.Script.Expr

/-!
# The names that a text calls

A text calls a name where the name stands right in front of an opening parenthesis, unless a dot
stands in front of the name (`BuilderApi.Script.calls`, and `BuilderApi.Script.mem_calls_iff` for
what that means).

A text is put together from pieces, and a name must not run from one piece into the next. So there
are two properties of a piece. It **calls only** certain names when it is read behind something that
ends no name; it is **firm** when it does so behind any text. Firm pieces may follow anything. Every
text without a parenthesis is firm, whatever it contains.
-/

namespace BuilderApi

/-! ### Texts without a parenthesis -/

/-- A text without an opening parenthesis. -/
def Inert (text : String) : Prop := '(' ∉ text.toList

instance (text : String) : Decidable (Inert text) := inferInstanceAs (Decidable ('(' ∉ text.toList))

theorem inert_append {a b : String} : Inert (a ++ b) ↔ Inert a ∧ Inert b := by
  simp [Inert, not_or]

/-- A character that may stand in a numeral. -/
def isNumeralChar (c : Char) : Bool := c.isDigit || c ∈ ['-', '+', '.', 'e']

/-- Digits are characters of numerals. -/
theorem isNumeralChar_toDigits (n : Nat) : (Nat.toDigits 10 n).all isNumeralChar = true := by
  rw [List.all_eq_true]
  intro c hc
  rw [isNumeralChar, Numeral.toDigits_isDigit n c hc, Bool.true_or]

theorem isNumeralChar_layout {digits : List Char} (hdigits : digits.all isNumeralChar = true)
    (exponent : Int) :
    (Double.layout digits exponent).all isNumeralChar = true := by
  have hzeros : ∀ n, (Double.zeros n).all isNumeralChar = true := by
    intro n
    rw [List.all_eq_true]
    intro c hc
    rw [List.eq_of_mem_replicate hc]
    decide
  have hpart : ∀ {part : List Char}, part ⊆ digits → part.all isNumeralChar = true := fun hpart =>
    List.all_eq_true.2 fun c hc => List.all_eq_true.1 hdigits c (hpart hc)
  have htake : ∀ n, (digits.take n).all isNumeralChar = true :=
    fun n => hpart (List.take_subset n digits)
  have hdrop : ∀ n, (digits.drop n).all isNumeralChar = true :=
    fun n => hpart (List.drop_subset n digits)
  have hmarks : isNumeralChar '0' = true ∧ isNumeralChar '.' = true ∧ isNumeralChar 'e' = true ∧
      isNumeralChar '-' = true ∧ isNumeralChar '+' = true := by decide
  unfold Double.layout
  simp only
  split_ifs <;> simp only [List.all_append, List.all_cons, List.all_nil, List.cons_append, hzeros,
    htake, hdrop, hdigits, hmarks, isNumeralChar_toDigits, Bool.and_self]

/-- A printed number has characters of numerals only. -/
theorem isNumeralChar_chars (n : Number) : n.chars.all isNumeralChar = true := by
  have hsigned : ∀ {body : List Char}, body.all isNumeralChar = true →
      ('-' :: body).all isNumeralChar = true := by
    intro body hbody
    rw [List.all_cons, hbody]
    decide
  cases n with
  | int n =>
    rw [Number.chars]
    split
    · exact hsigned (isNumeralChar_toDigits _)
    · exact isNumeralChar_toDigits _
  | double x =>
    have hbody : (Numeral.body x).all isNumeralChar = true := by
      unfold Numeral.body
      split
      · decide
      · refine isNumeralChar_layout (List.all_eq_true.2 fun c hc => ?_) _
        unfold Double.dropTrailingZeros at hc
        have hmem := List.mem_reverse.1 ((List.dropWhile_sublist _).mem (List.mem_reverse.1 hc))
        exact List.all_eq_true.1 (isNumeralChar_toDigits _) c hmem
    rw [Number.chars, Numeral.chars_eq]
    split
    · exact hsigned hbody
    · exact hbody

/-- Numerals have no parenthesis. -/
theorem not_mem_of_isNumeralChar {chars : List Char} (h : chars.all isNumeralChar = true) :
    '(' ∉ chars := by
  intro hmem
  cases List.all_eq_true.1 h _ hmem

theorem Inert.append {a b : String} (ha : Inert a) (hb : Inert b) : Inert (a ++ b) :=
  inert_append.2 ⟨ha, hb⟩

/-- Printed numbers have no parenthesis. -/
theorem inert_toString (n : Nat) : Inert (toString n) := by
  have hdigits : (toString n).toList = Nat.toDigits 10 n := by
    simp [toString, Nat.repr]
  rw [Inert, hdigits]
  exact not_mem_of_isNumeralChar (isNumeralChar_toDigits n)

namespace Json

/-- The string has no opening parenthesis, or the names of the members have none. -/
def isInertPart : Json → Bool
  | .str text => '(' ∉ text.toList
  | .obj members => members.all fun member => '(' ∉ member.1.toList
  | _ => true

/-- Does no string and no name in the value have an opening parenthesis? -/
def isInert (value : Json) : Bool := value.everywhere isInertPart

end Json

namespace Script

/-- Quoting adds no parenthesis. -/
theorem not_mem_quoteChars {text : List Char} (h : '(' ∉ text) : '(' ∉ Json.quoteChars text := by
  have hescape : ∀ c, '(' ∈ Json.escapeChar c → c = '(' := by
    intro c hc
    have hhex : ∀ n, '(' ≠ Json.hexDigit n := by
      have hall : ∀ n : Fin 16, '(' ≠ Nat.digitChar n := by decide
      exact fun n => hall ⟨n % 16, Nat.mod_lt n (by decide)⟩
    unfold Json.escapeChar at hc
    split_ifs at hc <;> simp [hhex] at hc
    exact hc.symm
  simp only [Json.quoteChars, List.cons_append, List.mem_cons, List.mem_append, List.mem_flatMap,
    List.not_mem_nil, Char.reduceEq, or_false, false_or, not_exists, not_and]
  intro c hc hmem
  exact h (hescape c hmem ▸ hc)

/-- Escaping separators adds no parenthesis. -/
theorem not_mem_escapeSeparators {text : List Char} (h : '(' ∉ text) :
    '(' ∉ escapeSeparators text := by
  simp only [escapeSeparators, List.mem_flatMap, not_exists, not_and]
  intro c hc hmem
  unfold escapeSeparator at hmem
  split_ifs at hmem
  · simp at hmem
  · simp at hmem
  · exact h (List.mem_singleton.1 hmem ▸ hc)

mutual

/-- A printed value has no parenthesis if none of its texts has one. -/
theorem not_mem_chars : ∀ {value : Json}, value.isInert = true → '(' ∉ value.chars
  | .null, _ => by decide
  | .bool true, _ => by decide
  | .bool false, _ => by decide
  | .num n, _ => not_mem_of_isNumeralChar (isNumeralChar_chars n)
  | .str text, h =>
    not_mem_quoteChars (by simpa [Json.isInert, Json.everywhere, Json.isInertPart] using h)
  | .arr items, h => by
    have hitems := not_mem_itemChars items (Json.everywhere_arr.1 h).2
    simpa [Json.chars] using hitems
  | .obj members, h => by
    have hmembers := not_mem_memberChars members
      (by simpa [Json.isInertPart, Inert] using (Json.everywhere_obj.1 h).1)
      (Json.everywhere_obj.1 h).2
    simpa [Json.chars] using hmembers

theorem not_mem_itemChars : ∀ items : List Json, (∀ item ∈ items, item.isInert = true) →
    '(' ∉ Json.itemChars items
  | [], _ => by decide
  | [item], h => not_mem_chars (h item List.mem_cons_self)
  | item :: next :: rest, h => by
    have hitem := not_mem_chars (h item List.mem_cons_self)
    have hrest := not_mem_itemChars (next :: rest) fun other hother =>
      h other (List.mem_cons_of_mem _ hother)
    simpa [Json.itemChars] using ⟨hitem, hrest⟩

theorem not_mem_memberChars : ∀ members : List (String × Json),
    (∀ name value, (name, value) ∈ members → Inert name) →
    (∀ member ∈ members, member.2.isInert = true) →
      '(' ∉ Json.memberChars members
  | [], _, _ => by decide
  | [(name, value)], hnames, h => by
    have hname := not_mem_quoteChars (hnames name value List.mem_cons_self)
    have hvalue := not_mem_chars (h (name, value) List.mem_cons_self)
    simpa [Json.memberChars] using ⟨hname, hvalue⟩
  | (name, value) :: next :: rest, hnames, h => by
    have hname := not_mem_quoteChars (hnames name value List.mem_cons_self)
    have hvalue := not_mem_chars (h (name, value) List.mem_cons_self)
    have hrest := not_mem_memberChars (next :: rest)
      (fun other value hother => hnames other value (List.mem_cons_of_mem _ hother))
      fun other hother => h other (List.mem_cons_of_mem _ hother)
    simpa [Json.memberChars] using ⟨hname, hvalue, hrest⟩

end

mutual

/-- A printed literal has no parenthesis if none of its texts has one. -/
theorem not_mem_literalChars : ∀ {value : Json}, value.isInert = true → '(' ∉ literalChars value
  | .null, h | .bool _, h | .num _, h => not_mem_chars h
  | .str _, h | .obj _, h => not_mem_escapeSeparators (not_mem_chars h)
  | .arr items, h => by
    have hitems := not_mem_literalItems items (Json.everywhere_arr.1 h).2
    simpa [literalChars] using hitems

theorem not_mem_literalItems : ∀ items : List Json, (∀ item ∈ items, item.isInert = true) →
    '(' ∉ literalItems items
  | [], _ => by decide
  | [item], h => not_mem_literalChars (h item List.mem_cons_self)
  | item :: next :: rest, h => by
    have hitem := not_mem_literalChars (h item List.mem_cons_self)
    have hrest := not_mem_literalItems (next :: rest) fun other hother =>
      h other (List.mem_cons_of_mem _ hother)
    simpa [literalItems] using ⟨hitem, hrest⟩

end

/-- Literals whose texts have no parenthesis call nothing. -/
theorem inert_literal {value : Json} (h : value.isInert = true) : Inert (literal value) := by
  simpa [Inert, literal] using not_mem_literalChars h

theorem isInert_str {text : String} : (Json.str text).isInert = true ↔ Inert text := by
  simp [Json.isInert, Json.everywhere, Json.isInertPart, Inert]

/-- Quoted texts without a parenthesis call nothing. -/
theorem inert_quoted {text : String} (h : Inert text) : Inert (quoted text) :=
  inert_literal (isInert_str.2 h)

theorem inert_strs {texts : List String} (h : ∀ text ∈ texts, Inert text) :
    Inert (literal (Json.strs texts)) := by
  refine inert_literal (Json.everywhere_arr.2 ⟨rfl, fun item hitem => ?_⟩)
  obtain ⟨text, htext, rfl⟩ := List.mem_map.1 hitem
  exact isInert_str.2 (h text htext)

end Script

namespace Script

section
variable (letters : Letters)

/-- The names that a text calls, behind a word that is given in reverse and may have a dot in front
of it. -/
def callsFrom (dotted : Bool) (word : List Char) : List Char → List String
  | [] => []
  | c :: text =>
    if letters.isPart c then callsFrom dotted (c :: word) text
    else if c = '(' ∧ word ≠ [] ∧ !dotted then
      String.ofList word.reverse :: callsFrom (c == '.') [] text
    else callsFrom (c == '.') [] text

/-- The names that a text calls. -/
def calls (text : String) : List String := callsFrom letters false [] text.toList

end

variable {letters : Letters}

/-- The longest name at the end of a text is determined by the text. -/
theorem name_at_end_unique {a b v w : List Char} (hv : ∀ c ∈ v, letters.isPart c = true)
    (hw : ∀ c ∈ w, letters.isPart c = true) (ha : ∀ c ∈ a.getLast?, letters.isPart c = false)
    (hb : ∀ c ∈ b.getLast?, letters.isPart c = false) (h : a ++ v = b ++ w) : a = b ∧ v = w := by
  -- what one text has more in front would end in a character that is part of a name and is not
  have hshift : ∀ {a x w : List Char}, (∀ c ∈ (a ++ x).getLast?, letters.isPart c = false) →
      (∀ c ∈ x ++ w, letters.isPart c = true) → x = [] := by
    intro a x w hlast hparts
    by_contra hx
    have hmem := List.getLast_mem hx
    have hend : letters.isPart (x.getLast hx) = false := hlast _ (by
      rw [List.getLast?_append_of_ne_nil _ hx, List.getLast?_eq_some_getLast hx]
      rfl)
    rw [hparts _ (List.mem_append_left w hmem)] at hend
    cases hend
  rcases List.append_eq_append_iff.1 h with ⟨x, rfl, rfl⟩ | ⟨x, rfl, rfl⟩
  · obtain rfl := hshift hb hv
    simp
  · obtain rfl := hshift ha hw
    simp

/-- A parenthesis is no part of a name. -/
theorem isPart_parenthesis : letters.isPart '(' = false := by
  simp [Letters.isPart]

/-- Where the parenthesis of a call is the next character. -/
theorem next_parenthesis_iff {front text before name after : List Char} {c : Char} :
    front ++ c :: text = before ++ name ++ '(' :: after ∧ after.length = text.length ↔
      front = before ++ name ∧ c = '(' ∧ text = after := by
  constructor
  · rintro ⟨heq, hlength⟩
    obtain ⟨hleft, hright⟩ := List.append_inj' heq (by simp [hlength])
    exact ⟨hleft, by simpa using hright⟩
  · rintro ⟨heq, rfl, rfl⟩
    rw [heq]
    exact ⟨rfl, rfl⟩

/-- What is called in front of the next character: the word that was read. -/
theorem called_next_iff {front word : List Char} {c : Char} {name : String}
    (hword : ∀ c ∈ word, letters.isPart c = true)
    (hfront : ∀ c ∈ front.getLast?, letters.isPart c = false) :
    (name.toList ≠ [] ∧ (∀ c ∈ name.toList, letters.isPart c = true) ∧
      ∃ before, front ++ word.reverse = before ++ name.toList ∧ c = '(' ∧
        ∀ c ∈ before.getLast?, letters.isPart c = false ∧ c ≠ '.') ↔
    (c = '(' ∧ word ≠ [] ∧ !(front.getLast? == some '.')) ∧ name = String.ofList word.reverse := by
  constructor
  · rintro ⟨hne, hparts, before, heq, rfl, hbefore⟩
    obtain ⟨rfl, hname⟩ :=
      name_at_end_unique (by simpa using hword) hparts hfront (fun c hc => (hbefore c hc).1) heq
    refine ⟨⟨rfl, ?_, ?_⟩, ?_⟩
    · rintro rfl
      exact hne hname.symm
    · simpa using fun h => (hbefore '.' h).2 rfl
    · exact String.toList_inj.1 (by simp [hname])
  · rintro ⟨⟨rfl, hne, hdot⟩, rfl⟩
    refine ⟨by simpa using hne, by simpa using hword, front, by simp, rfl,
      fun c hc => ⟨hfront c hc, ?_⟩⟩
    rintro rfl
    simp [Option.mem_def.1 hc] at hdot

/-- Reading goes on behind `front` and a word, which is given in reverse. A call is a longest word,
with no dot in front, and with its parenthesis in the text that is still to be read. -/
theorem mem_callsFrom_iff {front word text : List Char} {name : String}
    (hword : ∀ c ∈ word, letters.isPart c = true)
    (hfront : ∀ c ∈ front.getLast?, letters.isPart c = false) :
    name ∈ callsFrom letters (front.getLast? == some '.') word text ↔
      name.toList ≠ [] ∧ (∀ c ∈ name.toList, letters.isPart c = true) ∧
        ∃ before after, front ++ word.reverse ++ text = before ++ name.toList ++ '(' :: after ∧
          after.length < text.length ∧ ∀ c ∈ before.getLast?, letters.isPart c = false ∧
          c ≠ '.' := by
  induction text generalizing front word with
  | nil => simp [callsFrom]
  | cons c text ih =>
    rw [callsFrom]
    split
    · next hpart =>
      have hsame : front ++ (c :: word).reverse ++ text = front ++ word.reverse ++ c :: text := by
        simp
      rw [ih (List.forall_mem_cons.2 ⟨hpart, hword⟩) hfront, hsame]
      refine and_congr_right fun _ => and_congr_right fun _ => exists_congr fun before =>
        exists_congr fun after => and_congr_right fun heq => and_congr_left fun _ =>
          ⟨fun h => Nat.lt_succ_of_lt h, fun h => ?_⟩
      -- the next character is no parenthesis
      refine lt_of_le_of_ne (Nat.lt_succ_iff.1 h) fun hlength => ?_
      obtain ⟨-, rfl, -⟩ := next_parenthesis_iff.1 ⟨heq, hlength⟩
      rw [isPart_parenthesis] at hpart
      cases hpart
    · next hpart =>
      rw [Bool.not_eq_true] at hpart
      have hlast : (front ++ word.reverse ++ [c]).getLast? = some c := by simp
      have hbehind := @ih (front ++ word.reverse ++ [c]) [] (by simp) (by simpa [hlast] using hpart)
      rw [hlast, List.reverse_nil, List.append_nil, List.append_assoc, List.singleton_append,
        Option.some_beq_some] at hbehind
      have hcons : name ∈ (if c = '(' ∧ word ≠ [] ∧ !(front.getLast? == some '.') then
            String.ofList word.reverse :: callsFrom letters (c == '.') [] text
          else callsFrom letters (c == '.') [] text) ↔
          ((c = '(' ∧ word ≠ [] ∧ !(front.getLast? == some '.')) ∧
            name = String.ofList word.reverse) ∨
            name ∈ callsFrom letters (c == '.') [] text := by
        split
        · next hcall => rw [List.mem_cons, and_iff_right hcall]
        · next hcall => exact ⟨.inr, fun h => h.resolve_left fun h => hcall h.1⟩
      rw [hcons, ← called_next_iff hword hfront, hbehind]
      constructor
      · rintro (⟨hne, hparts, before, heq, hc, hbefore⟩ | ⟨hne, hparts, before, after, heq,
          hlength, hbefore⟩)
        · obtain ⟨hall, hlength⟩ := next_parenthesis_iff.2 ⟨heq, hc, rfl⟩
          exact ⟨hne, hparts, before, text, hall, Nat.lt_succ_of_le (Nat.le_of_eq hlength), hbefore⟩
        · exact ⟨hne, hparts, before, after, heq, Nat.lt_succ_of_lt hlength, hbefore⟩
      · rintro ⟨hne, hparts, before, after, heq, hlength, hbefore⟩
        rcases Nat.lt_succ_iff_lt_or_eq.1 hlength with hlt | hlength
        · exact .inr ⟨hne, hparts, before, after, heq, hlt, hbefore⟩
        · obtain ⟨hword', hc, -⟩ := next_parenthesis_iff.1 ⟨heq, hlength⟩
          exact .inl ⟨hne, hparts, before, hword', hc, hbefore⟩

/-- **What calls are.** A text calls a name that stands right in front of an opening parenthesis, at
its full length and with no dot in front. -/
theorem mem_calls_iff {text name : String} : name ∈ calls letters text ↔
    name.toList ≠ [] ∧ (∀ c ∈ name.toList, letters.isPart c = true) ∧
      ∃ before after, text.toList = before ++ name.toList ++ '(' :: after ∧
        ∀ c ∈ before.getLast?, letters.isPart c = false ∧ c ≠ '.' := by
  have h := @mem_callsFrom_iff letters [] [] text.toList name (by simp) (by simp)
  refine h.trans (and_congr_right fun _ => and_congr_right fun _ => exists_congr fun before =>
    exists_congr fun after => and_congr_right fun heq => and_iff_right ?_)
  have hlength := congrArg List.length heq
  simp only [List.reverse_nil, List.append_nil, List.nil_append, List.length_append,
    List.length_cons] at hlength
  omega

/-! ### Pieces of text -/

section

variable (letters : Letters) (allowed : String → Prop)

/-- Behind text that ends no name, the piece calls only allowed names. -/
def CallsOnly (text : String) : Prop := ∀ name ∈ calls letters text, allowed name

/-- Behind any text, the piece calls only allowed names. -/
def Firm (text : String) : Prop :=
  ∀ dotted word, ∀ name ∈ callsFrom letters dotted word text.toList, allowed name

/-- The text ends no name. -/
def Stops (text : String) : Prop := ∃ c, text.toList.getLast? = some c ∧ letters.isPart c = false

end

variable {allowed : String → Prop}

/-- Without a dot in front there are at least the same calls. -/
theorem mem_callsFrom_undotted {name : String} {text word : List Char} {dotted : Bool}
    (h : name ∈ callsFrom letters dotted word text) : name ∈ callsFrom letters false word text := by
  induction text generalizing dotted word with
  | nil => exact h
  | cons c text ih =>
    rw [callsFrom] at h ⊢
    split at h
    · next hpart => exact (if_pos hpart).symm ▸ ih h
    · next hpart =>
      rw [if_neg hpart]
      split at h
      · next hcall => rwa [if_pos ⟨hcall.1, hcall.2.1, rfl⟩]
      · split
        · exact List.mem_cons_of_mem _ h
        · exact h

/-- The word at the end of a text, in reverse, and whether a dot stands in front of it. -/
def wordBehind (letters : Letters) (dotted : Bool) (word : List Char) : List Char → Bool × List Char
  | [] => (dotted, word)
  | c :: text =>
    if letters.isPart c then wordBehind letters dotted (c :: word) text
    else wordBehind letters (c == '.') [] text

/-- The calls of a text that follows another one depend on the word at the end of the first. -/
theorem callsFrom_append (dotted : Bool) (word a b : List Char) :
    callsFrom letters dotted word (a ++ b) =
    callsFrom letters dotted word a ++
      callsFrom letters (wordBehind letters dotted word a).1
        (wordBehind letters dotted word a).2 b := by
  induction a generalizing dotted word with
  | nil => rfl
  | cons c a ih =>
    rw [List.cons_append, callsFrom, callsFrom, wordBehind]
    split
    · exact ih _ _
    · split
      · rw [ih, List.cons_append]
      · exact ih _ _

/-- The word at the end of two texts is found by way of the word at the end of the first. -/
theorem wordBehind_append (dotted : Bool) (word a b : List Char) :
    wordBehind letters dotted word (a ++ b) =
      wordBehind letters (wordBehind letters dotted word a).1
        (wordBehind letters dotted word a).2 b := by
  induction a generalizing dotted word with
  | nil => rfl
  | cons c a ih =>
    rw [List.cons_append, wordBehind, wordBehind]
    split <;> exact ih _ _

/-- Behind a character that stops a word there is none. -/
theorem wordBehind_of_stops {c : Char} (hc : letters.isPart c = false) (dotted : Bool)
    (word text : List Char) :
    wordBehind letters dotted word (text ++ [c]) = (c == '.', []) := by
  rw [wordBehind_append, wordBehind, if_neg (by simp [hc]), wordBehind]

/-- A word grows while there are parts of names. -/
theorem wordBehind_of_parts {word : List Char} (hword : ∀ c ∈ word, letters.isPart c = true)
    (dotted : Bool) (done : List Char) :
    wordBehind letters dotted done word = (dotted, word.reverse ++ done) := by
  induction word generalizing done with
  | nil => rfl
  | cons c word ih =>
    rw [List.forall_mem_cons] at hword
    rw [wordBehind, if_pos hword.1, ih hword.2]
    simp

/-- What a text calls behind a text that stops, apart from what that text calls. -/
theorem mem_callsFrom_append_of_stops {front back name : String} (hfront : Stops letters front)
    {dotted : Bool} {word : List Char}
    (h : name ∈ callsFrom letters dotted word (front ++ back).toList) :
    name ∈ callsFrom letters dotted word front.toList ∨ name ∈ calls letters back := by
  obtain ⟨c, hlast, hc⟩ := hfront
  obtain ⟨text, htext⟩ := List.getLast?_eq_some_iff.1 hlast
  rw [String.toList_append, callsFrom_append, List.mem_append] at h
  rw [htext, wordBehind_of_stops hc] at h
  exact h.imp (htext ▸ id) mem_callsFrom_undotted

namespace Firm

theorem callsOnly {text : String} (h : Firm letters allowed text) :
    CallsOnly letters allowed text := h _ _

/-- A text without a parenthesis may follow anything. -/
theorem of_inert {text : String} (h : Inert text) : Firm letters allowed text := by
  intro dotted word name hname
  rw [Inert] at h
  generalize text.toList = chars at h hname
  induction chars generalizing dotted word with
  | nil => cases hname
  | cons c chars ih =>
    rw [List.mem_cons, not_or] at h
    rw [callsFrom] at hname
    split at hname
    · exact ih _ _ h.2 hname
    · rw [if_neg fun hcall => h.1 hcall.1.symm] at hname
      exact ih _ _ h.2 hname

theorem append {a b : String} (ha : Firm letters allowed a) (hb : Firm letters allowed b) :
    Firm letters allowed (a ++ b) := by
  intro dotted word name h
  rw [String.toList_append, callsFrom_append, List.mem_append] at h
  exact h.elim (ha _ _ name) (hb _ _ name)

end Firm

namespace CallsOnly

/-- What may follow anything may follow a text that calls only what is allowed. -/
theorem append_firm {a b : String} (ha : CallsOnly letters allowed a)
    (hb : Firm letters allowed b) :
    CallsOnly letters allowed (a ++ b) := by
  intro name h
  rw [calls, String.toList_append, callsFrom_append, List.mem_append] at h
  exact h.elim (ha name) (hb _ _ name)

theorem append_inert {a b : String} (ha : CallsOnly letters allowed a) (hb : Inert b) :
    CallsOnly letters allowed (a ++ b) := ha.append_firm (.of_inert hb)

end CallsOnly

/-- Text whose first character continues no name and is no parenthesis. -/
theorem Firm.of_head {text : String} {c : Char} (hhead : text.toList.head? = some c)
    (hpart : letters.isPart c = false) (hc : c ≠ '(') (h : CallsOnly letters allowed text) :
    Firm letters allowed text := by
  intro dotted word name hname
  refine h name ?_
  unfold calls
  obtain ⟨chars, hchars⟩ := List.head?_eq_some_iff.1 hhead
  rw [hchars, callsFrom, if_neg (by simp [hpart]), if_neg fun hcall => hc hcall.1] at hname ⊢
  exact hname

/-- Behind a parenthesis that is the last one, only the word in front of it is called. -/
theorem mem_callsFrom_parenthesis {dotted : Bool} {word rest : List Char} {name : String}
    (hrest : '(' ∉ rest) (h : name ∈ callsFrom letters dotted word ('(' :: rest)) :
    dotted = false ∧ name = String.ofList word.reverse := by
  have hinert : Inert (String.ofList rest) := by simpa [Inert] using hrest
  have hfirm : Firm letters (fun _ => False) (String.ofList rest) := Firm.of_inert hinert
  have hnone : ∀ word, name ∉ callsFrom letters ('(' == '.') word rest := fun word hmem =>
    hfirm _ word name (by simpa using hmem)
  rw [callsFrom, if_neg (by simp [isPart_parenthesis])] at h
  split at h
  · next hcall =>
    rcases List.mem_cons.1 h with rfl | h
    · exact ⟨by simpa using hcall.2.2, rfl⟩
    · exact absurd h (hnone _)
  · exact absurd h (hnone _)

/-- Names have no parenthesis. -/
theorem inert_of_parts {name : String} (hname : ∀ c ∈ name.toList, letters.isPart c = true) :
    Inert name := by
  intro hmem
  have hpart := hname _ hmem
  rw [isPart_parenthesis] at hpart
  cases hpart

/-- A name in front of a parenthesis is called. -/
theorem callsOnly_call {name text : String} {rest : List Char}
    (hname : ∀ c ∈ name.toList, letters.isPart c = true) (hallowed : allowed name)
    (htext : text.toList = '(' :: rest) (hrest : '(' ∉ rest) :
    CallsOnly letters allowed (name ++ text) := by
  intro called h
  rw [calls, String.toList_append, htext, callsFrom_append, wordBehind_of_parts hname,
    List.mem_append] at h
  rcases h with h | h
  · exact Firm.of_inert (inert_of_parts hname) _ _ called h
  · obtain ⟨-, rfl⟩ := mem_callsFrom_parenthesis hrest h
    simpa using hallowed

/-- A name behind a dot is not. -/
theorem callsOnly_method {front name text : String} {rest : List Char} (hfront : Inert front)
    (hdot : front.toList.getLast? = some '.') (hname : ∀ c ∈ name.toList, letters.isPart c = true)
    (htext : text.toList = '(' :: rest) (hrest : '(' ∉ rest) :
    CallsOnly letters allowed (front ++ name ++ text) := by
  obtain ⟨chars, hchars⟩ := List.getLast?_eq_some_iff.1 hdot
  intro called h
  rw [calls, String.toList_append, String.toList_append, htext, callsFrom_append, List.mem_append]
    at h
  rcases h with h | h
  · rw [← String.toList_append] at h
    exact (Firm.of_inert hfront).append (Firm.of_inert (inert_of_parts hname)) _ _ called h
  · have hbehind : wordBehind letters false [] (front.toList ++ name.toList) =
        (true, name.toList.reverse) := by
      rw [wordBehind_append, hchars, wordBehind_of_stops (by simp [Letters.isPart]),
        wordBehind_of_parts hname, List.append_nil]
      rfl
    rw [hbehind] at h
    cases (mem_callsFrom_parenthesis hrest h).1

/-! ### Text of its own -/

/-- Parts of names among the first characters are the same for all letters. -/
theorem isPart_eq_ascii {c : Char} (hc : c.toNat < 128) :
    letters.isPart c = asciiLetters.isPart c := by
  rw [Letters.isPart, Letters.isPart, if_pos hc, if_pos hc]

/-- So the calls of a plain text do not depend on what else is a letter. -/
theorem callsFrom_eq_ascii {text : List Char} (htext : ∀ c ∈ text, c.toNat < 128) (dotted : Bool)
    (word : List Char) :
    callsFrom letters dotted word text = callsFrom asciiLetters dotted word text := by
  induction text generalizing dotted word with
  | nil => rfl
  | cons c text ih =>
    rw [List.forall_mem_cons] at htext
    rw [callsFrom, callsFrom, isPart_eq_ascii htext.1, ih htext.2, ih htext.2]

/-- Are all characters of the text those of ASCII? -/
def isAscii (text : String) : Bool := text.toList.all fun c => c.toNat < 128

theorem isAscii_iff {text : String} : isAscii text = true ↔ ∀ c ∈ text.toList, c.toNat < 128 := by
  simp [isAscii]

/-- The calls of a text that is known can be computed. -/
theorem callsOnly_own {text : String} (names : List String) (hnames : ∀ name ∈ names, allowed name)
    (htext : isAscii text = true ∧ calls asciiLetters text = names) :
    CallsOnly letters allowed text := by
  intro name h
  rw [calls, callsFrom_eq_ascii (isAscii_iff.1 htext.1)] at h
  exact hnames name (htext.2 ▸ h)

/-- A fixed text that begins with no part of a name may follow anything if its calls are allowed. -/
theorem firm_own {text : String} (names : List String) (hnames : ∀ name ∈ names, allowed name)
    (htext : isAscii text = true ∧ calls asciiLetters text = names)
    (hhead : (text.toList.head?.any fun c => !asciiLetters.isPart c && c != '(') = true) :
    Firm letters allowed text := by
  cases hc : text.toList.head? with
  | none => simp [hc] at hhead
  | some c =>
    simp only [hc, Option.any_some, Bool.and_eq_true, Bool.not_eq_true', bne_iff_ne] at hhead
    have hascii := isAscii_iff.1 htext.1 c (List.mem_of_mem_head? hc)
    exact .of_head hc ((isPart_eq_ascii hascii).trans hhead.1) hhead.2
      (callsOnly_own names hnames htext)

/-- A fixed text stops words if its last character is no part of a name. -/
theorem stops_own {text : String}
    (htext : (text.toList.getLast?.any fun c => c.toNat < 128 && !asciiLetters.isPart c) = true) :
    Stops letters text := by
  cases hlast : text.toList.getLast? with
  | none => simp [hlast] at htext
  | some c =>
    simp only [hlast, Option.any_some, Bool.and_eq_true, decide_eq_true_eq, Bool.not_eq_true']
      at htext
    exact ⟨c, hlast, (isPart_eq_ascii htext.1).trans htext.2⟩

theorem stops_behind {a b : String}
    (htext : (b.toList.getLast?.any fun c => c.toNat < 128 && !asciiLetters.isPart c) = true) :
    Stops letters (a ++ b) := by
  obtain ⟨c, hlast, hc⟩ := stops_own htext
  obtain ⟨text, htext⟩ := List.getLast?_eq_some_iff.1 hlast
  exact ⟨c, by simp [htext], hc⟩

namespace CallsOnly

/-- A piece of any kind may follow a text that stops. -/
theorem append {a b : String} (ha : CallsOnly letters allowed a) (hb : CallsOnly letters allowed b)
    (hstops : Stops letters a) : CallsOnly letters allowed (a ++ b) := fun name h =>
  (mem_callsFrom_append_of_stops hstops h).elim (ha name) (hb name)

end CallsOnly

/-! ### Expressions -/

end Script

namespace ScriptExpr

mutual

/-- Nothing that an expression takes from a table has an opening parenthesis. -/
def IsInert : ScriptExpr → Prop
  | .ident name => Inert name
  | .argument _ | .properties => True
  | .literal value => value.isInert = true
  | .record members => MembersInert members
  | .check _ subject yes no => IsInert subject ∧ IsInert yes ∧ IsInert no
  | .mapItems subject body => IsInert subject ∧ IsInert body
  | .byFlag set unset => IsInert set ∧ IsInert unset
  | .hidden field => Inert field
  | .underHidden field value => Inert field ∧ IsInert value
  | .source text => Inert text
  | .nest value keys rest => IsInert value ∧ (∀ key ∈ keys, Inert key) ∧ Inert rest

/-- Nothing that the members of an object take from a table has an opening parenthesis. -/
def MembersInert : List (String × ScriptExpr) → Prop
  | [] => True
  | (name, value) :: rest => Inert name ∧ IsInert value ∧ MembersInert rest

end

open Script

variable {letters : Letters} {allowed : String → Prop}

theorem helper_parts (check : TypeCheck) : ∀ c ∈ check.helper.toList, letters.isPart c = true := by
  have hascii : isAscii check.helper = true := by cases check <;> decide
  have hparts : check.helper.toList.all asciiLetters.isPart = true := by cases check <;> decide
  exact fun c hc =>
    (isPart_eq_ascii (isAscii_iff.1 hascii c hc)).trans (List.all_eq_true.1 hparts c hc)

mutual

/-- **An expression calls its helpers**, and nothing else. -/
theorem callsOnly_text : ∀ expr : ScriptExpr, expr.IsInert → (∀ name ∈ expr.helpers, allowed name) →
    CallsOnly letters allowed expr.text
  | .ident _, h, _ | .source _, h, _ => (Firm.of_inert h).callsOnly
  | .literal _, h, _ => (Firm.of_inert (inert_literal h)).callsOnly
  | .argument position, _, _ => by
    have hfront : Inert "args[" := by decide
    exact (Firm.of_inert ((hfront.append (inert_toString position)).append (by decide))).callsOnly
  | .hidden field, h, _ => by
    have hfront : Inert "this[" := by decide
    exact (Firm.of_inert ((hfront.append (inert_quoted h)).append (by decide))).callsOnly
  | .properties, _, hallowed => callsOnly_own ["proto"] hallowed (by decide)
  | .record members, h, hallowed => by
    rw [text]
    have hfront : CallsOnly letters allowed "\x7b" :=
      callsOnly_own [] (List.forall_mem_nil _) (by decide)
    have hmembers := hfront.append (callsOnly_memberText members h hallowed) (stops_own (by decide))
    exact hmembers.append_inert (by decide)
  | .check test subject yes no, ⟨hsubject, hyes, hno⟩, hallowed => by
    simp only [helpers, List.forall_mem_cons, List.forall_mem_append, List.cons_append] at hallowed
    obtain ⟨htest, ⟨hallowed₁, hallowed₂⟩, hallowed₃⟩ := hallowed
    have hcall : CallsOnly letters allowed (test.helper ++ "(") :=
      callsOnly_call (helper_parts test) htest rfl (by simp)
    have hsubject' :=
      hcall.append (callsOnly_text subject hsubject hallowed₁) (stops_behind (by decide))
    have hif := hsubject'.append_inert (b := ") ? ") (by decide)
    have hyes' := hif.append (callsOnly_text yes hyes hallowed₂) (stops_behind (by decide))
    have helse := hyes'.append_inert (b := " : ") (by decide)
    exact helse.append (callsOnly_text no hno hallowed₃) (stops_behind (by decide))
  | .mapItems subject body, ⟨hsubject, hbody⟩, hallowed => by
    rw [helpers, List.forall_mem_append] at hallowed
    have harrow : Firm letters allowed ".map(_ => \x7b return " :=
      firm_own [] (List.forall_mem_nil _) (by decide) (by decide)
    have hmap := (callsOnly_text subject hsubject hallowed.1).append_firm harrow
    have hbody' := hmap.append (callsOnly_text body hbody hallowed.2) (stops_behind (by decide))
    exact hbody'.append_inert (by decide)
  | .byFlag set unset, ⟨hset, hunset⟩, hallowed => by
    rw [helpers, List.forall_mem_append] at hallowed
    have hfront : CallsOnly letters allowed "flag ? " :=
      callsOnly_own [] (List.forall_mem_nil _) (by decide)
    have hset' := hfront.append (callsOnly_text set hset hallowed.1) (stops_own (by decide))
    have helse := hset'.append_inert (b := " : ") (by decide)
    exact helse.append (callsOnly_text unset hunset hallowed.2) (stops_behind (by decide))
  | .underHidden field value, ⟨hfield, hvalue⟩, hallowed => by
    have hfront : Inert "\x7b[this[" := by decide
    have hname : CallsOnly letters allowed ("\x7b[this[" ++ quoted field ++ "]]: ") :=
      (Firm.of_inert ((hfront.append (inert_quoted hfield)).append (by decide))).callsOnly
    have hvalue' := hname.append (callsOnly_text value hvalue hallowed) (stops_behind (by decide))
    exact hvalue'.append_inert (by decide)
  | .nest value keys rest, ⟨hvalue, hkeys, hrest⟩, hallowed => by
    rw [helpers, List.forall_mem_cons] at hallowed
    have hfront : CallsOnly letters allowed "nest(" :=
      callsOnly_own ["nest"] (by simpa using hallowed.1) (by decide)
    have hvalue' := hfront.append (callsOnly_text value hvalue hallowed.2) (stops_own (by decide))
    have hcomma := hvalue'.append_inert (b := ", ") (by decide)
    have hkeys' : Inert (Script.literal (Json.strs keys)) := inert_strs hkeys
    have hkeysEnd := (hcomma.append_inert hkeys').append_inert (b := ", ") (by decide)
    exact (hkeysEnd.append_inert (inert_quoted hrest)).append_inert (by decide)

/-- The members of an object call only the helpers of their values. -/
theorem callsOnly_memberText : ∀ members : List (String × ScriptExpr), MembersInert members →
    (∀ name ∈ memberHelpers members, allowed name) → CallsOnly letters allowed (memberText members)
  | [], _, _ => callsOnly_own [] (List.forall_mem_nil _) (by decide)
  | [(name, value)], ⟨hname, hvalue, _⟩, hallowed => by
    rw [memberHelpers, List.forall_mem_append] at hallowed
    have hfront : CallsOnly letters allowed (name ++ ": ") :=
      (Firm.of_inert hname).callsOnly.append_inert (by decide)
    exact hfront.append (callsOnly_text value hvalue hallowed.1) (stops_behind (by decide))
  | (name, value) :: next :: rest, ⟨hname, hvalue, hrest⟩, hallowed => by
    rw [memberHelpers, List.forall_mem_append] at hallowed
    have hfront : CallsOnly letters allowed (name ++ ": ") :=
      (Firm.of_inert hname).callsOnly.append_inert (by decide)
    have hvalue' :=
      hfront.append (callsOnly_text value hvalue hallowed.1) (stops_behind (by decide))
    have hcomma := hvalue'.append_inert (b := ", ") (by decide)
    exact hcomma.append (callsOnly_memberText (next :: rest) hrest hallowed.2)
      (stops_behind (by decide))

end

end ScriptExpr

end BuilderApi
