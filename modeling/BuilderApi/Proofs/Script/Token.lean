import BuilderApi.Proofs.Json.Numeral
import BuilderApi.Script.Literal

/-!
# Tokens of script text

The part of the lexical grammar of scripts that expressions of generated modules need: names,
numerals, string literals without line ends, the arrow, and single marks. Reading is maximal: a name
or a numeral takes all the characters that could continue it, and two marks that would make a longer
one are refused.

Which characters beyond ASCII are letters is a matter of the character database and left open; the
lexer is given a `BuilderApi.Script.Letters`, and nothing depends on which one.

For every kind of token there is one lemma that says how it is read off the front of a text.
-/

namespace BuilderApi

namespace Script

/-! ### Names -/

/-- The letters beyond ASCII. -/
structure Letters where
  /-- Those that may begin a name. -/
  start : Char → Bool
  /-- Those that may continue a name. -/
  part : Char → Bool

namespace Letters

variable (letters : Letters)

/-- May the character begin a name? -/
def isStart (c : Char) : Bool :=
  if c.toNat < 128 then c.isAlpha || c == '_' || c == '$' else letters.start c

/-- May the character continue a name? -/
def isPart (c : Char) : Bool :=
  if c.toNat < 128 then c.isAlphanum || c == '_' || c == '$' else letters.part c

/-- Is the text a name of the script language? -/
def isName (text : List Char) : Bool :=
  match text with
  | [] => false
  | c :: rest => letters.isStart c && rest.all letters.isPart

end Letters

/-- No letters but those of ASCII. -/
def asciiLetters : Letters := ⟨fun _ => false, fun _ => false⟩

/-! ### String literals -/

/-- The character that a short escape stands for. -/
def shortEscape (c : Char) : Option Char :=
  if c = '"' ∨ c = '\\' ∨ c = '/' then some c
  else if c = 'n' then some '\n'
  else if c = 'r' then some '\r'
  else if c = 't' then some '\t'
  else if c = 'b' then some '\x08'
  else if c = 'f' then some '\x0c'
  else none

/-- The value of a hexadecimal digit. -/
def hexValue (c : Char) : Option Nat :=
  if '0' ≤ c ∧ c ≤ '9' then some (c.toNat - 48)
  else if 'a' ≤ c ∧ c ≤ 'f' then some (c.toNat - 87)
  else if 'A' ≤ c ∧ c ≤ 'F' then some (c.toNat - 55)
  else none

/-- The character of a four-digit escape; halves of pairs are refused. -/
def codeUnit (a b c d : Char) : Option Char := do
  let code := 4096 * (← hexValue a) + 256 * (← hexValue b) + 16 * (← hexValue c) + (← hexValue d)
  if code.isValidChar then some (Char.ofNat code) else none

/-- Does the character end a line? -/
def endsLine (c : Char) : Bool := c == '\n' || c == '\r' || c.toNat == 0x2028 || c.toNat == 0x2029

/-- Puts a character in front of the part of a string literal that was read. -/
def consRead (c : Char) (read : Option (List Char × List Char)) : Option (List Char × List Char) :=
  read.map fun (s, rest) => (c :: s, rest)

/-- Reads a string literal behind its opening quote. -/
def stringBody : List Char → Option (List Char × List Char)
  | [] => none
  | c :: text =>
    if c = '"' then some ([], text)
    else if c = '\\' then
      match text with
      | [] => none
      | 'u' :: a :: b :: c :: d :: text =>
        match codeUnit a b c d with
        | some c => consRead c (stringBody text)
        | none => none
      | c :: text =>
        match shortEscape c with
        | some c => consRead c (stringBody text)
        | none => none
    else if endsLine c then none
    else consRead c (stringBody text)

/-! ### Tokens -/

/-- A token. -/
inductive Token where
  /-- A name, reserved or not. -/
  | word (name : String)
  /-- A numeral. -/
  | number (value : Number)
  /-- A string literal. -/
  | string (value : String)
  /-- A mark. -/
  | mark (c : Char)
  /-- The arrow of a function. -/
  | arrow
deriving DecidableEq

/-- The marks that are tokens. -/
def marks : List Char := ['(', ')', '[', ']', '\x7b', '\x7d', '?', ':', ',', ';', '.', '-']

/-- Would the two characters make a longer mark or a numeral? -/
def joins (c next : Char) : Bool :=
  (c == '?' && (next == '?' || next == '.')) || (c == '-' && (next == '-' || next == '=')) ||
    (c == '.' && (next == '.' || next.isDigit))

/-- Reads a blank or a token. -/
def next (letters : Letters) (c : Char) (text : List Char) : Option (List Token × List Char) :=
  if c = ' ' then some ([], text)
  else if c = '"' then (stringBody text).map fun (s, rest) => ([.string (String.ofList s)], rest)
  else if letters.isStart c then
    some ([.word (String.ofList (c :: text.takeWhile letters.isPart))],
      text.dropWhile letters.isPart)
  else if c.isDigit then
    match Numeral.read (c :: text) with
    | some (n, rest) => if rest.head?.any letters.isStart then none else some ([.number n], rest)
    | none => none
  else if c = '=' then
    match text with
    | '>' :: rest => some ([.arrow], rest)
    | _ => none
  else if c ∈ marks ∧ ¬text.head?.any (joins c) then some ([.mark c], text)
  else none

/-- The tokens of a text. -/
def lex (letters : Letters) : List Char → Option (List Token)
  | [] => some []
  | c :: text =>
    match next letters c text with
    | some (tokens, rest) =>
      if rest.length ≤ text.length then (lex letters rest).map (tokens ++ ·) else none
    | none => none
termination_by text => text.length

/-! ### Reading tokens off the front of a text -/

variable {letters : Letters}

/-- Puts tokens in front of those of the rest of a text. -/
def push (tokens : List Token) (rest : Option (List Token)) : Option (List Token) :=
  rest.map (tokens ++ ·)

@[simp] theorem push_push (a b : List Token) (rest : Option (List Token)) :
    push a (push b rest) = push (a ++ b) rest := by
  cases rest <;> simp [push]

@[simp] theorem push_nil (rest : Option (List Token)) : push [] rest = rest := by
  cases rest <;> rfl

theorem lex_of_next {c : Char} {text rest : List Char} {tokens : List Token}
    (h : next letters c text = some (tokens, rest)) (hlength : rest.length ≤ text.length) :
    lex letters (c :: text) = push tokens (lex letters rest) := by
  rw [lex, h]
  exact if_pos hlength

theorem lex_blank (text : List Char) : lex letters (' ' :: text) = lex letters text := by
  have hnext : next letters ' ' text = some ([], text) := rfl
  rw [lex_of_next hnext le_rfl, push_nil]

theorem lex_mark {c : Char} (hc : c ∈ marks) {text : List Char}
    (hjoin : text.head?.any (joins c) = false) :
    lex letters (c :: text) = push [.mark c] (lex letters text) := by
  have hkind : c ≠ ' ' ∧ c ≠ '"' ∧ letters.isStart c = false ∧ c.isDigit = false ∧ c ≠ '=' := by
    simp only [marks, List.mem_cons, List.not_mem_nil, or_false] at hc
    rcases hc with rfl | rfl | rfl | rfl | rfl | rfl | rfl | rfl | rfl | rfl | rfl | rfl <;>
      exact ⟨by decide, by decide, rfl, by decide, by decide⟩
  obtain ⟨hblank, hquote, hstart, hdigit, heq⟩ := hkind
  refine lex_of_next ?_ le_rfl
  simp [next, hblank, hquote, hstart, hdigit, heq, hc, hjoin]

theorem lex_arrow (text : List Char) :
    lex letters ('=' :: '>' :: text) = push [.arrow] (lex letters text) := by
  refine lex_of_next ?_ (by simp)
  have hstart : letters.isStart '=' = false := rfl
  simp [next, hstart]

/-- Characters that may begin a name begin no other token. -/
theorem kind_of_isStart {c : Char} (hc : letters.isStart c = true) : c ≠ ' ' ∧ c ≠ '"' := by
  constructor
  · rintro rfl
    cases hc
  · rintro rfl
    cases hc

/-- **A name is read whole** in front of a character that cannot continue it. -/
theorem lex_word {name text : List Char} (hname : letters.isName name = true)
    (htext : ∀ c ∈ text.head?, letters.isPart c = false) :
    lex letters (name ++ text) = push [.word (String.ofList name)] (lex letters text) := by
  cases name with
  | nil => cases hname
  | cons c name =>
    rw [Letters.isName, Bool.and_eq_true, List.all_eq_true] at hname
    obtain ⟨hblank, hquote⟩ := kind_of_isStart hname.1
    -- the name ends here, because what follows does not continue it
    have hend : text.takeWhile letters.isPart = [] ∧ text.dropWhile letters.isPart = text := by
      cases text with
      | nil => simp
      | cons d text => simp [htext d (by simp)]
    have hnext :
        next letters c (name ++ text) = some ([.word (String.ofList (c :: name))], text) := by
      unfold next
      rw [if_neg hblank, if_neg hquote, if_pos hname.1, List.takeWhile_append_of_pos hname.2,
        List.dropWhile_append_of_pos hname.2, hend.1, hend.2, List.append_nil]
    exact lex_of_next hnext (by simp)

/-- A digit begins a numeral. -/
theorem kind_of_isDigit (letters : Letters) {c : Char} (hc : c.isDigit = true) :
    c ≠ ' ' ∧ c ≠ '"' ∧ letters.isStart c = false := by
  have hrange : 48 ≤ c.toNat ∧ c.toNat ≤ 57 := by
    simpa [Char.isDigit, UInt32.le_iff_toNat_le] using hc
  have hne : ∀ d : Char, d.toNat < 48 ∨ 57 < d.toNat → c ≠ d := by
    rintro d hd rfl
    omega
  have halpha : c.isAlpha = false := by
    have hdigits : ∀ n < 58, 48 ≤ n → (Char.ofNat n).isAlpha = false := by decide
    rw [← Char.ofNat_toNat c]
    exact hdigits _ (by omega) hrange.1
  refine ⟨hne _ (by decide), hne _ (by decide), ?_⟩
  rw [Letters.isStart, if_pos (by omega), halpha]
  simp [hne '_' (by decide), hne '$' (by decide)]

/-- **A numeral is read whole** in front of a character that cannot continue it. -/
theorem lex_number {numeral text : List Char} {n : Number}
    (hhead : ∃ c ∈ numeral.head?, c.isDigit = true)
    (hread : Numeral.read (numeral ++ text) = some (n, text))
    (htext : ∀ c ∈ text.head?, letters.isStart c = false) :
    lex letters (numeral ++ text) = push [.number n] (lex letters text) := by
  obtain ⟨c, hc, hdigit⟩ := hhead
  obtain ⟨rest, rfl⟩ := List.head?_eq_some_iff.1 hc
  obtain ⟨hblank, hquote, hstart⟩ := kind_of_isDigit letters hdigit
  have hend : text.head?.any letters.isStart = false := by
    cases text with
    | nil => rfl
    | cons d text => simpa using htext d (by simp)
  have hnext : next letters c (rest ++ text) = some ([.number n], text) := by
    unfold next
    rw [if_neg hblank, if_neg hquote, if_neg (by simp [hstart]), if_pos hdigit,
      ← List.cons_append, hread]
    simp [hend]
  exact lex_of_next hnext (by simp)

/-! ### String literals that were written -/

/-- A character inside a string literal of a script. -/
def escaped (c : Char) : List Char := escapeSeparators (Json.escapeChar c)

theorem escapeSeparator_of_ascii {c : Char} (hc : c.toNat < 128) : escapeSeparator c = [c] := by
  rw [escapeSeparator, if_neg (by omega), if_neg (by omega)]

theorem escapeSeparators_of_ascii {text : List Char} (h : ∀ c ∈ text, c.toNat < 128) :
    escapeSeparators text = text := by
  induction text with
  | nil => rfl
  | cons c text ih =>
    rw [escapeSeparators, List.flatMap_cons, escapeSeparator_of_ascii (h c (by simp)),
      ← escapeSeparators, ih fun d hd => h d (List.mem_cons_of_mem _ hd)]
    rfl

theorem escapeSeparators_append (a b : List Char) :
    escapeSeparators (a ++ b) = escapeSeparators a ++ escapeSeparators b := List.flatMap_append

/-- The two digits of a control character read back. -/
theorem codeUnit_hexDigit : ∀ n < 32,
    codeUnit '0' '0' (Json.hexDigit (n / 16)) (Json.hexDigit n) = some (Char.ofNat n) ∧
      (Json.hexDigit (n / 16)).toNat < 128 ∧ (Json.hexDigit n).toNat < 128 := by decide

theorem stringBody_plain {c : Char} (hquote : c ≠ '"') (hslash : c ≠ '\\')
    (hend : endsLine c = false) (text : List Char) :
    stringBody (c :: text) = consRead c (stringBody text) := by
  conv_lhs => unfold stringBody
  rw [if_neg hquote, if_neg hslash, if_neg (by simp [hend])]

/-- **Whatever is written for a character reads back as that character.** -/
theorem stringBody_escaped (c : Char) (text : List Char) :
    stringBody (escaped c ++ text) = consRead c (stringBody text) := by
  unfold escaped Json.escapeChar
  split_ifs with hquote hslash hfeed hreturn htab hback hform hcontrol
  · subst hquote; rfl
  · subst hslash; rfl
  · subst hfeed; rfl
  · subst hreturn; rfl
  · subst htab; rfl
  · obtain rfl : c = '\x08' := Char.toNat_inj.1 hback
    rfl
  · obtain rfl : c = '\x0c' := Char.toNat_inj.1 hform
    rfl
  · -- any other control character has four digits, the first two of them zeros
    obtain ⟨hcode, hhigh, hlow⟩ := codeUnit_hexDigit c.toNat hcontrol
    rw [Char.ofNat_toNat] at hcode
    rw [escapeSeparators_of_ascii (by simp [hhigh, hlow])]
    change (match codeUnit '0' '0' (Json.hexDigit (c.toNat / 16)) (Json.hexDigit c.toNat) with
      | some c => consRead c (stringBody text)
      | none => none) = _
    rw [hcode]
  · -- a character that is written as it is, unless it is one of the two line separators
    by_cases hline : c.toNat = 0x2028
    · obtain rfl : c = Char.ofNat 0x2028 := by rw [← hline, Char.ofNat_toNat]
      rfl
    · by_cases hparagraph : c.toNat = 0x2029
      · obtain rfl : c = Char.ofNat 0x2029 := by rw [← hparagraph, Char.ofNat_toNat]
        rfl
      · have hkept : escapeSeparators [c] = [c] := by
          simp [escapeSeparators, escapeSeparator, hline, hparagraph]
        rw [hkept]
        exact stringBody_plain hquote hslash
          (by simp [endsLine, hfeed, hreturn, hline, hparagraph]) text

theorem stringBody_flatMap (s text : List Char) :
    stringBody (s.flatMap escaped ++ '"' :: text) = some (s, text) := by
  induction s with
  | nil =>
    change stringBody ('"' :: text) = _
    unfold stringBody
    exact if_pos rfl
  | cons c s ih =>
    rw [List.flatMap_cons, List.append_assoc, stringBody_escaped, ih, consRead, Option.map_some]

/-- A string in quotes, with its line separators escaped. -/
theorem escapeSeparators_quoteChars (s : List Char) :
    escapeSeparators (Json.quoteChars s) = '"' :: (s.flatMap escaped ++ ['"']) := by
  have hbody : escapeSeparators (s.flatMap Json.escapeChar) = s.flatMap escaped := by
    induction s with
    | nil => rfl
    | cons c s ih => rw [List.flatMap_cons, escapeSeparators_append, ih, List.flatMap_cons, escaped]
  have hquote : ∀ text, escapeSeparators ('"' :: text) = '"' :: escapeSeparators text :=
    fun _ => rfl
  rw [Json.quoteChars, List.cons_append, hquote, escapeSeparators_append, hbody]
  rfl

/-- **A string literal is read whole.** -/
theorem lex_quoteChars (s : String) (text : List Char) :
    lex letters (escapeSeparators (Json.quoteChars s.toList) ++ text) =
      push [.string s] (lex letters text) := by
  have hbody := stringBody_flatMap s.toList text
  rw [escapeSeparators_quoteChars, List.cons_append, List.append_assoc]
  refine lex_of_next ?_ (by simp only [List.length_append, List.length_cons]; omega)
  unfold next
  rw [if_neg (by decide), if_pos rfl, List.singleton_append, hbody]
  simp

end Script

end BuilderApi
