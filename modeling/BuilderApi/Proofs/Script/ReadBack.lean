import BuilderApi.Proofs.Json.Nesting
import BuilderApi.Proofs.Json.NumberText
import BuilderApi.Proofs.Json.Reading
import BuilderApi.Proofs.Script.Literal
import BuilderApi.Proofs.Table.Origins

/-!
# Literals read back as JSON

A literal is JSON text whose line separators are escaped. So it is still JSON, and it is read back
as the value that was written (`BuilderApi.Script.literal_readsBack`): the escape of a separator
stands inside a string, since separators stand nowhere else, and it stands behind whole escapes
only, so a backslash in front of it is never its own. What is left has no character that ends a
line.

Two things are asked of the value: its numbers are integers of 64 bits, and none of its objects
names a member twice. A reader that gives up at some depth reads back the values that are nested no
deeper.
-/

namespace BuilderApi

namespace Json

/-- An integer of 64 bits, with a sign or without. -/
def isWord : Json → Bool
  | .num (.int n) => decide (-2 ^ 63 ≤ n) && decide (n < 2 ^ 64)
  | .num (.double _) => false
  | _ => true

/-- Are all numbers in the value integers of 64 bits? -/
def hasWords (value : Json) : Bool := value.everywhere isWord

mutual

/-- Numbers that are machine words are finite. -/
theorem isFinite_of_hasWords : ∀ {value : Json}, value.hasWords = true → value.isFinite = true
  | .null, _ | .bool _, _ | .str _, _ | .num (.int _), _ => rfl
  | .num (.double _), h => by cases h
  | .arr items, h => everywhere_arr.2 ⟨rfl, isFinite_of_itemsHaveWords (everywhere_arr.1 h).2⟩
  | .obj members, h => everywhere_obj.2 ⟨rfl, isFinite_of_membersHaveWords (everywhere_obj.1 h).2⟩

theorem isFinite_of_itemsHaveWords : ∀ {items : List Json}, (∀ item ∈ items, item.hasWords = true) →
    ∀ item ∈ items, item.isFinite = true
  | [], _ => List.forall_mem_nil _
  | _ :: _, h => List.forall_mem_cons.2 ⟨isFinite_of_hasWords (List.forall_mem_cons.1 h).1,
      isFinite_of_itemsHaveWords (List.forall_mem_cons.1 h).2⟩

theorem isFinite_of_membersHaveWords : ∀ {members : List (String × Json)},
    (∀ member ∈ members, member.2.hasWords = true) → ∀ member ∈ members, member.2.isFinite = true
  | [], _ => List.forall_mem_nil _
  | (_, _) :: _, h => List.forall_mem_cons.2 ⟨isFinite_of_hasWords (List.forall_mem_cons.1 h).1,
      isFinite_of_membersHaveWords (List.forall_mem_cons.1 h).2⟩

end

end Json

namespace Document

mutual

/-- The document of a value holds it, if no object names a member twice. -/
theorem holds_ofJson : ∀ {value : Json}, value.isKeyed = true → Holds (ofJson value) value
  | .null, _ => .null
  | .bool b, _ => .bool b
  | .num n, _ => .num n
  | .str s, _ => .str s
  | .arr _, h => .arr (itemsHold_ofItems (Json.isKeyed_arr.1 h))
  | .obj _, h => .obj (membersHold_ofMembers (Json.isKeyed_obj.1 h).2) (Json.isKeyed_obj.1 h).1

/-- The documents of items hold the items. -/
theorem itemsHold_ofItems : ∀ {items : List Json}, (∀ item ∈ items, item.isKeyed = true) →
    ItemsHold (ofItems items) items
  | [], _ => .nil
  | _ :: _, h => .cons (holds_ofJson (List.forall_mem_cons.1 h).1)
    (itemsHold_ofItems (List.forall_mem_cons.1 h).2)

theorem membersHold_ofMembers :
    ∀ {members : List (String × Json)}, (∀ member ∈ members, member.2.isKeyed = true) →
    MembersHold (ofMembers members) members
  | [], _ => .nil
  | (_, _) :: _, h =>
    .cons (holds_ofJson (List.forall_mem_cons.1 h).1)
      (membersHold_ofMembers (List.forall_mem_cons.1 h).2)

end

end Document

namespace Reader

open Script (escaped escapeSeparators)

variable {done : List Char} {bound : Nat}

/-! ### Strings -/

/-- The two digits of a control character read back. -/
theorem hexFour_hexDigit : ∀ n < 32, ∀ rest,
    hexFour ('0' :: '0' :: Json.hexDigit (n / 16) :: Json.hexDigit n :: rest) = .ok (n, rest) := by
  have hvalues : ∀ n < 32, hexValue? (Json.hexDigit (n / 16)) = some (n / 16) ∧
      hexValue? (Json.hexDigit n) = some (n % 16) := by decide
  intro n hn rest
  have hzero : hexValue? '0' = some 0 := rfl
  rw [hexFour, hzero, (hvalues n hn).1, (hvalues n hn).2]
  have hsum : ((0 * 16 + 0) * 16 + n / 16) * 16 + n % 16 = n := by omega
  simp only [hsum]

/-- **Whatever is written for a character is read as that character.** -/
theorem stringTail_escaped (c : Char) (text : List Char) :
    stringTail done (bound + 1) (escaped c ++ text) = stringTail (c :: done) bound text := by
  unfold escaped Json.escapeChar
  split_ifs with hquote hslash hfeed hreturn htab hback hform hcontrol
  · subst hquote; rfl
  · subst hslash; rfl
  · subst hfeed; rfl
  · subst hreturn; rfl
  · subst htab; rfl
  · obtain rfl : c = '\x08' := Char.toNat_inj.1 hback
    rfl
  · obtain rfl : c = '\x0c' := Char.toNat_inj.1 hform
    rfl
  · -- any other control character has four digits, the first two of them zeros
    obtain ⟨-, hhigh, hlow⟩ := Script.codeUnit_hexDigit c.toNat hcontrol
    have hfour := hexFour_hexDigit c.toNat hcontrol text
    have hescape :
        escape ('u' :: '0' :: '0' :: Json.hexDigit (c.toNat / 16) ::
          Json.hexDigit c.toNat :: text) =
        .ok (c, text) := by
      have htrail : isTrail c.toNat = false := by simp [isTrail]; omega
      have hlead : isLead c.toNat = false := by simp [isLead]; omega
      rw [escape, unicodeEscape, hfour]
      simp [bind, Except.bind, htrail, hlead]
    rw [Script.escapeSeparators_of_ascii (by simp [hhigh, hlow])]
    simp only [List.cons_append, List.nil_append]
    rw [stringTail, if_neg (by decide), if_pos rfl, hescape]
  · -- a character that is written as it is, unless it is one of the two line separators
    by_cases hline : c.toNat = 0x2028
    · obtain rfl : c = Char.ofNat 0x2028 := by rw [← hline, Char.ofNat_toNat]
      rfl
    · by_cases hparagraph : c.toNat = 0x2029
      · obtain rfl : c = Char.ofNat 0x2029 := by rw [← hparagraph, Char.ofNat_toNat]
        rfl
      · have hkept : escapeSeparators [c] = [c] := by
          simp [Script.escapeSeparators, Script.escapeSeparator, hline, hparagraph]
        rw [hkept, List.singleton_append, stringTail, if_neg hquote, if_neg hslash, if_neg hcontrol]

theorem length_escaped_pos (c : Char) : 0 < (escaped c).length := by
  have hchar : Json.escapeChar c ≠ [] := by
    unfold Json.escapeChar
    split_ifs <;> exact List.cons_ne_nil _ _
  have hseparator (d : Char) : Script.escapeSeparator d ≠ [] := by
    unfold Script.escapeSeparator
    split_ifs <;> exact List.cons_ne_nil _ _
  obtain ⟨d, rest, hd⟩ := List.exists_cons_of_ne_nil hchar
  rw [escaped, hd, escapeSeparators, List.flatMap_cons, List.length_append]
  exact Nat.add_pos_left (List.length_pos_iff.2 (hseparator d)) _

/-- The characters of a string are read behind those that are done. -/
theorem stringTail_flatMap (s text : List Char) (hbound : (s.flatMap escaped).length < bound) :
    stringTail done bound (s.flatMap escaped ++ '"' :: text) =
      .ok (String.ofList (done.reverse ++ s), text) := by
  induction s generalizing done bound with
  | nil =>
    obtain ⟨bound, rfl⟩ := Nat.exists_eq_succ_of_ne_zero (Nat.ne_of_gt hbound)
    change stringTail done (bound + 1) ('"' :: text) = _
    rw [stringTail, if_pos rfl, List.append_nil]
  | cons c s ih =>
    have hpos := length_escaped_pos c
    rw [List.flatMap_cons, List.length_append] at hbound
    obtain ⟨bound, rfl⟩ := Nat.exists_eq_succ_of_ne_zero (Nat.ne_of_gt (Nat.zero_lt_of_lt hbound))
    rw [List.flatMap_cons, List.append_assoc, stringTail_escaped, ih (by omega), List.reverse_cons,
      List.append_assoc, List.singleton_append]

/-- **A string is read whole.** -/
theorem stringTail_spelled (s : String) (text : List Char)
    (hbound : (s.toList.flatMap escaped).length < bound) :
    stringTail [] bound (s.toList.flatMap escaped ++ '"' :: text) = .ok (s, text) := by
  rw [stringTail_flatMap _ _ hbound, List.reverse_nil, List.nil_append, String.ofList_toList]

/-! ### Integers -/

/-- A numeral that goes on does not get smaller. -/
theorem foldl_digits_ge (digits : List Nat) (start : Nat) :
    start ≤ digits.foldl (fun n digit => n * 10 + digit) start := by
  induction digits generalizing start with
  | nil => exact Nat.le_refl _
  | cons digit digits ih => exact Nat.le_trans (show start ≤ start * 10 + digit by omega) (ih _)

/-- Digits whose number fits are absorbed to the last. -/
theorem absorb_eq {digits : List Nat} {start : Nat}
    (h : digits.foldl (fun n digit => n * 10 + digit) start < UInt64.size) :
    NumberLiteral.absorb start digits =
      (digits.foldl (fun n digit => n * 10 + digit) start, digits.length) := by
  induction digits generalizing start with
  | nil => rfl
  | cons digit digits ih =>
    have hfits := Nat.lt_of_le_of_lt (foldl_digits_ge digits (start * 10 + digit)) h
    rw [NumberLiteral.absorb, if_pos hfits, ih h]
    rfl

/-- The digits of a number are read as this number. -/
theorem foldl_toDigits (n : Nat) :
    ((Nat.toDigits 10 n).map digitValue).foldl (fun n digit => n * 10 + digit) 0 = n := by
  rw [List.foldl_map]
  simpa [Nat.ofDigitChars, digitValue, Nat.mul_comm] using Nat.ofDigitChars_ten_toDigits (n := n)

/-- An integer as it is written. -/
def integerText (n : Nat) : NumberText := ⟨Nat.toDigits 10 n, none, none⟩

/-- A printed number is a valid numeral. -/
theorem isValid_integerText (n : Nat) : (integerText n).IsValid :=
  ⟨Numeral.isWhole_toDigits n, nofun, nofun⟩

theorem chars_integerText (n : Nat) : (integerText n).chars = Nat.toDigits 10 n := by
  simp [integerText, NumberText.chars, NumberText.fractionChars, NumberText.exponentChars]

/-- **The literal of an integer that fits in a word is that integer.** -/
theorem number_integerText {n : Int} (h : (Json.num (.int n)).isWord = true) :
    ((integerText n.natAbs).literal (decide (n < 0))).number = some (.int n) := by
  rw [Json.isWord, Bool.and_eq_true, decide_eq_true_iff, decide_eq_true_iff] at h
  obtain ⟨hlow, hhigh⟩ := h
  have hsize : UInt64.size = 2 ^ 64 := rfl
  have habsorb :=
    @absorb_eq ((Nat.toDigits 10 n.natAbs).map digitValue) 0 (by rw [foldl_toDigits]; omega)
  rw [foldl_toDigits] at habsorb
  have hdropped (count : Nat) : ¬(count - count > 0) := by omega
  simp only [integerText, NumberText.literal, Option.map_none, NumberLiteral.number, habsorb,
    if_neg (hdropped _)]
  by_cases hneg : n < 0
  · have hrange : ¬(n.natAbs = 0 ∨ n.natAbs > Nat.pow 2 63) := by
      have hpow : Nat.pow 2 63 = 2 ^ 63 := rfl
      omega
    simp only [hneg, decide_true, Bool.not_true, Bool.false_eq_true, if_false, if_neg hrange]
    exact congrArg (some ∘ Number.int) (by omega)
  · simp only [hneg, decide_false, Bool.not_false, if_true]
    exact congrArg (some ∘ Number.int) (by omega)

/-- **An integer that fits in a word is read whole.** -/
theorem value_integer {n : Int} (h : (Json.num (.int n)).isWord = true) {text : List Char}
    (htext : NumberText.Ends text) (bound depth : Nat) :
    value bound depth ((Number.int n).chars ++ text) = (.num (.int n), some text) := by
  have hnumber :=
    NumberText.number_chars (isValid_integerText n.natAbs) (decide (n < 0)) htext.stopsBefore
  rw [number_integerText h, chars_integerText] at hnumber
  rw [Number.chars]
  split
  · next hneg =>
    rw [decide_eq_true hneg] at hnumber
    rw [List.cons_append, value_minus, hnumber]
    rfl
  · next hpos =>
    rw [decide_eq_false hpos] at hnumber
    obtain ⟨c, digits, hdigits⟩ :=
      List.exists_cons_of_ne_nil (Nat.toDigits_ne_nil (n := n.natAbs) (b := 10))
    have hc := Numeral.toDigits_isDigit n.natAbs c (by rw [hdigits]; exact List.mem_cons_self)
    rw [hdigits, List.cons_append] at hnumber ⊢
    rw [value_digit hc, hnumber]
    rfl

/-! ### Values -/

/-- No value begins with a blank or with the bracket that ends a list. -/
theorem exists_head {value : Json} (h : value.hasWords = true) :
    ∃ c rest, escapeSeparators value.chars = c :: rest ∧ isBlank c = false ∧ c ≠ ']' := by
  cases value with
  | null => exact ⟨_, _, rfl, rfl, by decide⟩
  | bool b => cases b <;> exact ⟨_, _, rfl, rfl, by decide⟩
  | str s => exact ⟨_, _, Script.escapeSeparators_quoteChars _, rfl, by decide⟩
  | arr items => exact ⟨_, _, Script.escapeSeparators_cons (by decide) _, rfl, by decide⟩
  | obj members => exact ⟨_, _, Script.escapeSeparators_cons (by decide) _, rfl, by decide⟩
  | num n =>
    rw [Json.chars, Script.escapeSeparators_of_ascii
      (Script.toNat_lt_of_mem_numberChars (Json.isFinite_of_hasWords h))]
    cases n with
    | double x => cases h
    | int n =>
      rw [Number.chars]
      split
      · exact ⟨_, _, rfl, rfl, by decide⟩
      · obtain ⟨c, digits, hdigits⟩ :=
          List.exists_cons_of_ne_nil (Nat.toDigits_ne_nil (n := n.natAbs) (b := 10))
        have hc := Numeral.toDigits_isDigit n.natAbs c (by rw [hdigits]; exact List.mem_cons_self)
        refine ⟨c, digits, hdigits, isBlank_of_isDigit hc, ?_⟩
        rintro rfl
        cases hc

/-- The text of items begins with that of the first, which is neither blank nor a bracket. -/
theorem exists_itemHead {item : Json} (rest : List Json) (h : item.hasWords = true) :
    ∃ c more, escapeSeparators (Json.itemChars (item :: rest)) = c :: more ∧ isBlank c = false ∧
      c ≠ ']' := by
  obtain ⟨c, more, hhead, hc⟩ := exists_head h
  cases rest with
  | nil => exact ⟨c, more, hhead, hc⟩
  | cons next rest =>
    refine ⟨c, more ++ escapeSeparators (',' :: Json.itemChars (next :: rest)), ?_, hc⟩
    rw [Json.itemChars, Script.escapeSeparators_append, hhead, List.cons_append]

mutual

/-- **Text with escaped separators is read as the value that was written**, as far as the reader
goes down. -/
theorem value_spelled : ∀ {value : Json}, value.hasWords = true → ∀ {bound depth : Nat}
    {text : List Char},
    (escapeSeparators value.chars).length ≤ bound → value.depth ≤ depth → NumberText.Ends text →
    Reader.value bound depth (escapeSeparators value.chars ++ text) = (.ofJson value, some text)
  | .null, _, _, _, text, _, _, _ => value_n _
  | .bool true, _, _, _, text, _, _, _ => value_t _
  | .bool false, _, _, _, text, _, _, _ => value_f _
  | .num (.double _), h, _, _, _, _, _, _ => by cases h
  | .num (.int n), h, bound, depth, text, _, _, htext => by
    rw [Json.chars,
      Script.escapeSeparators_of_ascii (Script.toNat_lt_of_mem_numberChars (n := .int n) rfl)]
    exact value_integer h htext bound depth
  | .str s, _, bound, depth, text, hbound, _, _ => by
    rw [Json.chars, Script.escapeSeparators_quoteChars] at hbound ⊢
    rw [List.length_cons, List.length_append] at hbound
    rw [List.cons_append, value_quote, List.append_assoc, List.singleton_append,
      stringTail_spelled _ _ (by omega)]
    rfl
  | .arr _, _, _, 0, _, _, hdepth, _ => absurd hdepth (Nat.not_succ_le_zero _)
  | .obj _, _, _, 0, _, _, hdepth, _ => absurd hdepth (Nat.not_succ_le_zero _)
  | .arr items, h, bound, depth + 1, text, hbound, hdepth, _ => by
    have hitems := @itemLoop_spelled items (Json.everywhere_arr.1 h).2
    have hclose : escapeSeparators [']'] = [']'] := rfl
    rw [Json.chars, List.cons_append, Script.escapeSeparators_cons (by decide),
      Script.escapeSeparators_append,
      hclose] at hbound ⊢
    rw [List.length_cons, List.length_append] at hbound
    rw [List.cons_append, value_list, List.append_assoc, List.singleton_append]
    rcases items with _ | ⟨item, rest⟩
    · exact list_closed (skipBlanks_cons rfl _)
    · obtain ⟨c, more, hhead, hblank, hc⟩ :=
        exists_itemHead rest ((Json.everywhere_arr.1 h).2 item List.mem_cons_self)
      have hread := @hitems (List.cons_ne_nil _ _) bound depth bound text (by omega) (by omega)
        (Json.depth_arr_le_succ_iff.1 hdepth)
      rw [hhead, List.cons_append] at hread ⊢
      rw [list_items (skipBlanks_cons hblank _) hc, hread]
      rfl
  | .obj members, h, bound, depth + 1, text, hbound, hdepth, _ => by
    have hmembers := @memberLoop_spelled members (Json.everywhere_obj.1 h).2
    have hclose : escapeSeparators ['\x7d'] = ['\x7d'] := rfl
    rw [Json.chars, List.cons_append, Script.escapeSeparators_cons (by decide),
      Script.escapeSeparators_append,
      hclose] at hbound ⊢
    rw [List.length_cons, List.length_append] at hbound
    rw [List.cons_append, value_object, List.append_assoc, List.singleton_append]
    rcases members with _ | ⟨member, rest⟩
    · exact object_closed (skipBlanks_cons rfl _)
    · obtain ⟨body, hbody, hread⟩ := hmembers (List.cons_ne_nil _ _)
      rw [hbody] at hbound ⊢
      rw [List.length_cons] at hbound
      rw [List.cons_append, object_members (skipBlanks_cons rfl _),
        hread (by omega) (by omega) (Json.depth_obj_le_succ_iff.1 hdepth)]
      rfl

/-- Printed items are read back, whatever follows the bracket. -/
theorem itemLoop_spelled :
    ∀ {items : List Json}, (∀ item ∈ items, item.hasWords = true) → items ≠ [] →
    ∀ {bound depth turns : Nat} {text : List Char},
    (escapeSeparators (Json.itemChars items)).length ≤ bound →
    (escapeSeparators (Json.itemChars items)).length ≤ turns →
    (∀ item ∈ items, item.depth ≤ depth) →
    itemLoop (Reader.value bound depth) turns
      (escapeSeparators (Json.itemChars items) ++ ']' :: text) =
      (Document.ofItems items, .closed, some text)
  | [], _, hne, _, _, _, _, _, _, _ => absurd rfl hne
  | [item], h, _, bound, depth, turns, text, hbound, hturns, hdepth => by
    have hread := @value_spelled item (h item (by simp)) bound depth (']' :: text) hbound
      (hdepth item (by simp)) (NumberText.ends_cons (by decide) _)
    obtain ⟨c, more, hhead, -⟩ := exists_head (h item (by simp))
    obtain ⟨turns, rfl⟩ := Nat.exists_eq_succ_of_ne_zero (show turns ≠ 0 by
      rintro rfl
      simp [Json.itemChars, hhead] at hturns)
    rw [Json.itemChars]
    exact itemLoop_last hread (skipBlanks_cons rfl _)
  | item :: next :: rest, h, _, bound, depth, turns, text, hbound, hturns, hdepth => by
    rw [Json.itemChars, Script.escapeSeparators_append, Script.escapeSeparators_cons (by decide)]
      at hbound hturns ⊢
    rw [List.length_append, List.length_cons] at hbound hturns
    obtain ⟨turns, rfl⟩ := Nat.exists_eq_succ_of_ne_zero (show turns ≠ 0 by omega)
    have hread := @value_spelled item (h item (by simp)) bound depth
      (',' :: (escapeSeparators (Json.itemChars (next :: rest)) ++ ']' :: text)) (by omega)
      (hdepth item (by simp)) (NumberText.ends_cons (by decide) _)
    have hrest :=
      @itemLoop_spelled (next :: rest) (fun other hother => h other (List.mem_cons_of_mem _ hother))
      (List.cons_ne_nil _ _) bound depth turns text (by omega) (by omega)
      (fun other hother => hdepth other (List.mem_cons_of_mem _ hother))
    obtain ⟨c, more, hhead, hblank, hc⟩ := exists_itemHead rest (h next (by simp))
    rw [hhead, List.cons_append] at hread hrest
    rw [hhead, List.append_assoc, List.cons_append, List.cons_append,
      itemLoop_comma hread (skipBlanks_cons rfl _) (skipBlanks_cons hblank _) hc, hrest]
    rfl

/-- Printed members are read back, whatever follows the brace. -/
theorem memberLoop_spelled :
    ∀ {members : List (String × Json)}, (∀ member ∈ members, member.2.hasWords = true) →
    members ≠ [] → ∃ body, escapeSeparators (Json.memberChars members) = '"' :: body ∧
      ∀ {bound depth turns : Nat} {text : List Char}, body.length < bound → body.length < turns →
      (∀ member ∈ members, member.2.depth ≤ depth) →
      memberLoop (Reader.value bound depth) bound turns (body ++ '\x7d' :: text) =
        (Document.ofMembers members, .closed, some text)
  | [], _, hne => absurd rfl hne
  | [(name, value)], h, _ => by
    refine ⟨name.toList.flatMap escaped ++ '"' :: ':' :: escapeSeparators value.chars, ?_, ?_⟩
    · rw [Json.memberChars, Script.escapeSeparators_append, Script.escapeSeparators_quoteChars,
        Script.escapeSeparators_cons (by decide)]
      simp
    · intro bound depth turns text hbound hturns hdepth
      rw [List.length_append, List.length_cons, List.length_cons] at hbound hturns
      obtain ⟨turns, rfl⟩ := Nat.exists_eq_succ_of_ne_zero (show turns ≠ 0 by omega)
      have hread :=
        @value_spelled value (h (name, value) (by simp)) bound depth ('\x7d' :: text) (by omega)
        (hdepth (name, value) (by simp)) (NumberText.ends_cons (by decide) _)
      rw [List.append_assoc, List.cons_append, List.cons_append]
      have hname := @stringTail_spelled bound name
        (':' :: (escapeSeparators value.chars ++ '\x7d' :: text)) (by omega)
      exact memberLoop_last hname (skipBlanks_cons rfl _) (memberPart_some hread)
        (skipBlanks_cons rfl _)
  | (name, value) :: next :: rest, h, _ => by
    obtain ⟨body, hbody, hrest⟩ := @memberLoop_spelled (next :: rest)
      (fun other hother => h other (List.mem_cons_of_mem _ hother)) (List.cons_ne_nil _ _)
    refine ⟨name.toList.flatMap escaped ++ '"' :: ':' ::
      (escapeSeparators value.chars ++ ',' :: '"' :: body), ?_, ?_⟩
    · rw [Json.memberChars, List.append_assoc, List.cons_append, Script.escapeSeparators_append,
        Script.escapeSeparators_quoteChars, Script.escapeSeparators_cons (by decide),
        Script.escapeSeparators_append, Script.escapeSeparators_cons (by decide), hbody]
      simp
    · intro bound depth turns text hbound hturns hdepth
      simp only [List.length_append, List.length_cons] at hbound hturns
      obtain ⟨turns, rfl⟩ := Nat.exists_eq_succ_of_ne_zero (show turns ≠ 0 by omega)
      have hread := @value_spelled value (h (name, value) (by simp)) bound depth
        (',' :: '"' :: (body ++ '\x7d' :: text)) (by omega) (hdepth (name, value) (by simp))
        (NumberText.ends_cons (by decide) _)
      have hname := @stringTail_spelled bound name
        (':' :: (escapeSeparators value.chars ++ ',' :: '"' :: (body ++ '\x7d' :: text))) (by omega)
      have hloop := @hrest bound depth turns text (by omega) (by omega)
        (fun other hother => hdepth other (List.mem_cons_of_mem _ hother))
      simp only [List.append_assoc, List.cons_append]
      rw [memberLoop_comma hname (skipBlanks_cons rfl _) (memberPart_some hread)
        (skipBlanks_cons rfl _) (skipBlanks_cons rfl _), hloop]
      rfl

end

end Reader

namespace Script

/-! ### Characters that end a line -/

/-- Can the character stand inside a line of a script? Control characters and the two line
separators cannot. -/
def IsLineSafe (c : Char) : Prop := 32 ≤ c.toNat ∧ c.toNat ≠ 0x2028 ∧ c.toNat ≠ 0x2029

/-- Plain characters keep a line together. -/
theorem isLineSafe_of_ascii {c : Char} (hlow : 32 ≤ c.toNat) (hhigh : c.toNat < 128) :
    IsLineSafe c :=
  ⟨hlow, by omega, by omega⟩

/-- Escaping leaves no separator in a text. -/
theorem isLineSafe_escapeSeparators {text : List Char} (h : ∀ c ∈ text, 32 ≤ c.toNat) :
    ∀ c ∈ escapeSeparators text, IsLineSafe c := by
  intro c hc
  obtain ⟨d, hd, hc⟩ := List.mem_flatMap.1 hc
  unfold escapeSeparator at hc
  split_ifs at hc with hline hparagraph
  · simp only [List.mem_cons, List.not_mem_nil, or_false] at hc
    rcases hc with rfl | rfl | rfl | rfl | rfl | rfl <;> exact isLineSafe_of_ascii
      (by decide) (by decide)
  · simp only [List.mem_cons, List.not_mem_nil, or_false] at hc
    rcases hc with rfl | rfl | rfl | rfl | rfl | rfl <;> exact isLineSafe_of_ascii
      (by decide) (by decide)
  · obtain rfl := List.mem_singleton.1 hc
    exact ⟨h c hd, hline, hparagraph⟩

/-- No character of an escape is a control character. -/
theorem le_of_mem_escapeChar {c d : Char} (h : d ∈ Json.escapeChar c) : 32 ≤ d.toNat := by
  have hdigits : ∀ n < 32, 32 ≤ (Json.hexDigit (n / 16)).toNat ∧ 32 ≤ (Json.hexDigit n).toNat := by
    decide
  unfold Json.escapeChar at h
  split_ifs at h with hquote hslash hfeed hreturn htab hback hform hcontrol
  all_goals simp only [List.mem_cons, List.not_mem_nil, or_false] at h
  · rcases h with rfl | rfl <;> decide
  · rcases h with rfl | rfl <;> decide
  · rcases h with rfl | rfl <;> decide
  · rcases h with rfl | rfl <;> decide
  · rcases h with rfl | rfl <;> decide
  · rcases h with rfl | rfl <;> decide
  · rcases h with rfl | rfl <;> decide
  · obtain ⟨hhigh, hlow⟩ := hdigits c.toNat hcontrol
    rcases h with rfl | rfl | rfl | rfl | rfl | rfl
    · decide
    · decide
    · decide
    · decide
    · exact hhigh
    · exact hlow
  · obtain rfl := h
    omega

/-- Quoted texts have no control characters. -/
theorem le_of_mem_quoteChars {s : List Char} : ∀ c ∈ Json.quoteChars s, 32 ≤ c.toNat := by
  intro c hc
  rw [Json.quoteChars, List.cons_append, List.mem_cons, List.mem_append, List.mem_singleton] at hc
  rcases hc with rfl | hc | rfl
  · decide
  · obtain ⟨d, -, hd⟩ := List.mem_flatMap.1 hc
    exact le_of_mem_escapeChar hd
  · decide

theorem le_of_mem_numberChars {n : Number} (h : (Json.num n).isWord = true) :
    ∀ c ∈ n.chars, 32 ≤ c.toNat := by
  have hdigit (c : Char) (hc : c.isDigit = true) : 32 ≤ c.toNat := by
    have hrange : 48 ≤ c.toNat ∧ c.toNat ≤ 57 := by
      simpa [Char.isDigit, UInt32.le_iff_toNat_le] using hc
    omega
  cases n with
  | double x => cases h
  | int n =>
    intro c hc
    rw [Number.chars] at hc
    split at hc
    · rcases List.mem_cons.1 hc with rfl | hc
      · decide
      · exact hdigit c (Numeral.toDigits_isDigit _ c hc)
    · exact hdigit c (Numeral.toDigits_isDigit _ c hc)

mutual

/-- **Compact text has no control character.** -/
theorem le_of_mem_chars : ∀ {value : Json}, value.hasWords = true → ∀ c ∈ value.chars, 32 ≤ c.toNat
  | .null, _ => by simp [Json.chars]
  | .bool true, _ => by simp [Json.chars]
  | .bool false, _ => by simp [Json.chars]
  | .num _, h => le_of_mem_numberChars h
  | .str _, _ => le_of_mem_quoteChars
  | .arr items, h => by
    have hitems := le_of_mem_itemChars items (Json.everywhere_arr.1 h).2
    rw [Json.chars, List.cons_append, List.forall_mem_cons, List.forall_mem_append,
      List.forall_mem_singleton]
    exact ⟨by decide, hitems, by decide⟩
  | .obj members, h => by
    have hmembers := le_of_mem_memberChars members (Json.everywhere_obj.1 h).2
    rw [Json.chars, List.cons_append, List.forall_mem_cons, List.forall_mem_append,
      List.forall_mem_singleton]
    exact ⟨by decide, hmembers, by decide⟩

theorem le_of_mem_itemChars : ∀ (items : List Json), (∀ item ∈ items, item.hasWords = true) →
    ∀ c ∈ Json.itemChars items, 32 ≤ c.toNat
  | [], _ => nofun
  | [item], h => le_of_mem_chars (h item (by simp))
  | item :: next :: rest, h => by
    have hrest := le_of_mem_itemChars (next :: rest) fun other hother =>
      h other (List.mem_cons_of_mem _ hother)
    rw [Json.itemChars, List.forall_mem_append, List.forall_mem_cons]
    exact ⟨le_of_mem_chars (h item (by simp)), by decide, hrest⟩

theorem le_of_mem_memberChars : ∀ (members : List (String × Json)),
    (∀ member ∈ members, member.2.hasWords = true) → ∀ c ∈ Json.memberChars members, 32 ≤ c.toNat
  | [], _ => nofun
  | [(name, value)], h => by
    rw [Json.memberChars, List.forall_mem_append, List.forall_mem_cons]
    exact ⟨le_of_mem_quoteChars, by decide, le_of_mem_chars (h (name, value) (by simp))⟩
  | (name, value) :: next :: rest, h => by
    have hrest := le_of_mem_memberChars (next :: rest) fun other hother =>
      h other (List.mem_cons_of_mem _ hother)
    rw [Json.memberChars, List.forall_mem_append, List.forall_mem_append, List.forall_mem_cons,
      List.forall_mem_cons]
    exact ⟨⟨le_of_mem_quoteChars, by decide, le_of_mem_chars (h (name, value) (by simp))⟩, by
      decide, hrest⟩

end

/-! ### Literals -/

variable {value : Json}

/-- **No character of a literal ends a line.** -/
theorem isLineSafe_literal (h : value.hasWords = true) :
    ∀ c ∈ (literal value).toList, IsLineSafe c := by
  rw [literal, String.toList_ofList, literalChars_eq (Json.isFinite_of_hasWords h)]
  exact isLineSafe_escapeSeparators (le_of_mem_chars h)

/-- **A literal is read back by every reader that goes down as far as the value does.** -/
theorem parseWithin_literal (hwords : value.hasWords = true) (hkeyed : value.isKeyed = true)
    {limit : Nat} (hdepth : value.depth ≤ limit) :
    Json.parseWithin? limit (literal value) = some value := by
  have hread := @Reader.value_spelled value hwords (literalChars value).length limit []
    (by rw [literalChars_eq (Json.isFinite_of_hasWords hwords)]) hdepth NumberText.ends_nil
  rw [List.append_nil, ← literalChars_eq (Json.isFinite_of_hasWords hwords)] at hread
  unfold Json.parseWithin?
  rw [literal, String.toList_ofList, hread]
  simp only [(Document.holds_ofJson hkeyed).value_eq]
  rfl

/-- **Literals are faithful, and they stay on their line.** The literal of a value, whether it is
written item by item or as a whole, is the compact text of the value with its line separators
escaped. It has no character that ends a line, and it is read back as the value, with the members in
their order, by exactly the readers that go down as far as the value does. So it is read back
wherever the compact text is. -/
theorem literal_readsBack (hwords : value.hasWords = true) (hkeyed : value.isKeyed = true) :
    (∀ c ∈ (literal value).toList, IsLineSafe c) ∧
      (literal value).toList = escapeSeparators value.text.toList ∧
      (∀ limit, Json.parseWithin? limit (literal value) = some value ↔ value.depth ≤ limit) ∧
      (Json.parse? value.text = some value → Json.parse? (literal value) = some value) ∧
      ∀ s : String, (∀ c ∈ (quoted s).toList, IsLineSafe c) ∧
        Json.parse? (quoted s) = some (.str s) := by
  refine ⟨isLineSafe_literal hwords, ?_, fun limit => ?_, fun h => ?_, fun s => ⟨?_, ?_⟩⟩
  · rw [literal, Json.text, String.toList_ofList, String.toList_ofList,
      literalChars_eq (Json.isFinite_of_hasWords hwords)]
  · exact ⟨Json.depth_le_of_parseWithin, parseWithin_literal hwords hkeyed⟩
  · rw [Json.parse?_eq] at h ⊢
    exact parseWithin_literal hwords hkeyed (Json.depth_le_of_parseWithin h)
  · exact @isLineSafe_literal (.str s) rfl
  · rw [Json.parse?_eq, quoted]
    exact @parseWithin_literal (.str s) rfl rfl _ (Nat.zero_le _)

/-- Backslashes in front of line separators, in a string and in a name, and the two ends of the
range of integers. -/
def separated : Json :=
  .arr [.str "\\\u2028\\\\\u2029",
    .obj [("\\\u2028", .arr [.num (.int (-2 ^ 63)), .num (.int (2 ^ 64 - 1))])]]

/-- A value with separators in a text and in a name, three levels deep. -/
theorem separated_readsBack :
    separated.hasWords = true ∧ separated.isKeyed = true ∧ separated.depth = 3 ∧
    literal separated =
      "[\"\\\\\\u2028\\\\\\\\\\u2029\",\x7b\"\\\\\\u2028\":[-9223372036854775808,18446744073709551615]\x7d]" ∧
    (literal separated).toList = escapeSeparators separated.text.toList ∧
    Json.parse? (literal separated) = some separated := by
  have hwords : separated.hasWords = true := by decide
  have hkeyed : separated.isKeyed = true := by decide
  have hdepth : separated.depth = 3 := by decide
  obtain ⟨-, htext, hread, -⟩ := literal_readsBack hwords hkeyed
  have hlimit : separated.depth ≤ Reader.depthLimit := by
    rw [hdepth]
    decide
  refine ⟨hwords, hkeyed, hdepth, by decide +kernel, htext, ?_⟩
  rw [Json.parse?_eq]
  exact (hread Reader.depthLimit).2 hlimit

end Script

end BuilderApi
