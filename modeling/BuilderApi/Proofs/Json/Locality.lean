import BuilderApi.Proofs.Json.Unfinished

/-!
# Reading is local

What a value of the grammar is read as depends on the value alone. Whatever stands behind it, and
however long the text is, the reader makes the same document of it, and either gets behind the value
or breaks off inside (`BuilderApi.Reader.exists_readsTo`). Only a number has to be kept from going
on.

The proof follows the derivation of the value. Its statement for each piece of the grammar says what
the loop that reads the piece comes to (`BuilderApi.Reader.IsLocal`).
-/

namespace BuilderApi

open JsonText

namespace Reader

open Passing (Bracket)

/-! ### Strings -/

variable {text rest sequence tail : List Char} {c : Char} {n : Nat}

/-- Two escapes may be one character, so what follows an escape has to be known as far as the string
goes. -/
inductive EscapeRead (sequence rest : List Char) : Prop
  /-- The escape is no character. -/
  | fault (fault : Fault) (h : ∀ tail, escape (sequence ++ (rest ++ tail)) = .error fault)
  /-- The escape is one, perhaps with the next one. -/
  | char (decoded : Char) (rest' : List Char) (hrest' : IsString rest') (hlength : rest'.length ≤
      rest.length) (h : ∀ tail, escape (sequence ++ (rest ++ tail)) = .ok (decoded, rest' ++ tail))

theorem exists_letter (hc : c ∈ ['"', '\\', '/', 'b', 'f', 'n', 'r', 't']) :
    ∃ decoded, ∀ text, escape (c :: text) = .ok (decoded, text) := by
  simp only [List.mem_cons, List.not_mem_nil, or_false] at hc
  rcases hc with rfl | rfl | rfl | rfl | rfl | rfl | rfl | rfl <;> exact ⟨_, fun _ => rfl⟩

theorem unicodeEscape_trail (h : hexFour text = .ok (n, rest)) (htrail : isTrail n = true) :
    unicodeEscape text = .error .loneSurrogate := by
  unfold unicodeEscape
  rw [h]
  exact if_pos htrail

theorem unicodeEscape_char (h : hexFour text = .ok (n, rest)) (htrail : ¬isTrail n = true)
    (hlead : isLead n = false) :
    unicodeEscape text = .ok (Char.ofNat n, rest) := by
  unfold unicodeEscape
  rw [h]
  exact (if_neg htrail).trans (if_pos (by rw [hlead]; rfl))

/-- Half of a pair needs another escape behind it. -/
theorem unicodeEscape_half (h : hexFour text = .ok (n, rest)) (htrail : ¬isTrail n = true)
    (hlead : isLead n = true) (hnil : rest ≠ []) (hbackslash : rest ≠ ['\\'])
    (hpair : ∀ more, rest ≠ '\\' :: 'u' :: more) :
    unicodeEscape text = .error .halfEscape := by
  unfold unicodeEscape
  rw [h]
  refine (if_neg htrail).trans ((if_neg (by rw [hlead]; decide)).trans ?_)
  split
  · exact absurd rfl hnil
  · exact absurd rfl hbackslash
  · exact absurd rfl (hpair _)
  · rfl

/-- Two escapes make one character. -/
theorem unicodeEscape_pair {second : Nat} {more : List Char}
    (h : hexFour text = .ok (n, '\\' :: 'u' :: more)) (htrail : ¬isTrail n = true)
    (hlead : isLead n = true) (hmore : hexFour more = .ok (second, rest)) :
    unicodeEscape text = if isTrail second then
        .ok (Char.ofNat ((n - 0xD800) * 0x400 + (second - 0xDC00) + 0x10000), rest)
      else .error .loneSurrogate := by
  unfold unicodeEscape
  rw [h]
  refine (if_neg htrail).trans ((if_neg (by rw [hlead]; decide)).trans ?_)
  change (hexFour more >>= _) = _
  rw [hmore]
  rfl

theorem escapeRead (hsequence : IsEscape sequence) (hrest : IsString rest) :
    EscapeRead sequence rest := by
  cases hsequence with
  | letter hc =>
    obtain ⟨decoded, hdecoded⟩ := exists_letter hc
    exact .char decoded rest hrest (Nat.le_refl _) fun tail => hdecoded _
  | unit ha hb hc hd =>
    obtain ⟨n, hn⟩ := exists_hexFour ha hb hc hd
    by_cases htrail : isTrail n = true
    · exact .fault .loneSurrogate fun tail => unicodeEscape_trail (hn _) htrail
    cases hlead : isLead n with
    | false => exact .char _ rest hrest (Nat.le_refl _) fun tail =>
      unicodeEscape_char (hn _) htrail hlead
    | true =>
      cases hrest with
      | close => exact .fault .halfEscape fun tail =>
        unicodeEscape_half (hn _) htrail hlead nofun nofun nofun
      | plain hquote hbackslash hcontrol h =>
        refine .fault .halfEscape fun tail => unicodeEscape_half (hn _) htrail hlead nofun ?_ ?_
        · exact fun heq => hbackslash (List.cons.inj heq).1
        · exact fun more heq => hbackslash (List.cons.inj heq).1
      | escape hsequence' hrest' =>
        cases hsequence' with
        | @letter c hc =>
          have hu : c ≠ 'u' := by
            rintro rfl
            exact absurd hc (by decide)
          refine .fault .halfEscape fun tail =>
            unicodeEscape_half (hn _) htrail hlead nofun nofun ?_
          exact fun more heq => hu (List.cons.inj (List.cons.inj heq).2).1
        | unit ha' hb' hc' hd' =>
          obtain ⟨second, hsecond⟩ := exists_hexFour ha' hb' hc' hd'
          by_cases htrail' : isTrail second = true
          · refine .char _ _ hrest' (by simp; omega) fun tail =>
              (unicodeEscape_pair (hn _) htrail hlead (hsecond _)).trans (if_pos htrail')
          · exact .fault .loneSurrogate fun tail =>
              (unicodeEscape_pair (hn _) htrail hlead (hsecond _)).trans (if_neg htrail')

/-- What a string is read as, without the characters in front of it and the text behind it. -/
def StringRead (text : List Char) (result : Except Fault (List Char)) : Prop :=
  ∀ done bound tail, text.length ≤ bound →
    stringTail done bound (text ++ tail) = result.map fun chars =>
      (String.ofList (done.reverse ++ chars), tail)

theorem stringRead_cons {decoded : Char} {text rest : List Char} {result : Except Fault (List Char)}
    (hstep : ∀ done bound tail,
      stringTail done (bound + 1)
      (text ++ tail) = stringTail (decoded :: done) bound (rest ++ tail))
    (hlength : rest.length < text.length) (h : StringRead rest result) :
    StringRead text (result.map (decoded :: ·)) := by
  intro done bound tail hbound
  obtain ⟨bound, rfl⟩ := Nat.exists_eq_succ_of_ne_zero (show bound ≠ 0 by omega)
  rw [hstep, h (decoded :: done) bound tail (by omega)]
  cases result <;> simp [Except.map]

/-- **What a string is read as depends on the string alone.** -/
theorem exists_stringRead (h : IsString text) : ∃ result, StringRead text result := by
  induction hlength : text.length using Nat.strong_induction_on generalizing text with
  | _ length ih =>
    subst hlength
    cases h with
    | close =>
      refine ⟨.ok [], fun done bound tail hbound => ?_⟩
      obtain ⟨bound, rfl⟩ := Nat.exists_eq_succ_of_ne_zero (Nat.ne_zero_of_lt hbound)
      simp [stringTail, Except.map]
    | @plain c rest hquote hbackslash hcontrol hrest =>
      obtain ⟨result, hresult⟩ := ih _ (Nat.lt_succ_self _) hrest rfl
      refine ⟨result.map (c :: ·),
        stringRead_cons (fun done bound tail => ?_) (Nat.lt_succ_self _) hresult⟩
      rw [List.cons_append, stringTail, if_neg hquote, if_neg hbackslash,
        if_neg (Nat.not_lt.2 hcontrol)]
    | @escape sequence rest hsequence hrest =>
      have hshort : rest.length < ('\\' :: (sequence ++ rest)).length := by
        simp only [List.length_cons, List.length_append]
        omega
      cases escapeRead hsequence hrest with
      | fault fault h =>
        refine ⟨.error fault, fun done bound tail hbound => ?_⟩
        obtain ⟨bound, rfl⟩ := Nat.exists_eq_succ_of_ne_zero (Nat.ne_zero_of_lt hbound)
        rw [List.cons_append, stringTail, if_neg (by decide), if_pos rfl, List.append_assoc, h]
        rfl
      | char decoded rest' hrest' hlength h =>
        obtain ⟨result, hresult⟩ := ih _ (hlength.trans_lt hshort) hrest' rfl
        refine ⟨result.map (decoded :: ·),
          stringRead_cons (fun done bound tail => ?_) (hlength.trans_lt hshort) hresult⟩
        rw [List.cons_append, stringTail, if_neg (by decide), if_pos rfl, List.append_assoc, h]

/-! ### Values without parts -/

/-- The text behind a value, if the reader gets there. -/
def left (whole : Bool) (tail : List Char) : Option (List Char) := if whole then some tail else none

/-- Whatever follows the text, the reader makes this document of it. -/
def ReadsTo (depth : Nat) (text : List Char) (document : Document) (whole : Bool) : Prop :=
  ∀ bound tail, text.length ≤ bound → Stops text tail →
    value bound depth (text ++ tail) = (document, left whole tail)

theorem exists_readsTo_number {t : NumberText} (ht : t.IsValid) (negative : Bool) {depth : Nat}
    (hread : ∀ bound tail, value bound depth (text ++ tail) =
      leaf .num (number negative (t.chars ++ tail)))
    (hstops : ∀ tail, Stops text tail → t.StopsBefore tail) :
    ∃ document whole, ReadsTo depth text document whole := by
  have hnumber (tail : List Char) (htail : Stops text tail) :=
    NumberText.number_chars ht negative (hstops tail htail)
  cases hvalue : (t.literal negative).number with
  | some n =>
    refine ⟨.num n, true, fun bound tail _ htail => ?_⟩
    rw [hread, hnumber tail htail, hvalue]
    rfl
  | none =>
    refine ⟨.broken .numberRange, false, fun bound tail _ htail => ?_⟩
    rw [hread, hnumber tail htail, hvalue]
    rfl

/-- A leaf is read to the same document, whatever follows. -/
theorem exists_readsTo_leaf (h : IsLeaf text) (depth : Nat) :
    ∃ document whole, ReadsTo depth text document whole := by
  cases h with
  | null => exact ⟨.null, true, fun _ _ _ _ => value_n _⟩
  | true => exact ⟨.bool true, true, fun _ _ _ _ => value_t _⟩
  | false => exact ⟨.bool false, true, fun _ _ _ _ => value_f _⟩
  | @string text h =>
    obtain ⟨result, hresult⟩ := exists_stringRead h
    have hread (bound : Nat) (tail : List Char) (hbound : ('"' :: text).length ≤ bound) :
        value bound depth ('"' :: text ++ tail) =
          leaf .str (result.map fun chars => (String.ofList ([].reverse ++ chars), tail)) := by
      rw [List.cons_append, value_quote, hresult [] bound tail (Nat.le_of_succ_le hbound)]
    cases result with
    | ok chars =>
      exact ⟨.str (String.ofList chars), true, fun bound tail hbound _ => hread bound tail hbound⟩
    | error fault =>
      exact ⟨.broken fault, false, fun bound tail hbound _ => hread bound tail hbound⟩
  | @number t h =>
    obtain ⟨c, digits, hchars, hc⟩ := exists_digit_chars h
    refine exists_readsTo_number h false (fun bound tail => ?_) fun tail => (stops_chars_iff h).1
    rw [hchars]
    exact value_digit hc _
  | negative h =>
    exact exists_readsTo_number h true (fun bound tail => value_minus _) fun tail =>
      (stops_negative_iff h).1

/-! ### Pieces -/

/-- A member is read from behind the first quote of its name on, up to this text. -/
def MemberRead (bound depth size : Nat) (text : List Char) (member : NamedPart Document)
    (behind : List Char) : Prop :=
  ∃ name rest next, stringTail [] size text = .ok (name, rest) ∧ skipBlanks rest = ':' :: next ∧
    memberPart (value bound depth) name next = (member, some behind)

/-- What a member is read as, from behind the first quote of its name on: nothing, for a fault of
the name, or this. -/
def MemberReadsTo (depth : Nat) (text : List Char) : Except Fault (NamedPart Document) → Prop
  | .error fault => ∀ size tail, text.length ≤ size →
      stringTail [] size (text ++ tail) = .error fault
  | .ok member => ∀ bound size tail, text.length ≤ bound → text.length ≤ size →
    NumberText.Ends tail → MemberRead bound depth size (text ++ tail) member tail

/-- What a piece of the grammar is read as depends on the piece alone. -/
def IsLocal : Piece → List Char → Prop
  | .value, text => ∀ depth, ∃ document whole, ReadsTo depth text document whole
  | .part .list, text => ∃ lead piece, text = lead ++ piece ∧ IsBlanks lead ∧ Spells .value piece ∧
    ∀ depth, ∃ document whole, ReadsTo depth piece document whole
  | .part .object, text => ∃ lead rest, text = lead ++ '"' :: rest ∧ IsBlanks lead ∧
    ∀ depth, ∃ result, MemberReadsTo depth rest result
  | .inside .list, text => ∀ depth, ∃ document whole, ∀ bound tail, text.length ≤ bound →
    list (value bound depth) bound (text ++ tail) = (document, left whole tail)
  | .inside .object, text => ∀ depth, ∃ document whole, ∀ bound tail, text.length ≤ bound →
    object (value bound depth) bound (text ++ tail) = (document, left whole tail)
  | .behind .list, text =>
    ∀ depth, ∃ items ending whole, ∀ bound turns tail front item, text.length ≤ bound →
    text.length ≤ turns → value bound depth front = (item, some (text ++ tail)) →
    itemLoop (value bound depth) (turns + 1) front = (item :: items, ending, left whole tail)
  | .behind .object, text => ∀ depth, ∃ members ending whole, ∀ bound size turns tail front member,
    text.length ≤ bound → text.length ≤ size → text.length ≤ turns →
    MemberRead bound depth size front member (text ++ tail) →
    memberLoop (value bound depth) size (turns + 1) front =
      (member :: members, ending, left whole tail)

variable {lead name gap lead' piece blanks more : List Char} {bracket : Bracket}

theorem isLocal_member (hlead : IsBlanks lead) (hname : IsString name) (hgap : IsBlanks gap)
    (hlead' : IsBlanks lead') (h : Spells .value piece) (ih : IsLocal .value piece) :
    IsLocal (.part .object) (lead ++ '"' :: (name ++ (gap ++ ':' :: (lead' ++ piece)))) := by
  refine ⟨lead, _, rfl, hlead, fun depth => ?_⟩
  obtain ⟨result, hresult⟩ := exists_stringRead hname
  have hstring (size : Nat) (tail : List Char)
      (hsize : (name ++ (gap ++ ':' :: (lead' ++ piece))).length ≤ size) :
      stringTail [] size (name ++ (gap ++ ':' :: (lead' ++ piece)) ++ tail) =
        result.map fun chars =>
          (String.ofList chars, gap ++ ':' :: (lead' ++ (piece ++ tail))) := by
    rw [List.length_append] at hsize
    rw [List.append_assoc, hresult [] size _ (by omega)]
    simp
  cases result with
  | error fault => exact ⟨.error fault, hstring⟩
  | ok chars =>
    obtain ⟨document, whole, hread⟩ := ih depth
    refine ⟨.ok ⟨String.ofList chars, document, none⟩, fun bound size tail hbound hsize htail => ?_⟩
    refine ⟨String.ofList chars, _, lead' ++ (piece ++ tail), hstring size tail hsize, ?_, ?_⟩
    · rw [skipBlanks_append hgap, skipBlanks_cons (by decide)]
    · have hstops := stops_of_ends htail piece
      simp only [List.length_append, List.length_cons] at hbound
      have hvalue :=
        (value_append_blanks hlead' (piece ++ tail)).trans (hread bound tail (by omega) hstops)
      cases whole with
      | true => exact memberPart_some hvalue
      | false => exact memberPart_passed hvalue (passOver_append hlead' h hstops)

theorem isLocal_empty (hblanks : IsBlanks blanks) :
    IsLocal (.inside bracket) (blanks ++ [bracket.closing]) := by
  cases bracket with
  | list => exact fun depth =>
    ⟨_, true, fun bound tail _ => list_closed (skipBlanks_closing hblanks .list tail)⟩
  | object => exact fun depth =>
    ⟨_, true, fun bound tail _ => object_closed (skipBlanks_closing hblanks .object tail)⟩

theorem isLocal_last (hblanks : IsBlanks blanks) :
    IsLocal (.behind bracket) (blanks ++ [bracket.closing]) := by
  cases bracket with
  | list =>
    exact fun depth => ⟨[], .closed, true, fun bound turns tail front item _ _ hitem =>
      itemLoop_last hitem (skipBlanks_closing hblanks .list tail)⟩
  | object =>
    refine fun depth =>
      ⟨[], .closed, true, fun bound size turns tail front member _ _ _ hmember => ?_⟩
    obtain ⟨name, rest, next, hname, hcolon, hpart⟩ := hmember
    exact memberLoop_last hname hcolon hpart (skipBlanks_closing hblanks .object tail)

/-- An item and what follows it: the loop gets into the item, and if it gets behind it, on from
there. -/
theorem exists_itemLoop (h : Spells .value piece) (hmore : Spells (.behind .list) more)
    (ih : IsLocal .value piece) (ihMore : IsLocal (.behind .list) more) (depth : Nat) :
    ∃ items ending whole, ∀ bound turns tail,
      piece.length + more.length ≤ bound → piece.length + more.length ≤ turns →
      itemLoop (value bound depth) turns (piece ++ (more ++ tail)) =
        (items, ending, left whole tail) := by
  obtain ⟨document, whole, hread⟩ := ih depth
  obtain ⟨items, ending, whole', hloop⟩ := ihMore depth
  have hlength := length_pos_of_spells h
  cases whole with
  | false =>
    refine ⟨[document], .closed, false, fun bound turns tail hbound hturns => ?_⟩
    obtain ⟨turns, rfl⟩ := Nat.exists_eq_succ_of_ne_zero (show turns ≠ 0 by omega)
    exact itemLoop_none
      (hread bound (more ++ tail) (by omega) (stops_of_ends (ends_behind hmore tail) piece))
  | true =>
    refine ⟨document :: items, ending, whole', fun bound turns tail hbound hturns => ?_⟩
    obtain ⟨turns, rfl⟩ := Nat.exists_eq_succ_of_ne_zero (show turns ≠ 0 by omega)
    have hvalue :=
      hread bound (more ++ tail) (by omega) (stops_of_ends (ends_behind hmore tail) piece)
    exact hloop bound turns tail _ document (by omega) (by omega) hvalue

/-- A member and what follows it, from behind the first quote on. -/
theorem exists_memberLoop (hmore : Spells (.behind .object) more) {depth : Nat}
    {result : Except Fault (NamedPart Document)} (hresult : MemberReadsTo depth rest result)
    (ihMore : IsLocal (.behind .object) more) : ∃ members ending whole, ∀ bound size turns tail,
      rest.length + more.length < bound → rest.length + more.length < size →
      rest.length + more.length < turns →
      memberLoop (value bound depth) size turns (rest ++ (more ++ tail)) =
        (members, ending, left whole tail) := by
  obtain ⟨members, ending, whole, hloop⟩ := ihMore depth
  cases result with
  | error fault =>
    refine ⟨[], .atName fault, false, fun bound size turns tail hbound hsize hturns => ?_⟩
    obtain ⟨turns, rfl⟩ := Nat.exists_eq_succ_of_ne_zero (Nat.ne_zero_of_lt hturns)
    exact memberLoop_fault (hresult size (more ++ tail) (by omega))
  | ok member =>
    refine ⟨member :: members, ending, whole, fun bound size turns tail hbound hsize hturns => ?_⟩
    obtain ⟨turns, rfl⟩ := Nat.exists_eq_succ_of_ne_zero (Nat.ne_zero_of_lt hturns)
    have hmember := hresult bound size (more ++ tail) (by omega) (by omega) (ends_behind hmore tail)
    exact hloop bound size turns tail _ member (by omega) (by omega) (by omega) hmember

/-- Parts begin behind the opening bracket. -/
theorem isLocal_first (hmore : Spells (.behind bracket) more) (ih : IsLocal (.part bracket) text)
    (ihMore : IsLocal (.behind bracket) more) : IsLocal (.inside bracket) (text ++ more) := by
  cases bracket with
  | list =>
    intro depth
    obtain ⟨lead, piece, rfl, hlead, h, ih⟩ := ih
    obtain ⟨items, ending, whole, hloop⟩ := exists_itemLoop h hmore ih ihMore depth
    obtain ⟨c, rest, hhead, hblank, hc⟩ := exists_head h
    refine ⟨.arr items ending, whole, fun bound tail hbound => ?_⟩
    simp only [List.length_append] at hbound
    have hskip : skipBlanks (lead ++ piece ++ more ++ tail) = c :: (rest ++ (more ++ tail)) := by
      rw [List.append_assoc, List.append_assoc, skipBlanks_append hlead, skipBlanks_value h, hhead,
        List.cons_append]
    have hturns := hloop bound bound tail (by omega) (by omega)
    rw [hhead, List.cons_append] at hturns
    rw [list_items hskip (hc .list), hturns]
  | object =>
    intro depth
    obtain ⟨lead, rest, rfl, hlead, ih⟩ := ih
    obtain ⟨result, hresult⟩ := ih depth
    obtain ⟨members, ending, whole, hloop⟩ := exists_memberLoop hmore hresult ihMore
    refine ⟨.obj members ending, whole, fun bound tail hbound => ?_⟩
    simp only [List.length_append, List.length_cons] at hbound
    have hskip :
        skipBlanks (lead ++ '"' :: rest ++ more ++ tail) = '"' :: (rest ++ (more ++ tail)) := by
      rw [List.append_assoc, List.append_assoc, skipBlanks_append hlead, List.cons_append,
        skipBlanks_cons (by decide)]
    rw [object_members hskip, hloop bound bound bound tail (by omega) (by omega) (by omega)]

/-- Parts go on behind a comma. -/
theorem isLocal_next (hblanks : IsBlanks blanks) (hmore : Spells (.behind bracket) more)
    (ih : IsLocal (.part bracket) text) (ihMore : IsLocal (.behind bracket) more) :
    IsLocal (.behind bracket) (blanks ++ ',' :: (text ++ more)) := by
  have hcomma (tail : List Char) :
      skipBlanks (blanks ++ ',' :: (text ++ more) ++ tail) = ',' :: (text ++ more ++ tail) := by
    rw [List.append_assoc, skipBlanks_append hblanks, List.cons_append, skipBlanks_cons (by decide)]
  cases bracket with
  | list =>
    intro depth
    obtain ⟨lead, piece, rfl, hlead, h, ih⟩ := ih
    obtain ⟨items, ending, whole, hloop⟩ := exists_itemLoop h hmore ih ihMore depth
    obtain ⟨c, rest, hhead, hblank, hc⟩ := exists_head h
    refine ⟨items, ending, whole, fun bound turns tail front item hbound hturns hitem => ?_⟩
    simp only [List.length_append, List.length_cons] at hbound hturns
    have hskip : skipBlanks (lead ++ piece ++ more ++ tail) = c :: (rest ++ (more ++ tail)) := by
      rw [List.append_assoc, List.append_assoc, skipBlanks_append hlead, skipBlanks_value h, hhead,
        List.cons_append]
    have hturn := hloop bound turns tail (by omega) (by omega)
    rw [hhead, List.cons_append] at hturn
    rw [itemLoop_comma hitem (hcomma tail) hskip (hc .list), hturn]
  | object =>
    intro depth
    obtain ⟨lead, rest, rfl, hlead, ih⟩ := ih
    obtain ⟨result, hresult⟩ := ih depth
    obtain ⟨members, ending, whole, hloop⟩ := exists_memberLoop hmore hresult ihMore
    refine ⟨members, ending, whole,
      fun bound size turns tail front member hbound hsize hturns hmember => ?_⟩
    simp only [List.length_append, List.length_cons] at hbound hsize hturns
    obtain ⟨name, behind, next, hname, hcolon, hpart⟩ := hmember
    have hskip :
        skipBlanks (lead ++ '"' :: rest ++ more ++ tail) = '"' :: (rest ++ (more ++ tail)) := by
      rw [List.append_assoc, List.append_assoc, skipBlanks_append hlead, List.cons_append,
        skipBlanks_cons (by decide)]
    rw [memberLoop_comma hname hcolon hpart (hcomma tail) hskip,
      hloop bound size turns tail (by omega) (by omega) (by omega)]

/-- What is local inside of brackets is local with them. -/
theorem isLocal_nested (ih : IsLocal (.inside bracket) text) :
    IsLocal .value (opening bracket :: text) := by
  rintro (_ | depth)
  · cases bracket with
    | list => exact ⟨_, false, fun bound tail _ _ => value_list_zero _⟩
    | object => exact ⟨_, false, fun bound tail _ _ => value_object_zero _⟩
  · cases bracket with
    | list =>
      obtain ⟨document, whole, hlist⟩ := ih depth
      exact ⟨document, whole, fun bound tail hbound _ =>
        (value_list _).trans (hlist bound tail (Nat.le_of_succ_le hbound))⟩
    | object =>
      obtain ⟨document, whole, hobject⟩ := ih depth
      exact ⟨document, whole, fun bound tail hbound _ =>
        (value_object _).trans (hobject bound tail (Nat.le_of_succ_le hbound))⟩

/-- What is spelled is read to the same document, whatever follows. -/
theorem isLocal_of_spells {kind : Piece} (h : Spells kind text) : IsLocal kind text := by
  induction h with
  | leaf h => exact exists_readsTo_leaf h
  | nested _ ih => exact isLocal_nested ih
  | item hlead h ih => exact ⟨_, _, rfl, hlead, h, ih⟩
  | member hlead hname hgap hlead' h ih => exact isLocal_member hlead hname hgap hlead' h ih
  | empty hblanks => exact isLocal_empty hblanks
  | last hblanks => exact isLocal_last hblanks
  | first _ hmore ih ihMore => exact isLocal_first hmore ih ihMore
  | next hblanks _ hmore ih ihMore => exact isLocal_next hblanks hmore ih ihMore

/-- **What a value is read as depends on the value alone**, and on how deep the reader goes. -/
theorem exists_readsTo (h : Spells .value text) (depth : Nat) :
    ∃ document whole, ReadsTo depth text document whole :=
  isLocal_of_spells h depth

end Reader

end BuilderApi
