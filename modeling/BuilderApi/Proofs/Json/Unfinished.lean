import BuilderApi.Json.Reader
import BuilderApi.Proofs.Json.PassedOver

/-!
# Where reading stops

Reading a text leaves either what stands behind one value of the grammar, or a document in which it
broke off (`BuilderApi.Reader.ended_value`). A document in which reading broke off says so: going
from the whole to a part that cannot be passed over, and from there on in the same way, one comes to
a fault (`BuilderApi.Document.Unfinished`).

The two are not exclusive of a broken part further inside. A member that cannot be read is passed
over where the grammar allows it, and then the text goes on behind it.
-/

namespace BuilderApi

open JsonText

/-- Reading broke off in the document. -/
inductive Document.Unfinished : Document → Prop
  /-- At a value. -/
  | broken (fault : Fault) : Unfinished (.broken fault)
  /-- At the end of a list. -/
  | list {items : List Document} {ending : ListEnd} (h : ending ≠ .closed) :
      Unfinished (.arr items ending)
  /-- In an item. -/
  | item {items : List Document} {ending : ListEnd} {item : Document} (hmem : item ∈ items)
      (h : Unfinished item) : Unfinished (.arr items ending)
  /-- At the end of an object. -/
  | object {members : List (NamedPart Document)} {ending : ObjectEnd} (h : ending ≠ .closed) :
      Unfinished (.obj members ending)
  /-- In a member, and it could not be passed over. -/
  | member {members : List (NamedPart Document)} {ending : ObjectEnd} {member : NamedPart Document}
      (hmem : member ∈ members) (h : Unfinished member.part) (hobstacle : member.obstacle ≠ none) :
      Unfinished (.obj members ending)

namespace Document

/-- Items in front do not finish a list. -/
theorem unfinished_cons_item {item : Document} {items : List Document} {ending : ListEnd}
    (h : (arr items ending).Unfinished) : (arr (item :: items) ending).Unfinished := by
  cases h with
  | list h => exact .list h
  | item hmem h => exact .item (List.mem_cons_of_mem _ hmem) h

/-- Members in front do not finish an object. -/
theorem unfinished_cons_member {member : NamedPart Document} {members : List (NamedPart Document)}
    {ending : ObjectEnd} (h : (obj members ending).Unfinished) :
    (obj (member :: members) ending).Unfinished := by
  cases h with
  | object h => exact .object h
  | member hmem h hobstacle => exact .member (List.mem_cons_of_mem _ hmem) h hobstacle

end Document

namespace Reader

open Passing (Bracket)

variable {text rest : List Char} {c : Char}

/-! ### Strings -/

/-- A `\u` escape is one of the grammar, or two of them. -/
theorem exists_of_unicodeEscape (h : unicodeEscape text = .ok (c, rest)) :
    ∃ front, text = front ++ rest ∧ ∀ more, IsString more →
      IsString ('\\' :: 'u' :: (front ++ more)) := by
  obtain ⟨⟨first, rest'⟩, hfirst, hnext⟩ := exists_of_bind_eq_ok h
  obtain ⟨w, x, y, z, rfl, hw, hx, hy, hz⟩ := exists_of_hexFour hfirst
  have hunit := IsEscape.unit hw hx hy hz
  dsimp only at hnext
  split at hnext
  · cases hnext
  · split at hnext
    · cases hnext
      exact ⟨[w, x, y, z], rfl, fun more hmore => .escape hunit hmore⟩
    · split at hnext
      · cases hnext
      · cases hnext
      · obtain ⟨⟨second, rest'⟩, hsecond, hlast⟩ := exists_of_bind_eq_ok hnext
        obtain ⟨w', x', y', z', rfl, hw', hx', hy', hz'⟩ := exists_of_hexFour hsecond
        have hunit' := IsEscape.unit hw' hx' hy' hz'
        dsimp only at hlast
        split at hlast
        · obtain ⟨-, rfl⟩ := Prod.mk.inj (Except.ok.inj hlast)
          exact ⟨[w, x, y, z, '\\', 'u', w', x', y', z'], rfl, fun more hmore =>
            .escape hunit (.escape hunit' hmore)⟩
        · cases hlast
      · cases hnext

theorem exists_of_escape (h : escape text = .ok (c, rest)) :
    ∃ front, text = front ++ rest ∧ ∀ more, IsString more → IsString ('\\' :: (front ++ more)) := by
  have hletter {c : Char} (hc : c ∈ ['"', '\\', '/', 'b', 'f', 'n', 'r', 't']) {more : List Char}
      (hmore : IsString more) : IsString ('\\' :: ([c] ++ more)) := .escape (.letter hc) hmore
  unfold escape at h
  split at h
  · cases h
  · obtain ⟨front, rfl, hfront⟩ := exists_of_unicodeEscape h
    exact ⟨'u' :: front, rfl, hfront⟩
  all_goals first
    | cases h; exact ⟨[_], rfl, fun more hmore => hletter (by decide) hmore⟩
    | cases h

/-- **What is read as a string is one.** -/
theorem exists_of_stringTail : ∀ {bound : Nat} {done text : List Char} {found : String},
    stringTail done bound text = .ok (found, rest) → ∃ front, text = front ++ rest ∧ IsString front
  | 0, _, _, _, h => by cases h
  | _ + 1, _, [], _, h => by cases h
  | bound + 1, done, c :: text, found, h => by
    rw [stringTail] at h
    split at h
    · next hc =>
      cases h
      exact ⟨['"'], by rw [hc]; rfl, .close⟩
    · next hquote =>
      split at h
      · next hc =>
        split at h
        · next decoded text' hescape =>
          obtain ⟨sequence, rfl, hsequence⟩ := exists_of_escape hescape
          obtain ⟨front, rfl, hfront⟩ := exists_of_stringTail h
          exact ⟨'\\' :: (sequence ++ front), by simp [hc], hsequence front hfront⟩
        · cases h
      · next hbackslash =>
        split at h
        · cases h
        · next hcontrol =>
          obtain ⟨front, rfl, hfront⟩ := exists_of_stringTail h
          exact ⟨c :: front, rfl, .plain hquote hbackslash (Nat.not_lt.1 hcontrol) hfront⟩

/-- A string is read from the front, so no more is left than there was. -/
theorem length_of_stringTail {bound : Nat} {found : String}
    (h : stringTail [] bound text = .ok (found, rest)) :
    rest.length ≤ text.length := by
  obtain ⟨front, rfl, -⟩ := exists_of_stringTail h
  simp

/-! ### What is left -/

/-- What reading a value leaves: the text behind one, or a document in which it broke off. -/
inductive Ended (text : List Char) : Outcome → Prop
  /-- Behind a value. -/
  | behind {document : Document} {lead piece rest : List Char}
      (htext : text = lead ++ (piece ++ rest)) (hlead : IsBlanks lead) (h : Spells .value piece)
      (hstops : Stops piece rest) : Ended text (document, some rest)
  /-- Inside a value. -/
  | inside {document : Document} (h : document.Unfinished) : Ended text (document, none)

/-- What reading from a part on leaves: the text behind the closing bracket, or a document in which
it broke off. -/
inductive PartsEnded (bracket : Bracket) (text : List Char) : Outcome → Prop
  /-- Behind the closing bracket. -/
  | behind {document : Document} {part more rest : List Char}
      (htext : text = part ++ (more ++ rest)) (h : Spells (.part bracket) part)
      (hmore : Spells (.behind bracket) more) :
      PartsEnded bracket text (document, some rest)
  /-- In front of it. -/
  | inside {document : Document} (h : document.Unfinished) :
      PartsEnded bracket text (document, none)

/-- What reading the value of a member leaves. -/
inductive MemberEnded (text : List Char) : NamedPart Document × Option (List Char) → Prop
  /-- Behind a value, be it read or passed over. -/
  | behind {member : NamedPart Document} {lead piece rest : List Char}
      (htext : text = lead ++ (piece ++ rest)) (hlead : IsBlanks lead) (h : Spells .value piece) :
      MemberEnded text (member, some rest)
  /-- Inside of what cannot be passed over. -/
  | inside {member : NamedPart Document} (h : member.part.Unfinished)
      (hobstacle : member.obstacle ≠ none) :
      MemberEnded text (member, none)

variable {read : List Char → Outcome} {bound turns : Nat}

theorem ended_leaf {α : Type} {wrap : α → Document} {result : Except Fault (α × List Char)}
    (h : ∀ found rest, result = .ok (found, rest) → ∃ piece, text = piece ++ rest ∧ IsLeaf piece ∧
      Stops piece rest) :
    Ended text (leaf wrap result) := by
  cases result with
  | error fault => exact .inside (.broken fault)
  | ok result =>
    obtain ⟨piece, htext, hpiece, hstops⟩ := h result.1 result.2 rfl
    exact @Ended.behind text _ [] piece result.2 htext isBlanks_nil (.leaf hpiece) hstops

theorem ended_wordLeaf {document : Document} {letters : List Char} (hleaf : IsLeaf (c :: letters))
    (hstops : ∀ rest, Stops (c :: letters) rest) :
    Ended (c :: text) (wordLeaf document (word letters text)) := by
  cases hword : word letters text with
  | error fault => exact .inside (.broken fault)
  | ok rest =>
    obtain rfl := eq_of_word hword
    exact @Ended.behind _ _ [] (c :: letters) rest rfl isBlanks_nil (.leaf hleaf) (hstops rest)

/-! ### Lists -/

/-- What is read, with the blanks behind it, is not longer than the text. -/
theorem length_skipBlanks_le (text : List Char) : (skipBlanks text).length ≤ text.length :=
  (List.dropWhile_sublist _).length_le

theorem length_pos_of_spells {piece : List Char} (h : Spells .value piece) : 0 < piece.length := by
  obtain ⟨c, rest, rfl, -⟩ := exists_head h
  exact Nat.succ_pos _

/-- The loop over items ends with the bracket, or its list is unfinished. -/
theorem ended_itemLoop (hread : ∀ text, text.length ≤ bound → Ended text (read text))
    (hturns : turns ≤ bound) (htext : text.length ≤ turns) (hne : text ≠ []) :
    PartsEnded .list text (.arr (itemLoop read turns text).1 (itemLoop read turns text).2.1,
      (itemLoop read turns text).2.2) := by
  induction turns generalizing text with
  | zero => exact absurd (List.eq_nil_of_length_eq_zero (Nat.le_zero.1 htext)) hne
  | succ turns ih =>
    have hfirst := hread text (htext.trans hturns)
    cases hitem : read text with
    | mk item rest =>
      rw [hitem] at hfirst
      cases hfirst with
      | inside h =>
        rw [itemLoop_none hitem]
        exact .inside (.item List.mem_cons_self h)
      | @behind _ lead piece rest heq hlead h hstops =>
        obtain ⟨blanks, hrest, hblanks⟩ := exists_blanks rest
        have hpart := Spells.item hlead h
        have hpiece := length_pos_of_spells h
        unfold itemLoop
        rw [hitem]
        dsimp only
        split
        · exact .inside (.list (by simp))
        · next final hskip =>
          rw [hskip] at hrest
          exact .behind (by rw [heq, hrest]; simp [Bracket.closing]) hpart (.last hblanks)
        · next final hskip =>
          rw [hskip] at hrest
          obtain ⟨blanks', hfinal, hblanks'⟩ := exists_blanks final
          split
          · exact .inside (.list (by simp))
          · exact .inside (.list (by simp))
          · next hnil hclosing =>
            have hlength := length_skipBlanks_le final
            have htotal := congrArg List.length heq
            have hbehind := congrArg List.length hrest
            simp only [List.length_append, List.length_cons] at htotal hbehind
            have hnext := @ih (skipBlanks final) (by omega) (by omega) hnil
            generalize itemLoop read turns (skipBlanks final) = result at hnext
            obtain ⟨items, ending, last⟩ := result
            cases hnext with
            | inside h => exact .inside (Document.unfinished_cons_item h)
            | behind hnext hpart' hmore =>
              refine .behind ?_ hpart (.next hblanks (hpart'.lead hblanks') hmore)
              rw [heq, hrest, hfinal, hnext]
              simp
        · exact .inside (.list (by simp))

/-- A list ends with its bracket or is unfinished. -/
theorem ended_list (hread : ∀ text, text.length ≤ bound → Ended text (read text))
    (htext : text.length < bound) :
    Ended ('[' :: text) (list read bound text) := by
  obtain ⟨blanks, heq, hblanks⟩ := exists_blanks text
  have hlength := length_skipBlanks_le text
  unfold list
  split
  · exact .inside (.list (by simp))
  · next rest hskip =>
    rw [hskip] at heq
    refine @Ended.behind _ _ [] _ rest ?_ isBlanks_nil (@Spells.nested .list _ (.empty hblanks))
      (stops_nested .list (.empty hblanks) rest)
    rw [heq]
    simp [opening, Bracket.closing]
  · next hnil hclosing =>
    have hparts :=
      @ended_itemLoop _ read bound bound hread (Nat.le_refl bound) (hlength.trans htext.le) hnil
    generalize itemLoop read bound (skipBlanks text) = result at hparts
    obtain ⟨items, ending, last⟩ := result
    cases hparts with
    | inside h => exact .inside h
    | @behind _ part more rest hparts hpart hmore =>
      have hinside := Spells.first (hpart.lead hblanks) hmore
      refine @Ended.behind _ _ [] _ rest ?_ isBlanks_nil (.nested hinside)
        (stops_nested .list hinside rest)
      rw [heq, hparts]
      simp [opening]

/-! ### Objects -/

theorem ended_memberPart (hread : Ended text (read text)) (name : String) :
    MemberEnded text (memberPart read name text) := by
  cases hitem : read text with
  | mk item rest =>
    rw [hitem] at hread
    unfold memberPart
    rw [hitem]
    cases hread with
    | behind htext hlead h => exact .behind htext hlead h
    | inside h =>
      dsimp only
      cases hpass : passOver text with
      | error fault => exact .inside h nofun
      | ok rest =>
        obtain ⟨lead, piece, htext, hlead, hpiece⟩ := exists_of_passOver hpass
        exact .behind htext hlead hpiece

/-- A name, a colon and what is read or passed over behind it are a member. -/
theorem exists_of_memberPart {size : Nat} {behind value left : List Char} {name : String}
    {member : NamedPart Document} (hread : Ended value (read value))
    (hname : stringTail [] size text = .ok (name, behind))
    (hcolon : skipBlanks behind = ':' :: value)
    (hmember : memberPart read name value = (member, some left)) :
    ∃ part, '"' :: text = part ++ left ∧ Spells (.part .object) part ∧
      left.length < text.length := by
  obtain ⟨string, heq, hstring⟩ := exists_of_stringTail hname
  obtain ⟨gap, hbehind, hgap⟩ := exists_blanks behind
  have hended := ended_memberPart hread name
  rw [hmember] at hended
  cases hended with
  | @behind _ lead piece _ hvalue hlead h =>
    rw [hcolon, hvalue] at hbehind
    rw [hbehind] at heq
    refine ⟨_, ?_, @Spells.member [] string gap lead piece isBlanks_nil hstring hgap hlead h, ?_⟩
    · rw [heq]
      simp
    · have hlength := congrArg List.length heq
      simp only [List.length_append, List.length_cons] at hlength
      omega

/-- The loop over members ends with the brace, or its object is unfinished. -/
theorem ended_memberLoop {size : Nat} (hread : ∀ text, text.length ≤ bound → Ended text (read text))
    (hturns : turns ≤ bound) (htext : text.length < turns) :
    PartsEnded .object ('"' :: text)
      (.obj (memberLoop read size turns text).1 (memberLoop read size turns text).2.1,
      (memberLoop read size turns text).2.2) := by
  induction turns generalizing text with
  | zero => exact absurd htext (Nat.not_lt_zero _)
  | succ turns ih =>
    unfold memberLoop
    cases hname : stringTail [] size text with
    | error fault => exact .inside (.object (by simp))
    | ok result =>
      obtain ⟨name, behind⟩ := result
      dsimp only
      split
      · exact .inside (.object (by simp))
      · next value hcolon =>
        have hvalue := hread value (by
          have htotal := length_of_stringTail hname
          have hbehind := length_skipBlanks_le behind
          rw [hcolon, List.length_cons] at hbehind
          omega)
        have hended := ended_memberPart hvalue name
        have hpart := fun member left =>
          @exists_of_memberPart _ _ size behind value left name member hvalue hname hcolon
        generalize memberPart read name value = result at hended hpart
        obtain ⟨member, left⟩ := result
        cases hended with
        | inside h hobstacle => exact .inside (.member List.mem_cons_self h hobstacle)
        | @behind _ _ _ rest =>
          obtain ⟨part, heq, hpart, hshort⟩ := hpart member rest rfl
          obtain ⟨blanks, hrest, hblanks⟩ := exists_blanks rest
          dsimp only
          split
          · exact .inside (.object (by simp))
          · next final hskip =>
            rw [hskip] at hrest
            exact .behind (by rw [heq, hrest]; simp [Bracket.closing]) hpart (.last hblanks)
          · next final hskip =>
            rw [hskip] at hrest
            obtain ⟨blanks', hfinal, hblanks'⟩ := exists_blanks final
            split
            · exact .inside (.object (by simp))
            · next next hquote =>
              rw [hquote] at hfinal
              have hlength := congrArg List.length hrest
              have hlength' := congrArg List.length hfinal
              simp only [List.length_append, List.length_cons] at hlength hlength'
              have hnext := @ih next (by omega) (by omega)
              generalize memberLoop read size turns next = result at hnext
              obtain ⟨members, ending, last⟩ := result
              cases hnext with
              | inside h => exact .inside (Document.unfinished_cons_member h)
              | behind hnext hpart' hmore =>
                refine .behind ?_ hpart (.next hblanks (hpart'.lead hblanks') hmore)
                rw [heq, hrest, hfinal, hnext]
                simp
            · exact .inside (.object (by simp))
            · exact .inside (.object (by simp))
          · exact .inside (.object (by simp))
      · exact .inside (.object (by simp))

/-- An object ends with its brace or is unfinished. -/
theorem ended_object (hread : ∀ text, text.length ≤ bound → Ended text (read text))
    (htext : text.length < bound) :
    Ended ('\x7b' :: text) (object read bound text) := by
  obtain ⟨blanks, heq, hblanks⟩ := exists_blanks text
  have hlength := length_skipBlanks_le text
  unfold object
  split
  · exact .inside (.object (by simp))
  · next rest hskip =>
    rw [hskip] at heq
    refine @Ended.behind _ _ [] _ rest ?_ isBlanks_nil (@Spells.nested .object _ (.empty hblanks))
      (stops_nested .object (.empty hblanks) rest)
    rw [heq]
    simp [opening, Bracket.closing]
  · next rest hskip =>
    rw [hskip] at heq hlength
    have hparts := @ended_memberLoop rest read bound bound bound hread (Nat.le_refl bound)
      (Nat.lt_of_lt_of_le (Nat.lt_of_succ_le hlength) htext.le)
    generalize memberLoop read bound bound rest = result at hparts
    obtain ⟨items, ending, last⟩ := result
    cases hparts with
    | inside h => exact .inside h
    | @behind _ part more rest hparts hpart hmore =>
      have hinside := Spells.first (hpart.lead hblanks) hmore
      refine @Ended.behind _ _ [] _ rest ?_ isBlanks_nil (.nested hinside)
        (stops_nested .object hinside rest)
      rw [heq, hparts]
      simp [opening]
  · exact .inside (.object (by simp))

/-! ### Values -/

theorem Ended.lead {outcome : Outcome} {blanks : List Char} (h : Ended text outcome)
    (hblanks : IsBlanks blanks) :
    Ended (blanks ++ text) outcome := by
  cases h with
  | inside h => exact .inside h
  | behind htext hlead h hstops =>
    exact .behind (by rw [htext]; simp) (isBlanks_append hblanks hlead) h hstops

/-- The first character decides what is read. -/
theorem ended_cons {depth : Nat} (hc : isBlank c = false) (htext : text.length < bound)
    (hread : ∀ below, depth = below + 1 → ∀ text, text.length ≤ bound →
      Ended text (value bound below text)) :
    Ended (c :: text) (value bound depth (c :: text)) := by
  by_cases hquote : c = '"'
  · subst hquote
    rw [value_quote]
    refine ended_leaf fun found rest hfound => ?_
    obtain ⟨string, rfl, hstring⟩ := exists_of_stringTail hfound
    exact ⟨'"' :: string, rfl, .string hstring, stops_string hstring rest⟩
  by_cases hlist : c = '['
  · subst hlist
    cases depth with
    | zero => exact .inside (.list nofun)
    | succ below => exact ended_list (hread below rfl) htext
  by_cases hobject : c = '\x7b'
  · subst hobject
    cases depth with
    | zero => exact .inside (.object nofun)
    | succ below => exact ended_object (hread below rfl) htext
  by_cases hminus : c = '-'
  · subst hminus
    rw [value_minus]
    refine ended_leaf fun found rest hfound => ?_
    obtain ⟨t, rfl, ht, hstops, -⟩ := NumberText.exists_of_number hfound
    exact ⟨'-' :: t.chars, rfl, .negative ht, (stops_negative_iff ht).2 hstops⟩
  by_cases hdigit : c.isDigit = true
  · rw [value_digit hdigit]
    refine ended_leaf fun found rest hfound => ?_
    obtain ⟨t, heq, ht, hstops, -⟩ := NumberText.exists_of_number hfound
    exact ⟨t.chars, heq, .number ht, (stops_chars_iff ht).2 hstops⟩
  by_cases hn : c = 'n'
  · subst hn
    rw [value_n]
    exact ended_wordLeaf .null (stops_of_last ['n', 'u', 'l'] (by decide))
  by_cases ht : c = 't'
  · subst ht
    rw [value_t]
    exact ended_wordLeaf .true (stops_of_last ['t', 'r', 'u'] (by decide))
  by_cases hf : c = 'f'
  · subst hf
    rw [value_f]
    exact ended_wordLeaf .false (stops_of_last ['f', 'a', 'l', 's'] (by decide))
  · have hdue : value bound depth (c :: text) = (.broken .valueDue, none) := by
      unfold value
      rw [skipBlanks_cons hc]
      simp only [if_neg hquote, if_neg hlist, if_neg hobject, if_neg hminus, if_neg hdigit,
        if_neg hn, if_neg ht, if_neg hf]
    rw [hdue]
    exact .inside (.broken _)

/-- A value ends if the values one level deeper do. -/
theorem ended_of_below {depth : Nat} (htext : text.length ≤ bound)
    (hread : ∀ below, depth = below + 1 → ∀ text, text.length ≤ bound →
      Ended text (value bound below text)) :
    Ended text (value bound depth text) := by
  obtain ⟨blanks, heq, hblanks⟩ := exists_blanks text
  have hlength := length_skipBlanks_le text
  cases hskip : skipBlanks text with
  | nil =>
    unfold value
    rw [hskip]
    exact .inside (.broken _)
  | cons c rest =>
    rw [hskip] at heq hlength
    rw [heq, value_append_blanks hblanks]
    exact (ended_cons (isBlank_of_skipBlanks hskip) (hlength.trans htext) hread).lead hblanks

/-- **Reading stops behind a value, or the document says where it broke off.** -/
theorem ended_value (bound depth : Nat) : ∀ text : List Char, text.length ≤ bound →
    Ended text (value bound depth text) := by
  induction depth with
  | zero => exact fun text htext => ended_of_below htext nofun
  | succ depth ih =>
    intro text htext
    refine ended_of_below htext fun below hbelow => ?_
    obtain rfl := Nat.succ.inj hbelow
    exact ih

end Reader

end BuilderApi
