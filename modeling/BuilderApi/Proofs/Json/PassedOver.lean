import BuilderApi.Proofs.Json.Grammar

/-!
# What is passed over is one value

A value that nobody wants is passed over by a scan with a stack of open brackets. The scan knows the
grammar and nothing else: what it takes off the front of a text is one value with the blanks before
it (`BuilderApi.exists_of_passOver`), and every value is taken off (`BuilderApi.passOver_append`).

While brackets are open, a text has to be read as what they demand of it: for each of them, from the
innermost outwards, what follows a part up to the closing bracket (`BuilderApi.Passing.Closes`). One
step of the scan turns one demand into another one, and every text of the second comes from a text
of the first.
-/

namespace BuilderApi

open JsonText

/-! ### Tokens -/

section

variable {text rest tail sequence : List Char} {a b c d : Char} {n : Nat}

/-- Four hexadecimal digits are a unit, whatever follows them. -/
theorem exists_hexFour (ha : IsHex a) (hb : IsHex b) (hc : IsHex c) (hd : IsHex d) :
    ∃ n, ∀ tail, Reader.hexFour (a :: b :: c :: d :: tail) = .ok (n, tail) := by
  obtain ⟨w, hw⟩ := Option.isSome_iff_exists.1 ha
  obtain ⟨x, hx⟩ := Option.isSome_iff_exists.1 hb
  obtain ⟨y, hy⟩ := Option.isSome_iff_exists.1 hc
  obtain ⟨z, hz⟩ := Option.isSome_iff_exists.1 hd
  exact ⟨_, fun tail => by rw [Reader.hexFour, hw, hx, hy, hz]⟩

/-- Four hexadecimal digits are read. -/
theorem exists_of_hexFour (h : Reader.hexFour text = .ok (n, rest)) :
    ∃ a b c d, text = a :: b :: c :: d :: rest ∧ IsHex a ∧ IsHex b ∧ IsHex c ∧ IsHex d := by
  unfold Reader.hexFour at h
  split at h
  · split at h
    · next ha hb hc hd =>
      cases h
      exact ⟨_, _, _, _, rfl, Option.isSome_of_eq_some ha, Option.isSome_of_eq_some hb,
        Option.isSome_of_eq_some hc, Option.isSome_of_eq_some hd⟩
    · cases h
  · split at h <;> cases h

/-- A word is read letter by letter. -/
theorem eq_of_word {letters : List Char} (h : Reader.word letters text = .ok rest) :
    text = letters ++ rest := by
  induction letters generalizing text with
  | nil =>
    cases h
    rfl
  | cons letter letters ih =>
    cases text with
    | nil => cases h
    | cons c text =>
      rw [Reader.word] at h
      split at h
      · next hc => rw [hc, ih h, List.cons_append]
      · cases h

namespace Passing

/-- An escape is passed, whatever follows it. -/
theorem escape_append (h : IsEscape sequence) (tail : List Char) :
    escape (sequence ++ tail) = .ok tail := by
  cases h with
  | letter h =>
    rename_i c
    have hc : c ≠ 'u' := by
      rintro rfl
      exact absurd h (by decide)
    rw [List.singleton_append, escape, if_neg hc, if_pos h]
  | unit ha hb hc hd =>
    obtain ⟨n, hunit⟩ := exists_hexFour ha hb hc hd
    rw [List.cons_append, escape, if_pos rfl]
    simp only [List.cons_append, List.nil_append, hunit]
    rfl

/-- What is passed behind a backslash is an escape. -/
theorem exists_of_escape (h : escape text = .ok rest) :
    ∃ sequence, text = sequence ++ rest ∧ IsEscape sequence := by
  cases text with
  | nil => cases h
  | cons c text =>
    rw [escape] at h
    split at h
    · next hc =>
      obtain ⟨⟨n, rest'⟩, hunit, h⟩ := exists_of_bind_eq_ok h
      cases h
      obtain ⟨w, x, y, z, rfl, hw, hx, hy, hz⟩ := exists_of_hexFour hunit
      exact ⟨['u', w, x, y, z], by rw [hc]; rfl, .unit hw hx hy hz⟩
    · split at h
      · next hletter =>
        cases h
        exact ⟨[c], rfl, .letter hletter⟩
      · cases h

/-- A string is passed, whatever follows its closing quote. -/
theorem stringTail_append (h : IsString text) : ∀ {bound : Nat}, text.length ≤ bound → ∀ tail,
    stringTail bound (text ++ tail) = .ok tail := by
  induction h with
  | close =>
    intro bound hbound tail
    obtain ⟨bound, rfl⟩ := Nat.exists_eq_succ_of_ne_zero (Nat.ne_zero_of_lt hbound)
    rfl
  | plain hquote hbackslash hcontrol _ ih =>
    intro bound hbound tail
    obtain ⟨bound, rfl⟩ := Nat.exists_eq_succ_of_ne_zero (Nat.ne_zero_of_lt hbound)
    rw [List.cons_append, stringTail, if_neg hquote, if_neg hbackslash,
      if_neg (Nat.not_lt.2 hcontrol)]
    exact ih (Nat.le_of_succ_le_succ hbound) tail
  | @escape sequence rest hescape _ ih =>
    intro bound hbound tail
    obtain ⟨bound, rfl⟩ := Nat.exists_eq_succ_of_ne_zero (Nat.ne_zero_of_lt hbound)
    rw [List.length_cons, List.length_append] at hbound
    rw [List.cons_append, stringTail, if_neg (by decide), if_pos rfl, List.append_assoc,
      escape_append hescape]
    exact ih (by omega) tail

/-- What is passed as a string is one. -/
theorem exists_of_stringTail :
    ∀ {bound : Nat} {text : List Char}, stringTail bound text = .ok rest →
    ∃ front, text = front ++ rest ∧ IsString front
  | 0, _, h => by cases h
  | _ + 1, [], h => by cases h
  | bound + 1, c :: text, h => by
    rw [stringTail] at h
    split at h
    · next hc =>
      cases h
      exact ⟨['"'], by rw [hc]; rfl, .close⟩
    · next hquote =>
      split at h
      · next hc =>
        split at h
        · next text' hescape =>
          obtain ⟨sequence, rfl, hsequence⟩ := exists_of_escape hescape
          obtain ⟨front, rfl, hfront⟩ := exists_of_stringTail h
          exact ⟨'\\' :: (sequence ++ front), by simp [hc], .escape hsequence hfront⟩
        · cases h
      · next hbackslash =>
        split at h
        · cases h
        · next hcontrol =>
          obtain ⟨front, rfl, hfront⟩ := exists_of_stringTail h
          exact ⟨c :: front, rfl, .plain hquote hbackslash (Nat.not_lt.1 hcontrol) hfront⟩

end Passing

end

namespace Passing

open Reader (IsBlanks skipBlanks isBlank)

variable {opened : List Bracket} {bracket : Bracket} {text rest tail more front : List Char}
  {place : Place}

/-! ### One step -/

/-- A value without parts is passed in one step. -/
theorem stepValue_leaf (h : IsLeaf text) (hstops : Stops text tail) :
    stepValue opened (text ++ tail) = .ok (.behind, opened, tail) := by
  cases h with
  | null => rfl
  | true => rfl
  | false => rfl
  | string h =>
    rw [List.cons_append, stepValue, if_pos rfl, stringTail_append h (by simp; omega)]
    rfl
  | number h =>
    obtain ⟨c, digits, hchars, hc⟩ := exists_digit_chars h
    have hne (d : Char) (hd : d.isDigit = false) : c ≠ d := Reader.ne_of_isDigit hc hd
    have hpass := NumberText.passing_number_chars h ((stops_chars_iff h).1 hstops)
    rw [hchars, List.cons_append] at hpass ⊢
    rw [stepValue, if_neg (hne '"' (by decide)), if_neg (hne '[' (by decide)),
      if_neg (hne '\x7b' (by decide)),
      if_neg (hne '-' (by decide)), if_pos hc, hpass]
    rfl
  | negative h =>
    rw [List.cons_append, stepValue, if_neg (by decide), if_neg (by decide),
      if_neg (by decide), if_pos rfl,
      NumberText.passing_number_chars h ((stops_negative_iff h).1 hstops)]
    rfl

/-- A name with its colon is passed in one step. -/
theorem stepName_quote {behind : List Char} (hname : stringTail (text.length + 1) text = .ok behind)
    (hcolon : skipBlanks behind = ':' :: rest) :
    stepName opened ('"' :: text) = .ok (.value, opened, rest) := by
  simp only [stepName, if_true, hname, bind, Except.bind, hcolon]

/-- What the start of a value comes to: a value without parts is behind, or a bracket is open. -/
inductive Started (opened : List Bracket) : List Char → Place → Prop
  /-- A value without parts. -/
  | leaf {text rest : List Char} (h : IsLeaf text) :
      Started opened (text ++ rest) (.behind, opened, rest)
  /-- A bracket. -/
  | bracket (bracket : Bracket) (rest : List Char) :
      Started opened (opening bracket :: rest) (.inside, bracket :: opened, rest)

theorem started_passed {result : Except Fault (List Char)} (h : passed opened result = .ok place)
    (hleaf : ∀ rest, result = .ok rest → ∃ front, text = front ++ rest ∧ IsLeaf front) :
    Started opened text place := by
  cases result with
  | error fault => cases h
  | ok rest =>
    cases h
    obtain ⟨front, rfl, hfront⟩ := hleaf rest rfl
    exact .leaf hfront

/-- A step at a value begins with one, or with a bracket that is then open. -/
theorem started_of_stepValue (h : stepValue opened text = .ok place) :
    Started opened text place := by
  cases text with
  | nil => cases h
  | cons c text =>
    rw [stepValue] at h
    split at h
    · next hc =>
      refine started_passed h fun rest hrest => ?_
      obtain ⟨front, rfl, hfront⟩ := exists_of_stringTail hrest
      exact ⟨'"' :: front, by rw [hc]; rfl, .string hfront⟩
    split at h
    · next hc =>
      cases h
      exact hc ▸ .bracket .list _
    split at h
    · next hc =>
      cases h
      exact hc ▸ .bracket .object _
    split at h
    · next hc =>
      refine started_passed h fun rest hrest => ?_
      obtain ⟨t, rfl, ht⟩ := NumberText.exists_of_passing_number hrest
      exact ⟨'-' :: t.chars, by rw [hc]; rfl, .negative ht⟩
    split at h
    · refine started_passed h fun rest hrest => ?_
      obtain ⟨t, htext, ht⟩ := NumberText.exists_of_passing_number hrest
      exact ⟨t.chars, htext, .number ht⟩
    split at h
    · next hc => exact started_passed h fun rest hrest =>
        ⟨_, by rw [hc, eq_of_word hrest]; rfl, .null⟩
    split at h
    · next hc => exact started_passed h fun rest hrest =>
        ⟨_, by rw [hc, eq_of_word hrest]; rfl, .true⟩
    split at h
    · next hc => exact started_passed h fun rest hrest =>
        ⟨_, by rw [hc, eq_of_word hrest]; rfl, .false⟩
    · cases h

/-! ### What is passed over -/

/-- The text closes the brackets that are open. -/
def Closes : List Bracket → List Char → Prop
  | [], text => text = []
  | bracket :: opened, text =>
    ∃ piece more, text = piece ++ more ∧ Spells (.behind bracket) piece ∧ Closes opened more

/-- The text is what is due, and then closes the brackets that are open. -/
def Demands : Due → List Bracket → List Char → Prop
  | .behind, opened, text => Closes opened text
  | .value, opened, text =>
    ∃ lead piece more, text = lead ++ (piece ++ more) ∧ IsBlanks lead ∧ Spells .value piece ∧
    Closes opened more
  | .name, opened, text =>
    ∃ piece more, text = piece ++ more ∧ Spells (.part .object) piece ∧ Closes opened more
  | .inside, [], text => text = []
  | .inside, bracket :: opened, text =>
    ∃ piece more, text = piece ++ more ∧ Spells (.inside bracket) piece ∧
    Closes opened more

/-- Inside of a bracket a part is demanded, and behind it what the brackets outside demand. -/
theorem exists_of_demands_part (h : Demands bracket.part opened text) :
    ∃ piece more, text = piece ++ more ∧ Spells (.part bracket) piece ∧ Closes opened more := by
  cases bracket with
  | object => exact h
  | list =>
    obtain ⟨lead, piece, more, rfl, hlead, hpiece, hmore⟩ := h
    exact ⟨lead ++ piece, more, (List.append_assoc _ _ _).symm, .item hlead hpiece, hmore⟩

/-- What is demanded after a step behind a part was demanded before it. -/
theorem demands_of_stepBehind {due : Due} {opened' : List Bracket} {text' front' : List Char}
    (h : stepBehind bracket opened (skipBlanks text) = .ok (due, opened', text'))
    (hfront : text' = front' ++ rest) (hdemands : Demands due opened' front') :
    ∃ front, text = front ++ rest ∧ Demands .behind (bracket :: opened) front := by
  obtain ⟨blanks, htext, hblanks⟩ := Reader.exists_blanks text
  generalize skipBlanks text = text'' at h htext
  cases text'' with
  | nil => cases h
  | cons c text'' =>
    rw [stepBehind] at h
    split at h
    · next hc =>
      cases h
      refine ⟨blanks ++ [c] ++ front', by
        simp [htext, hfront], _, _, rfl, hc ▸ .last hblanks, hdemands⟩
    · split at h
      · next hc =>
        cases h
        obtain ⟨piece, behind, rfl, hpiece, more, others, rfl, hmore, hothers⟩ :=
          exists_of_demands_part hdemands
        refine ⟨blanks ++ ',' :: (piece ++ more) ++ others, by
          simp [htext, hfront, hc], _, _, rfl, ?_, hothers⟩
        exact .next hblanks hpiece hmore
      · cases h

/-- What is demanded after a step inside a bracket was demanded before it. -/
theorem demands_of_stepInside {due : Due} {opened' : List Bracket} {text' front' : List Char}
    (h : stepInside bracket opened (skipBlanks text) = .ok (due, opened', text'))
    (hfront : text' = front' ++ rest) (hdemands : Demands due opened' front') :
    ∃ front, text = front ++ rest ∧ Demands .inside (bracket :: opened) front := by
  obtain ⟨blanks, htext, hblanks⟩ := Reader.exists_blanks text
  generalize skipBlanks text = text'' at h htext
  cases text'' with
  | nil => cases h
  | cons c text'' =>
    rw [stepInside] at h
    split at h
    · next hc =>
      cases h
      refine ⟨blanks ++ [c] ++ front', by
        simp [htext, hfront], _, _, rfl, hc ▸ .empty hblanks, hdemands⟩
    · cases h
      obtain ⟨piece, behind, rfl, hpiece, more, others, rfl, hmore, hothers⟩ :=
        exists_of_demands_part hdemands
      refine ⟨(blanks ++ piece) ++ more ++ others, by simp [htext, hfront], _, _, rfl, ?_, hothers⟩
      exact .first (hpiece.lead hblanks) hmore

/-- What is demanded after a step at a value was demanded before it. -/
theorem demands_of_stepValue (h : stepValue opened (skipBlanks text) = .ok place)
    (hplace : ∃ front, place.2.2 = front ++ rest ∧ Demands place.1 place.2.1 front) :
    ∃ front, text = front ++ rest ∧ Demands .value opened front := by
  obtain ⟨blanks, htext, hblanks⟩ := Reader.exists_blanks text
  have hstarted := started_of_stepValue h
  generalize skipBlanks text = text' at hstarted htext
  obtain ⟨front, hfront, hdemands⟩ := hplace
  cases hstarted with
  | @leaf leaf behind hleaf =>
    obtain rfl : behind = front ++ rest := hfront
    exact ⟨blanks ++ (leaf ++ front), by simp [htext], _, _, _, rfl, hblanks, .leaf hleaf, hdemands⟩
  | bracket bracket text' =>
    obtain rfl : text' = front ++ rest := hfront
    obtain ⟨piece, more, rfl, hpiece, hmore⟩ := hdemands
    exact ⟨blanks ++ (opening bracket :: piece ++ more), by
      simp [htext], _, _, _, rfl, hblanks, .nested hpiece, hmore⟩

/-- What is demanded after a step at a name was demanded before it. -/
theorem demands_of_stepName (h : stepName opened (skipBlanks text) = .ok place)
    (hplace : ∃ front, place.2.2 = front ++ rest ∧ Demands place.1 place.2.1 front) :
    ∃ front, text = front ++ rest ∧ Demands .name opened front := by
  obtain ⟨blanks, htext, hblanks⟩ := Reader.exists_blanks text
  generalize skipBlanks text = text' at h htext
  cases text' with
  | nil => cases h
  | cons c text' =>
    rw [stepName] at h
    split at h
    · next hc =>
      obtain ⟨behind, hname, hcolon⟩ := exists_of_bind_eq_ok h
      obtain ⟨name, rfl, hstring⟩ := exists_of_stringTail hname
      obtain ⟨gap, hbehind, hgap⟩ := Reader.exists_blanks behind
      generalize skipBlanks behind = text' at hcolon hbehind
      split at hcolon
      · cases hcolon
      · cases hcolon
        obtain ⟨front, hfront, lead, piece, more, rfl, hlead, hpiece, hmore⟩ := hplace
        dsimp only at hfront
        refine ⟨blanks ++ '"' :: (name ++ (gap ++ ':' :: (lead ++ piece))) ++ more, ?_, _, _, rfl,
          .member hblanks hstring hgap hlead hpiece, hmore⟩
        rw [htext, hbehind, hfront, hc]
        simp
      · cases hcolon
    · cases h

/-- **A scan takes what is due off the front of a text**, and what closes the open brackets. -/
theorem exists_of_scan : ∀ {bound : Nat} {due : Due} {opened : List Bracket} {text : List Char},
    scan bound (due, opened, text) = .ok rest →
    ∃ front, text = front ++ rest ∧ Demands due opened front
  | 0, _, _, _, h => by cases h
  | _ + 1, .behind, [], _, h => by
    cases h
    exact ⟨[], rfl, rfl⟩
  | _ + 1, .inside, [], _, h => by
    cases h
    exact ⟨[], rfl, rfl⟩
  | _ + 1, .behind, bracket :: opened, text, h => by
    obtain ⟨⟨due, opened', text'⟩, hstep, h⟩ := exists_of_bind_eq_ok h
    obtain ⟨front, hfront, hdemands⟩ := exists_of_scan h
    exact demands_of_stepBehind hstep hfront hdemands
  | _ + 1, .inside, bracket :: opened, text, h => by
    obtain ⟨⟨due, opened', text'⟩, hstep, h⟩ := exists_of_bind_eq_ok h
    obtain ⟨front, hfront, hdemands⟩ := exists_of_scan h
    exact demands_of_stepInside hstep hfront hdemands
  | _ + 1, .value, opened, text, h => by
    obtain ⟨place, hstep, h⟩ := exists_of_bind_eq_ok h
    exact demands_of_stepValue hstep (exists_of_scan h)
  | _ + 1, .name, opened, text, h => by
    obtain ⟨place, hstep, h⟩ := exists_of_bind_eq_ok h
    exact demands_of_stepName hstep (exists_of_scan h)

/-! ### Every value is passed over -/

/-- At most so many steps lead from one place to another one. -/
def Leads (steps : Nat) (start goal : Place) : Prop :=
  ∃ taken ≤ steps, ∀ bound, scan (taken + bound) start = scan bound goal

/-- More steps do no harm. -/
theorem Leads.mono {steps steps' : Nat} {start goal : Place} (h : Leads steps start goal)
    (hle : steps ≤ steps') :
    Leads steps' start goal := by
  obtain ⟨taken, htaken, hscan⟩ := h
  exact ⟨taken, htaken.trans hle, hscan⟩

/-- One run after the other takes the steps of both. -/
theorem Leads.trans {steps steps' : Nat} {start middle goal : Place} (h : Leads steps start middle)
    (h' : Leads steps' middle goal) : Leads (steps + steps') start goal := by
  obtain ⟨taken, htaken, hscan⟩ := h
  obtain ⟨taken', htaken', hscan'⟩ := h'
  exact ⟨taken + taken', Nat.add_le_add htaken htaken', fun bound => by
    rw [Nat.add_assoc, hscan, hscan']⟩

/-- A step that goes on is the first of the steps. -/
theorem leads_one {start goal : Place} (h : ∀ bound, scan (bound + 1) start = scan bound goal) :
    Leads 1 start goal :=
  ⟨1, Nat.le_refl 1, fun bound => by rw [Nat.add_comm, h]⟩

theorem leads_value (h : stepValue opened (skipBlanks text) = .ok place) :
    Leads 1 (.value, opened, text) place :=
  leads_one fun bound => by
    rw [scan, h]
    rfl

theorem leads_name (h : stepName opened (skipBlanks text) = .ok place) :
    Leads 1 (.name, opened, text) place :=
  leads_one fun bound => by
    rw [scan, h]
    rfl

theorem leads_inside (h : stepInside bracket opened (skipBlanks text) = .ok place) :
    Leads 1 (.inside, bracket :: opened, text) place :=
  leads_one fun bound => by
    rw [scan, h]
    rfl

theorem leads_behind (h : stepBehind bracket opened (skipBlanks text) = .ok place) :
    Leads 1 (.behind, bracket :: opened, text) place :=
  leads_one fun bound => by
    rw [scan, h]
    rfl

/-- Blanks in front of a part make no difference. -/
theorem leads_skipBlanks {steps : Nat} (h : Leads steps (bracket.part, opened, text) place) :
    Leads steps (bracket.part, opened, skipBlanks text) place := by
  have hscan : ∀ bound, scan bound (bracket.part, opened, skipBlanks text) =
      scan bound (bracket.part, opened, text) := by
    rintro (_ | bound)
    · rfl
    · cases bracket
      · change scan (bound + 1) (.value, _, _) = scan (bound + 1) (.value, _, _)
        rw [scan, scan, Reader.skipBlanks_idem]
      · change scan (bound + 1) (.name, _, _) = scan (bound + 1) (.name, _, _)
        rw [scan, scan, Reader.skipBlanks_idem]
  obtain ⟨taken, htaken, hgoal⟩ := h
  exact ⟨taken, htaken, fun bound => (hscan _).trans (hgoal bound)⟩

/-- The steps with which the scan passes over a piece. -/
def Passes : Piece → List Char → Prop
  | .value, text => ∀ opened lead tail, IsBlanks lead → Stops text tail →
    Leads (2 * text.length) (.value, opened, lead ++ (text ++ tail)) (.behind, opened, tail)
  | .part bracket, text => ∀ opened tail, NumberText.Ends tail →
    Leads (2 * text.length) (bracket.part, opened, text ++ tail) (.behind, opened, tail)
  | .inside bracket, text => ∀ opened tail,
    Leads (2 * text.length + 1) (.inside, bracket :: opened, text ++ tail) (.behind, opened, tail)
  | .behind bracket, text => ∀ opened tail,
    Leads (2 * text.length) (.behind, bracket :: opened, text ++ tail) (.behind, opened, tail)

/-- What is spelled is passed over. -/
theorem passes_of_spells {piece : Piece} (h : Spells piece text) : Passes piece text := by
  induction h with
  | @leaf text h =>
    intro opened lead tail hlead hstops
    have hstep :
        stepValue opened (skipBlanks (lead ++ (text ++ tail))) = .ok (.behind, opened, tail) := by
      rw [Reader.skipBlanks_append hlead, skipBlanks_value (.leaf h)]
      exact stepValue_leaf h hstops
    have hlength : 0 < text.length := List.length_pos_iff.2 (by
      obtain ⟨c, rest, rfl, -⟩ := exists_head (.leaf h)
      exact List.cons_ne_nil _ _)
    exact (leads_value hstep).mono (by omega)
  | @nested bracket text h ih =>
    intro opened lead tail hlead _
    have hstep : stepValue opened (skipBlanks (lead ++ (opening bracket :: text ++ tail))) =
        .ok (.inside, bracket :: opened, text ++ tail) := by
      rw [Reader.skipBlanks_append hlead, skipBlanks_value (.nested h)]
      cases bracket <;> rfl
    exact ((leads_value hstep).trans (ih opened tail)).mono (by simp; omega)
  | @item lead text hlead h ih =>
    intro opened tail htail
    rw [List.append_assoc]
    exact (ih opened lead tail hlead (stops_of_ends htail text)).mono (by simp)
  | @member lead name gap lead' text hlead hname hgap hlead' h ih =>
    intro opened tail htail
    have hstep : stepName opened
        (skipBlanks (lead ++ '"' :: (name ++ (gap ++ ':' :: (lead' ++ text))) ++ tail)) =
        .ok (.value, opened, lead' ++ (text ++ tail)) := by
      rw [List.append_assoc, Reader.skipBlanks_append hlead, List.cons_append,
        Reader.skipBlanks_cons (by decide),
        List.append_assoc]
      refine stepName_quote (stringTail_append hname (by simp; omega) _) ?_
      rw [List.append_assoc, Reader.skipBlanks_append hgap, List.cons_append,
        Reader.skipBlanks_cons (by decide),
        List.append_assoc]
    exact ((leads_name hstep).trans (ih opened lead' tail hlead' (stops_of_ends htail text))).mono
      (by simp; omega)
  | @empty bracket blanks hblanks =>
    intro opened tail
    have hstep : stepInside bracket opened (skipBlanks (blanks ++ [bracket.closing] ++ tail)) =
        .ok (.behind, opened, tail) := by
      rw [skipBlanks_closing hblanks, stepInside, if_pos rfl]
    exact (leads_inside hstep).mono (by omega)
  | @first bracket text more h hmore ih ihMore =>
    intro opened tail
    obtain ⟨c, rest, hhead, hc⟩ := exists_partHead h (more ++ tail)
    have hstep : stepInside bracket opened (skipBlanks (text ++ more ++ tail)) =
        .ok (bracket.part, bracket :: opened, skipBlanks (text ++ (more ++ tail))) := by
      rw [List.append_assoc, hhead, stepInside, if_neg (hc bracket)]
    have hpart := ih (bracket :: opened) (more ++ tail) (ends_behind hmore tail)
    exact ((leads_inside hstep).trans ((leads_skipBlanks hpart).trans (ihMore opened tail))).mono
      (by simp; omega)
  | @last bracket blanks hblanks =>
    intro opened tail
    have hstep : stepBehind bracket opened (skipBlanks (blanks ++ [bracket.closing] ++ tail)) =
        .ok (.behind, opened, tail) := by
      rw [skipBlanks_closing hblanks, stepBehind, if_pos rfl]
    exact (leads_behind hstep).mono (by simp; omega)
  | @next bracket blanks text more hblanks h hmore ih ihMore =>
    intro opened tail
    have hne : ',' ≠ bracket.closing := by cases bracket <;> decide
    have hstep : stepBehind bracket opened (skipBlanks (blanks ++ ',' :: (text ++ more) ++ tail)) =
        .ok (bracket.part, bracket :: opened, text ++ (more ++ tail)) := by
      rw [List.append_assoc, Reader.skipBlanks_append hblanks, List.cons_append,
        Reader.skipBlanks_cons (by decide),
        stepBehind, if_neg hne, if_pos rfl, List.append_assoc]
    have hpart := ih (bracket :: opened) (more ++ tail) (ends_behind hmore tail)
    exact ((leads_behind hstep).trans (hpart.trans (ihMore opened tail))).mono (by simp; omega)

end Passing

/-- **What is passed over is one value**, with the blanks in front of it. -/
theorem exists_of_passOver {text rest : List Char} (h : passOver text = .ok rest) :
    ∃ lead piece, text = lead ++ (piece ++ rest) ∧ Reader.IsBlanks lead ∧ Spells .value piece := by
  obtain ⟨front, rfl, lead, piece, more, rfl, hlead, hpiece, hmore⟩ := Passing.exists_of_scan h
  obtain rfl : more = [] := hmore
  exact ⟨lead, piece, by simp, hlead, hpiece⟩

/-- **Every value is passed over**, with blanks in front of it, if it does not go on in the text
behind it. -/
theorem passOver_append {lead text tail : List Char} (hlead : Reader.IsBlanks lead)
    (h : Spells .value text) (hstops : Stops text tail) :
    passOver (lead ++ (text ++ tail)) = .ok tail := by
  obtain ⟨taken, htaken, hscan⟩ := Passing.passes_of_spells h [] lead tail hlead hstops
  have hbound : ∃ bound, 2 * (lead ++ (text ++ tail)).length + 2 = taken + (bound + 1) :=
    ⟨2 * (lead ++ (text ++ tail)).length + 1 - taken, by simp only [List.length_append]; omega⟩
  obtain ⟨bound, hbound⟩ := hbound
  rw [passOver, hbound, hscan]
  rfl

end BuilderApi
