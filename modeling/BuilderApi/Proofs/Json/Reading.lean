import BuilderApi.Json.Reader

/-!
# What the reader does where the text is known

The reader looks at one character and decides by it. Each lemma says what it does once that
character is known, so that a proof can follow how the text was built rather than how the reader
takes it apart: blanks are passed over, the first character of a value says of what kind it is, and
behind a part of a list or an object there is its end or a comma.
-/

namespace BuilderApi

namespace Reader

variable {text rest next final blanks : List Char} {c : Char}

/-! ### Blanks -/

/-- Nothing but blanks. -/
def IsBlanks (text : List Char) : Prop := ∀ c ∈ text, isBlank c = true

theorem isBlanks_nil : IsBlanks [] := nofun

/-- Blanks in front make no difference to what is skipped. -/
theorem skipBlanks_append (h : IsBlanks blanks) (text : List Char) :
    skipBlanks (blanks ++ text) = skipBlanks text :=
  List.dropWhile_append_of_pos h

/-- Nothing is skipped in front of a character that is not blank. -/
theorem skipBlanks_cons (hc : isBlank c = false) (text : List Char) :
    skipBlanks (c :: text) = c :: text :=
  List.dropWhile_cons_of_neg (by simp [hc])

/-- Blanks that are passed over stand in front of what is left, and what is left begins with
none. -/
theorem exists_blanks (text : List Char) :
    ∃ blanks, text = blanks ++ skipBlanks text ∧ IsBlanks blanks :=
  ⟨_, List.takeWhile_append_dropWhile.symm, fun c hc => List.all_eq_true.1 List.all_takeWhile c hc⟩

/-- What is left after skipping does not begin with a blank. -/
theorem isBlank_of_skipBlanks (h : skipBlanks text = c :: rest) : isBlank c = false := by
  have hhead := List.head?_dropWhile_not isBlank text
  rw [← skipBlanks, h] at hhead
  simpa using hhead

/-- Skipping twice is skipping once. -/
theorem skipBlanks_idem (text : List Char) : skipBlanks (skipBlanks text) = skipBlanks text := by
  cases h : skipBlanks text with
  | nil => rfl
  | cons c rest => exact skipBlanks_cons (isBlank_of_skipBlanks h) rest

/-! ### The first character of a value -/

variable {bound depth : Nat}

/-- Blanks in front of a value are skipped. -/
theorem value_append_blanks (h : IsBlanks blanks) (text : List Char) :
    value bound depth (blanks ++ text) = value bound depth text := by
  unfold value
  rw [skipBlanks_append h]

/-- Behind a quote there is a string. -/
theorem value_quote (text : List Char) :
    value bound depth ('"' :: text) = leaf .str (stringTail [] bound text) := by
  cases depth <;> rfl

/-- At the nesting limit a list is refused before it is read. -/
theorem value_list_zero (text : List Char) :
    value bound 0 ('[' :: text) = (.arr [] (.fault .tooDeep), none) := rfl

/-- Behind a bracket there is a list, one level deeper. -/
theorem value_list (text : List Char) :
    value bound (depth + 1) ('[' :: text) = list (value bound depth) bound text := rfl

/-- At the nesting limit an object is refused before it is read. -/
theorem value_object_zero (text : List Char) :
    value bound 0 ('\x7b' :: text) = (.obj [] .tooDeep, none) := rfl

/-- Behind a brace there is an object, one level deeper. -/
theorem value_object (text : List Char) :
    value bound (depth + 1) ('\x7b' :: text) = object (value bound depth) bound text := rfl

/-- Behind a minus there is a number. -/
theorem value_minus (text : List Char) :
    value bound depth ('-' :: text) = leaf .num (number true text) := by
  cases depth <;> rfl

theorem ne_of_isDigit {d : Char} (hc : c.isDigit = true) (hd : d.isDigit = false) : c ≠ d := by
  rintro rfl
  rw [hc] at hd
  cases hd

theorem isBlank_of_isDigit (hc : c.isDigit = true) : isBlank c = false := by
  have hne (d : Char) (hd : d.isDigit = false) : c ≠ d := ne_of_isDigit hc hd
  simp [isBlank, hne ' ' (by decide), hne '\n' (by decide), hne '\t' (by decide),
    hne '\r' (by decide)]

/-- A digit begins no other kind of value. -/
theorem value_digit (hc : c.isDigit = true) (text : List Char) :
    value bound depth (c :: text) = leaf .num (number false (c :: text)) := by
  have hne (d : Char) (hd : d.isDigit = false) : c ≠ d := ne_of_isDigit hc hd
  unfold value
  rw [skipBlanks_cons (isBlank_of_isDigit hc)]
  simp only [if_neg (hne '"' (by decide)), if_neg (hne '[' (by decide)),
    if_neg (hne '\x7b' (by decide)),
    if_neg (hne '-' (by decide)), if_pos hc]

theorem value_n (text : List Char) :
    value bound depth ('n' :: text) = wordLeaf .null (word ['u', 'l', 'l'] text) := by
  cases depth <;> rfl

theorem value_t (text : List Char) :
    value bound depth ('t' :: text) = wordLeaf (.bool true) (word ['r', 'u', 'e'] text) := by
  cases depth <;> rfl

theorem value_f (text : List Char) :
    value bound depth ('f' :: text) = wordLeaf (.bool false) (word ['a', 'l', 's', 'e'] text) := by
  cases depth <;> rfl

/-! ### Lists -/

variable {read : List Char → Outcome}

/-- A list that is closed at once is empty. -/
theorem list_closed (h : skipBlanks text = ']' :: rest) :
    list read bound text = (.arr [] .closed, some rest) := by
  unfold list
  rw [h]
  rfl

/-- Otherwise its items are read in a loop. -/
theorem list_items (h : skipBlanks text = c :: rest) (hc : c ≠ ']') :
    list read bound text =
      let (items, ending, rest) := itemLoop read bound (c :: rest)
      (.arr items ending, rest) := by
  unfold list
  rw [h]
  split
  · next heq => cases heq
  · next heq => exact absurd (List.cons.inj heq).1 hc
  · rfl

variable {turns : Nat} {item : Document}

/-- Where an item does not end, nothing more is read. -/
theorem itemLoop_none (h : read text = (item, none)) :
    itemLoop read (turns + 1) text = ([item], .closed, none) := by
  rw [itemLoop, h]

/-- The bracket behind an item ends the loop. -/
theorem itemLoop_last (h : read text = (item, some rest)) (hrest : skipBlanks rest = ']' :: final) :
    itemLoop read (turns + 1) text = ([item], .closed, some final) := by
  rw [itemLoop, h]
  simp only [hrest]

/-- The comma behind an item goes on with the next one, unless the bracket follows it. -/
theorem itemLoop_comma (h : read text = (item, some rest)) (hrest : skipBlanks rest = ',' :: final)
    (hfinal : skipBlanks final = c :: next) (hc : c ≠ ']') :
    itemLoop read (turns + 1) text =
      let (items, ending, rest) := itemLoop read turns (c :: next)
      (item :: items, ending, rest) := by
  rw [itemLoop, h]
  simp only [hrest, hfinal]
  split
  · next heq => cases heq
  · next heq => exact absurd (List.cons.inj heq).1 hc
  · rfl

/-! ### Objects -/

variable {name : String} {member : NamedPart Document} {behind : List Char} {size : Nat}

/-- An object that is closed at once is empty. -/
theorem object_closed (h : skipBlanks text = '\x7d' :: rest) :
    object read bound text = (.obj [] .closed, some rest) := by
  unfold object
  rw [h]
  rfl

/-- Otherwise its members are read in a loop. -/
theorem object_members (h : skipBlanks text = '"' :: rest) :
    object read bound text =
      let (members, ending, rest) := memberLoop read bound bound rest
      (.obj members ending, rest) := by
  unfold object
  rw [h]
  rfl

/-- A member whose value ends has no obstacle. -/
theorem memberPart_some (h : read text = (item, some rest)) :
    memberPart read name text = (⟨name, item, none⟩, some rest) := by
  rw [memberPart, h]

/-- A value that breaks off may still be passed over. -/
theorem memberPart_passed (h : read text = (item, none)) (hpass : passOver text = .ok rest) :
    memberPart read name text = (⟨name, item, none⟩, some rest) := by
  rw [memberPart, h]
  simp only [hpass]

/-- A fault in a name ends the loop. -/
theorem memberLoop_fault {fault : Fault} (hname : stringTail [] size text = .error fault) :
    memberLoop read size (turns + 1) text = ([], .atName fault, none) := by
  unfold memberLoop
  simp only [hname]

/-- The brace behind a member ends the loop. -/
theorem memberLoop_last (hname : stringTail [] size text = .ok (name, rest))
    (hcolon : skipBlanks rest = ':' :: next)
    (hpart : memberPart read name next = (member, some behind))
    (hend : skipBlanks behind = '\x7d' :: final) :
    memberLoop read size (turns + 1) text = ([member], .closed, some final) := by
  unfold memberLoop
  simp only [hname, hcolon, hpart, hend]

/-- The comma behind a member goes on with the next name. -/
theorem memberLoop_comma {more : List Char} (hname : stringTail [] size text = .ok (name, rest))
    (hcolon : skipBlanks rest = ':' :: next)
    (hpart : memberPart read name next = (member, some behind))
    (hend : skipBlanks behind = ',' :: final) (hfinal : skipBlanks final = '"' :: more) :
    memberLoop read size (turns + 1) text =
      let (members, ending, rest) := memberLoop read size turns more
      (member :: members, ending, rest) := by
  conv => lhs; unfold memberLoop
  simp only [hname, hcolon, hpart, hend, hfinal]

end Reader

end BuilderApi
