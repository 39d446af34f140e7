import BuilderApi.Proofs.Builder.Reached
import Mathlib.Data.List.Nodup

/-!
# Identifiers of a session

An identifier is a base that the table chooses and a number that the session counts, one behind the
other. Numbers are not used twice, but a base may end with digits: then it can be read as a shorter
base with the first digits of a longer number. This is the only way in which two identifiers get the
same text (`BuilderApi.Identifier.eq_or_continues`), and if a table has two such bases, then there
is a run that makes the two identifiers (`BuilderApi.Session.exists_collision`). So the identifiers
of all runs are distinct exactly if no base of the table continues another
(`BuilderApi.Session.identifiers_distinct_iff`).
-/

namespace BuilderApi

/-- The one base continues the other with the digits of a number. -/
def Continues (long short : String) : Prop := ∃ number, 0 < number ∧ long = short ++ toString number

/-! ### Digits of a number -/

/-- What stands in front of the last digits of a number are the digits of a number. -/
theorem exists_toDigits_of_append {front : List Char} {n m : Nat} (hfront : front ≠ [])
    (h : Nat.toDigits 10 m = front ++ Nat.toDigits 10 n) :
    ∃ number, 0 < number ∧ front = Nat.toDigits 10 number := by
  induction n using Nat.strongRecOn generalizing m with
  | _ n ih =>
  have hlength : 2 ≤ (Nat.toDigits 10 m).length := by
    have hone := List.length_pos_of_ne_nil hfront
    have htwo := List.length_pos_of_ne_nil (@Nat.toDigits_ne_nil n 10)
    rw [h, List.length_append]
    omega
  have hm : 10 ≤ m := by
    by_contra hlt
    rw [Nat.toDigits_of_lt_base (by omega)] at hlength
    simp at hlength
  rw [Nat.toDigits_of_base_le (by decide) hm] at h
  rcases Nat.lt_or_ge n 10 with hn | hn
  · -- the last digit is that of the other number
    rw [Nat.toDigits_of_lt_base hn] at h
    exact ⟨m / 10, by omega, (List.append_inj_left' h rfl).symm⟩
  · rw [Nat.toDigits_of_base_le (by decide) hn, ← List.append_assoc] at h
    exact ih (n / 10) (by omega) (List.append_inj_left' h rfl)

/-- Digits in front of a number make a larger one. -/
theorem exists_append_toDigits {number : Nat} (hnumber : 0 < number) (n : Nat) :
    ∃ m, 2 * n < m ∧ Nat.toDigits 10 m = Nat.toDigits 10 number ++ Nat.toDigits 10 n := by
  induction n using Nat.strongRecOn with
  | _ n ih =>
  rcases Nat.lt_or_ge n 10 with hn | hn
  · exact ⟨10 * number + n, by omega, (Nat.toDigits_append_toDigits (by decide) hnumber hn).symm⟩
  · obtain ⟨m, hm, hdigits⟩ := ih (n / 10) (by omega)
    refine ⟨10 * m + n % 10, by omega, ?_⟩
    rw [← Nat.toDigits_append_toDigits (by decide) (by omega) (Nat.mod_lt n (by decide)), hdigits,
      Nat.toDigits_of_base_le (by decide) hn, Nat.toDigits_of_lt_base (Nat.mod_lt n (by decide)),
        List.append_assoc]

theorem toList_toString (n : Nat) : (toString n).toList = Nat.toDigits 10 n := by
  simp only [Nat.toString_eq_repr, Nat.toList_repr]

theorem toList_text (base : String) (n : Nat) :
    (Identifier.text ⟨base, n⟩).toList = base.toList ++ Nat.toDigits 10 n := by
  rw [Identifier.text, String.toList_append, toList_toString]

theorem continues_of_append {base other : String} {front : List Char} {n m : Nat}
    (hne : (⟨base, n⟩ : Identifier) ≠ ⟨other, m⟩) (hbase : base.toList = other.toList ++ front)
    (h : Nat.toDigits 10 m = front ++ Nat.toDigits 10 n) : Continues base other := by
  have hfront : front ≠ [] := by
    rintro rfl
    rw [List.nil_append] at h
    have hnumbers := congrArg (fun digits => Nat.ofDigitChars 10 digits 0) h
    rw [List.append_nil, String.toList_inj] at hbase
    simp only [Nat.ofDigitChars_ten_toDigits] at hnumbers
    exact hne (by rw [hbase, hnumbers])
  obtain ⟨number, hnumber, rfl⟩ := exists_toDigits_of_append hfront h
  exact ⟨number, hnumber,
    String.toList_inj.1 (by rw [hbase, String.toList_append, toList_toString])⟩

/-- **Identifiers with one text are the same**, unless the base of one continues that of the
other. -/
theorem Identifier.eq_or_continues {a b : Identifier} (h : a.text = b.text) :
    a = b ∨ Continues a.base b.base ∨ Continues b.base a.base := by
  obtain ⟨base, n⟩ := a
  obtain ⟨other, m⟩ := b
  by_cases hne : (⟨base, n⟩ : Identifier) = ⟨other, m⟩
  · exact .inl hne
  · have hchars := congrArg String.toList h
    rw [toList_text, toList_text] at hchars
    rcases List.append_eq_append_iff.1 hchars with ⟨front, hbase, hdigits⟩ | ⟨front, hbase, hdigits⟩
    · exact .inr (.inr (continues_of_append (Ne.symm hne) hbase hdigits))
    · exact .inr (.inl (continues_of_append hne hbase hdigits))

/-- Each identifier of a base that continues another has the text of a later identifier of that
one. -/
theorem Continues.exists_text_eq {long short : String} (h : Continues long short) (n : Nat) :
    ∃ m, 2 * n < m ∧ Identifier.text ⟨long, n⟩ = Identifier.text ⟨short, m⟩ := by
  obtain ⟨number, hnumber, rfl⟩ := h
  obtain ⟨m, hm, hdigits⟩ := exists_append_toDigits hnumber n
  refine ⟨m, hm, String.toList_inj.1 ?_⟩
  rw [toList_text, toList_text, hdigits, String.toList_append, toList_toString, List.append_assoc]

/-- In a fair journal the texts are distinct if no base of the table continues another. -/
theorem Journal.Fair.nodup_texts {s : Session} {j : Journal} (h : j.Fair s)
    (hbases : ∀ long ∈ s.table.bases, ∀ short ∈ s.table.bases, ¬Continues long short) :
    (j.identifiers.map Identifier.text).Nodup := by
  have hnumbers : (j.identifiers.map Identifier.number).Nodup := by
    rw [h.numbers, List.nodup_reverse]
    exact List.nodup_range'
  refine (List.Nodup.of_map _ hnumbers).map_on fun a ha b hb htext => ?_
  rcases Identifier.eq_or_continues htext with heq | hcontinues | hcontinues
  · exact heq
  · exact absurd hcontinues (hbases _ (h.bases a ha) _ (h.bases b hb))
  · exact absurd hcontinues (hbases _ (h.bases b hb) _ (h.bases a ha))

/-- The text of an identifier whose number comes from a counter of 64 bits, which begins again at
0. -/
def Identifier.wordText (identifier : Identifier) : String :=
  identifier.base ++ toString (UInt64.ofNat identifier.number).toNat

/-- In a fair journal with fewer than `UInt64.size` identifiers, a counter of 64 bits has not
begun again. -/
theorem Journal.Fair.wordTexts_eq {s : Session} {j : Journal} (h : j.Fair s)
    (hcount : j.count < UInt64.size) :
    j.identifiers.map Identifier.wordText = j.identifiers.map Identifier.text := by
  refine List.map_congr_left fun identifier hidentifier => ?_
  have hnumber : identifier.number ∈ (List.range' 1 j.count).reverse :=
    h.numbers ▸ List.mem_map_of_mem hidentifier
  rw [List.mem_reverse, List.mem_range'_1] at hnumber
  have hword : identifier.number < UInt64.size :=
    Nat.lt_of_lt_of_le hnumber.2 (Nat.one_add _ ▸ hcount)
  rw [Identifier.wordText, Identifier.text, UInt64.toNat_ofNat_of_lt' hword]

/-! ### Runs that make given identifiers -/

theorem Journal.count_foldl_identify (bases : List String) (j : Journal) :
    (bases.foldl Journal.identify j).count = j.count + bases.length := by
  induction bases generalizing j with
  | nil => rfl
  | cons base bases ih =>
    rw [List.foldl_cons, ih, Journal.count_identify, List.length_cons]
    omega

theorem Journal.suffix_foldl_identify (bases : List String) (j : Journal) :
    j.identifiers <:+ (bases.foldl Journal.identify j).identifiers := by
  induction bases generalizing j with
  | nil => exact List.suffix_rfl
  | cons base bases ih => exact (List.suffix_cons _ _).trans (ih (j.identify base))

/-- With so many arguments, a constructor makes the identifiers of the bindings behind them. -/
theorem autogens_eq {bindings : List ArgBinding} (hbindings : ∀ b ∈ bindings, b.isTerminal = false)
    (given position : Nat) :
    autogens given position bindings =
      (bindings.drop (given - position)).filterMap ArgBinding.autogen? := by
  induction bindings generalizing position with
  | nil => simp [autogens]
  | cons binding rest ih =>
    rw [List.forall_mem_cons] at hbindings
    rw [autogens, if_neg (by simp [hbindings.1]), ih hbindings.2]
    split
    · next hposition =>
      have hgiven : given - position = given - (position + 1) + 1 := by omega
      rw [hgiven, List.drop_succ_cons]
    · next hposition =>
      have hgiven : given - position = 0 := by omega
      have hnext : given - (position + 1) = 0 := by omega
      rw [hgiven, hnext, List.drop_zero, List.drop_zero, List.filterMap_cons]
      cases binding.autogen? <;> rfl

/-- So many arguments can be given that the first identifier is that of a given binding. -/
theorem exists_drop_cons {bindings : List ArgBinding} {binding : ArgBinding} {base : String}
    (hbinding : binding ∈ bindings) (hbase : binding.autogen? = some base) :
    ∃ given bases, (bindings.drop given).filterMap ArgBinding.autogen? = base :: bases := by
  obtain ⟨front, rest, rfl⟩ := List.append_of_mem hbinding
  exact ⟨front.length, rest.filterMap ArgBinding.autogen?, by
    rw [List.drop_left, List.filterMap_cons, hbase]⟩

/-- So many arguments can be given that one identifier is made. -/
theorem exists_drop_singleton {bindings : List ArgBinding}
    (h : bindings.filterMap ArgBinding.autogen? ≠ []) :
    ∃ given base, (bindings.drop given).filterMap ArgBinding.autogen? = [base] := by
  induction bindings with
  | nil => exact absurd rfl h
  | cons binding rest ih =>
    by_cases hrest : rest.filterMap ArgBinding.autogen? = []
    · cases hbase : binding.autogen? with
      | none => simp [hbase, hrest] at h
      | some base => exact ⟨0, base, by rw [List.drop_zero, List.filterMap_cons, hbase, hrest]⟩
    · obtain ⟨given, base, hgiven⟩ := ih hrest
      exact ⟨given + 1, base, hgiven⟩

namespace Session

variable {s : Session} {j : Journal} {base : String}

/-- The identifiers that a constructor makes. -/
theorem identifiers_construct {name : String} {spec : MethodSpec}
    (hspec : s.table.builder name = .ok spec) (hctr : spec.ctr = none) (args : List Arg)
    (j : Journal) :
    ((s.construct name args).journal j).identifiers =
      ((autogens args.length 0 (spec.args.getD [])).foldl Journal.identify j).identifiers := by
  have hchain : s.table.chain name = .ok ⟨[], name, spec⟩ := Table.follow_of_target hspec hctr
  have hbuild := congrArg Journal.identifiers (s.journal_build name spec args j)
  rw [journal_construct, hchain]
  exact hbuild

/-- The entry that chooses a base: its constructor can make the identifiers of its bindings from any
position on. -/
theorem exists_constructor (h : s.table.Accepted) (hbase : base ∈ s.table.bases) :
    ∃ bindings : List ArgBinding, (∃ binding ∈ bindings, binding.autogen? = some base) ∧
      ∀ given j, s.Reached j → ∃ j', s.Reached j' ∧ j'.identifiers =
        (((bindings.drop given).filterMap ArgBinding.autogen?).foldl Journal.identify
          j).identifiers := by
  obtain ⟨name, spec, hentry, hctr, binding, hbinding, hautogen⟩ := Table.mem_bases_iff.1 hbase
  have hspec : s.table.builder name = .ok spec := by
    rw [Table.builder, Fields.get?_of_mem h.nodup_names hentry]
  have hterminal : ∀ b ∈ spec.args.getD [], b.isTerminal = false := by
    rcases h.bindings_eq_singleton_or hentry with ⟨b, hsingle⟩ | hterminal
    · rw [hsingle, List.mem_singleton] at hbinding
      subst hbinding
      rw [hsingle]
      refine List.forall_mem_singleton.2 ?_
      cases binding with
      | spread | merge => cases hautogen
      | _ => rfl
    · exact hterminal
  refine ⟨spec.args.getD [], ⟨binding, hbinding, hautogen⟩, fun given j hj => ?_⟩
  refine ⟨_, hj.construct name (List.replicate given (.json .null)), ?_⟩
  rw [identifiers_construct hspec hctr, autogens_eq hterminal, List.length_replicate, Nat.sub_zero]

/-- A base of the table can be that of the next identifier; how many others are made with it does
not depend on what was made before. -/
theorem exists_step_first (h : s.table.Accepted) (hbase : base ∈ s.table.bases) :
    ∃ others, ∀ j, s.Reached j → ∃ j', s.Reached j' ∧ ⟨base, j.count + 1⟩ ∈ j'.identifiers ∧
      j.identifiers <:+ j'.identifiers ∧ j'.count = j.count + 1 + others := by
  obtain ⟨bindings, ⟨binding, hbinding, hautogen⟩, hstep⟩ := exists_constructor h hbase
  obtain ⟨given, bases, hgiven⟩ := exists_drop_cons hbinding hautogen
  refine ⟨bases.length, fun j hj => ?_⟩
  obtain ⟨j', hj', hidentifiers⟩ := hstep given j hj
  rw [hgiven, List.foldl_cons] at hidentifiers
  have hsuffix : (j.identify base).identifiers <:+ j'.identifiers :=
    hidentifiers ▸ Journal.suffix_foldl_identify bases _
  refine ⟨j', hj', hsuffix.subset List.mem_cons_self, (List.suffix_cons _ _).trans hsuffix, ?_⟩
  rw [Journal.count, hidentifiers]
  exact Journal.count_foldl_identify bases _

/-- If a table chooses any base, so many identifiers can be made as one likes. -/
theorem exists_advance (h : s.table.Accepted) (hbase : base ∈ s.table.bases) (n : Nat) {j : Journal}
    (hj : s.Reached j) : ∃ j', s.Reached j' ∧ j.identifiers <:+ j'.identifiers ∧
    j'.count = j.count + n := by
  obtain ⟨bindings, ⟨binding, hbinding, hautogen⟩, hstep⟩ := exists_constructor h hbase
  have hne : bindings.filterMap ArgBinding.autogen? ≠ [] :=
    List.ne_nil_of_mem (List.mem_filterMap.2 ⟨binding, hbinding, hautogen⟩)
  obtain ⟨given, other, hgiven⟩ := exists_drop_singleton hne
  induction n with
  | zero => exact ⟨j, hj, List.suffix_rfl, rfl⟩
  | succ n ih =>
    obtain ⟨j', hj', hsuffix, hcount⟩ := ih
    obtain ⟨next, hnext, hidentifiers⟩ := hstep given j' hj'
    rw [hgiven] at hidentifiers
    refine ⟨next, hnext, hsuffix.trans ?_, ?_⟩
    · rw [hidentifiers]
      exact Journal.suffix_foldl_identify [other] j'
    · rw [Journal.count, hidentifiers]
      change j'.count + 1 = _
      rw [hcount, Nat.add_assoc]

/-- **Two bases of which one continues the other make two identifiers of one text**, in some run. -/
theorem exists_collision (h : s.table.Accepted) {long short : String} (hlong : long ∈ s.table.bases)
    (hshort : short ∈ s.table.bases) (hcontinues : Continues long short) :
    ∃ j, s.Reached j ∧ ¬(j.identifiers.map Identifier.text).Nodup := by
  obtain ⟨others, hfirst⟩ := exists_step_first h hlong
  obtain ⟨others', hsecond⟩ := exists_step_first h hshort
  -- the number of the first identifier leaves room for the others of its step in front of the
  -- second one
  obtain ⟨m, hm, htext⟩ := hcontinues.exists_text_eq (others + 1)
  obtain ⟨j₁, hj₁, -, hcount₁⟩ := exists_advance h hlong others .fresh
  obtain ⟨j₂, hj₂, hmem₂, -, hcount₂⟩ := hfirst j₁ hj₁
  obtain ⟨j₃, hj₃, hsuffix₃, hcount₃⟩ := exists_advance h hlong (m - 1 - j₂.count) hj₂
  obtain ⟨j₄, hj₄, hmem₄, hsuffix₄, -⟩ := hsecond j₃ hj₃
  have hzero : Journal.fresh.count = 0 := rfl
  have hfirstNumber : j₁.count + 1 = others + 1 := by omega
  have hsecondNumber : j₃.count + 1 = m := by omega
  rw [hfirstNumber] at hmem₂
  rw [hsecondNumber] at hmem₄
  refine ⟨j₄, hj₄, fun hnodup => ?_⟩
  have heq := List.inj_on_of_nodup_map hnodup ((hsuffix₃.trans hsuffix₄).subset hmem₂) hmem₄ htext
  have hnumbers : others + 1 = m := congrArg Identifier.number heq
  omega

/-- **The identifiers of all runs are distinct exactly if no base of the table continues another**
with the digits of a number. A counter of 64 bits writes the same texts as long as fewer than
`UInt64.size` identifiers are made. -/
theorem identifiers_distinct_iff (h : s.table.Accepted) :
    s.Faithful ∧ ((∀ j, s.Reached j → (j.identifiers.map Identifier.text).Nodup) ↔
      ∀ long ∈ s.table.bases, ∀ short ∈ s.table.bases, ¬Continues long short) ∧
    ∀ j, s.Reached j → j.count < UInt64.size →
      j.identifiers.map Identifier.wordText = j.identifiers.map Identifier.text := by
  refine ⟨s.faithful, ⟨fun hdistinct long hlong short hshort hcontinues => ?_, fun hbases j hj =>
    hj.fair.nodup_texts hbases⟩, fun j hj hcount => hj.fair.wordTexts_eq hcount⟩
  obtain ⟨j, hj, hcollision⟩ := exists_collision h hlong hshort hcontinues
  exact hcollision (hdistinct j hj)

/-- An entry whose selections are named. -/
def selectionSession : Session where
  table := [("select", .method
    { (default : MethodSpec) with args := some [.hidden "_sel" (some "sel")] })]
  shapes := []
  functions := []

theorem identifiers_distinct_selectionSession : selectionSession.table.Accepted ∧
    ∀ j, selectionSession.Reached j → (j.identifiers.map Identifier.text).Nodup := by
  have haccepted : selectionSession.table.Accepted :=
    .inr ⟨.obj [("select", .obj [("arg", .arr [.str "^_sel"])])], rfl⟩
  refine ⟨haccepted, (identifiers_distinct_iff haccepted).2.1.2 fun long hlong short hshort => ?_⟩
  obtain rfl : long = "sel" := List.mem_singleton.1 hlong
  obtain rfl : short = "sel" := List.mem_singleton.1 hshort
  rintro ⟨number, -, hlong⟩
  have hnumber : "sel" ++ "" = "sel" ++ toString number := hlong
  rw [String.append_right_inj] at hnumber
  exact Nat.repr_ne_empty hnumber.symm

/-- Two entries, of which one has the base of the other with a digit behind it. -/
def collidingSession : Session where
  table := [("a", .method { (default : MethodSpec) with args := some [.hidden "_s" (some "s")] }),
    ("b", .method { (default : MethodSpec) with args := some [.hidden "_s1" (some "s1")] })]
  shapes := []
  functions := []

/-- One builder of the second entry and ten of the first get an identifier twice. -/
theorem identifiers_collide : collidingSession.table.Accepted ∧
    ∃ j, collidingSession.Reached j ∧ ¬(j.identifiers.map Identifier.text).Nodup := by
  have haccepted : collidingSession.table.Accepted :=
    .inr ⟨.obj [("a", .obj [("arg", .arr [.str "^_s"])]),
      ("b", .obj [("arg", .arr [.str "^_s1"])])], rfl⟩
  have hsteps : ∀ (names : List String) (j : Journal), collidingSession.Reached j →
      collidingSession.Reached
        (names.foldl (fun j name => (collidingSession.construct name []).journal j) j) := by
    intro names
    induction names with
    | nil => exact fun j hj => hj
    | cons name names ih => exact fun j hj => ih _ (hj.construct name [])
  refine ⟨haccepted, _, hsteps ("b" :: List.replicate 10 "a") .fresh .fresh, ?_⟩
  have htexts : (((("b" :: List.replicate 10 "a").foldl
      (fun j name => (collidingSession.construct name []).journal j) .fresh).identifiers).map
        Identifier.text) = ["s11", "s10", "s9", "s8", "s7", "s6", "s5", "s4", "s3", "s2",
          "s11"] := by
    decide +kernel
  rw [htexts]
  decide

end Session

end BuilderApi
