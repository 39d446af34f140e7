import BuilderApi.Proofs.Reference.Sections
import BuilderApi.Proofs.Reference.Written
import BuilderApi.Proofs.Table.Accepted
import BuilderApi.Script.Module

/-!
# What the index module exports

An export names what is exported, the module that it comes from and, if it is renamed, its name
there. The index module is taken apart like a page of the reference: names and sources are copied
from the table, and the rest is its own text. What is read off this text are the exports of the
entries that are not private, in table order (`BuilderApi.Script.exports_writtenIndex`); the text is
that of the index module as soon as re-exports are told by their names
(`BuilderApi.Script.text_writtenIndex`).
-/

namespace BuilderApi

open Reference (Piece Written)
open Reference.Written

/-- An export of the index module. -/
structure Export where
  /-- The name in the module that it comes from, if it is exported under another one. -/
  base : Option String
  /-- The exported name. -/
  name : String
  /-- The module that it comes from. -/
  source : String
deriving DecidableEq, Inhabited

/-- The export of an entry: a builder comes from its own module, a re-export from the module that it
declares. -/
def Entry.exported (name : String) : Entry → Export
  | .method _ => ⟨none, name, name⟩
  | .external spec => ⟨spec.name, publicName name, spec.src⟩

/-! ### Exports in pieces -/

namespace Export

/-- What opens an export. -/
def mark : String := "export \x7b"

/-- What stands in front of the new name of an export that is renamed. -/
def renameMark : String := "as "

/-- What stands in front of the source. -/
def sourceMark : String := "\x7d from \"./"

/-- The names of an export. -/
def writtenNames (e : Export) : Written :=
  match e.base with
  | some base => [.copied base, .own " ", .own renameMark, .copied e.name]
  | none => [.copied e.name]

/-- The line of an export. -/
def written (e : Export) : Written :=
  .own mark :: (e.writtenNames ++ [.own sourceMark, .copied e.source, .own "\";\n"])

/-- Reads the names of an export. -/
def readNames (source : String) (front : List (Char × Bool)) : Export :=
  match sites renameMark front with
  | [] => ⟨none, copiedFront front, source⟩
  | renamed :: _ => ⟨some (copiedFront front), copiedFront renamed, source⟩

/-- Reads an export behind its mark. -/
def read (behind : List (Char × Bool)) : Export :=
  readNames (copiedFront ((sites sourceMark behind).headD [])) (upTo sourceMark behind)

theorem isMark_mark : IsMark mark := ⟨by decide, by decide⟩

theorem isMark_renameMark : IsMark renameMark := ⟨by decide, by decide⟩

theorem isMark_sourceMark : IsMark sourceMark := ⟨by decide, by decide⟩

theorem clear_writtenNames (e : Export) {m : String} (hspace : clear m.toList " ".toList = true)
    (hrename : clear m.toList renameMark.toList = true) : Clear m e.writtenNames := by
  unfold writtenNames
  split
  · exact Clear.copied _ (Clear.own (Clear.own (Clear.copied _ Clear.nil) hrename) hspace)
  · exact Clear.copied _ Clear.nil

theorem copiedFront_name (name : String) : copiedFront (chars [.copied name]) = name := by
  have hchars : chars [.copied name] = name.toList.map (·, false) := by simp [chars, Piece.chars]
  rw [copiedFront, hchars, ← List.append_nil (name.toList.map (·, false)),
    List.takeWhile_append_of_pos (by simp)]
  simp [ofChars, Function.comp_def]

theorem readNames_written (e : Export) : readNames e.source e.writtenNames.chars = e := by
  obtain ⟨base, name, source⟩ := e
  cases base with
  | none =>
    have hnames : writtenNames ⟨none, name, source⟩ = [.copied name] := rfl
    have hclear : Clear renameMark [.copied name] := Clear.copied _ Clear.nil
    have hsites := hclear.sites_append isMark_renameMark.ne_nil []
    rw [List.append_nil] at hsites
    rw [hnames, readNames, hsites]
    exact congrArg (Export.mk none · source) (copiedFront_name name)
  | some base =>
    have hnames : writtenNames ⟨some base, name, source⟩ =
        [.copied base, .own " "] ++ .own renameMark :: [.copied name] := rfl
    have hclear : Clear renameMark [.copied base, .own " "] := Clear.copied _ (Clear.own Clear.nil)
    rw [hnames, readNames, hclear.sites_append isMark_renameMark.ne_nil,
      isMark_renameMark.sites_cons]
    dsimp only
    rw [copiedFront_name]
    exact congrArg (Export.mk · name source)
      (congrArg some (copiedFront_copied base _ (by decide) _))

/-- An export is read as it was written, whatever follows it. -/
theorem read_written (e : Export) (rest : Written) :
    read (chars ((e.writtenNames ++ [.own sourceMark, .copied e.source, .own "\";\n"]) ++ rest)) =
      e := by
  have hclear : Clear sourceMark e.writtenNames := e.clear_writtenNames (by decide) (by decide)
  have hsplit : (e.writtenNames ++ [.own sourceMark, .copied e.source, .own "\";\n"]) ++ rest =
      e.writtenNames ++ .own sourceMark :: .copied e.source :: .own "\";\n" :: rest := by
    simp
  rw [hsplit, read, hclear.sites_append isMark_sourceMark.ne_nil, isMark_sourceMark.sites_cons,
    List.headD_cons,
    copiedFront_copied _ _ (by decide), chars, List.flatMap_append, ← chars, ← chars,
    hclear.upTo_append isMark_sourceMark.ne_nil, isMark_sourceMark.upTo_cons, List.append_nil]
  exact readNames_written e

theorem shows_written (e : Export) : Shows mark read e.written [e] := by
  have hsource : Clear mark [.own sourceMark, .copied e.source, .own "\";\n"] :=
    Clear.own (Clear.copied _ (Clear.own Clear.nil))
  have hnames : Clear mark e.writtenNames := e.clear_writtenNames (by decide) (by decide)
  exact isMark_mark.shows (hnames.append hsource) (read_written e)

end Export

namespace Script

/-- The index module in pieces: the exports of the entries that are not private. -/
def writtenIndex (table : Table) : Written :=
  table.exposed.flatMap fun field => (field.2.exported field.1).written

/-- The exports that are read off a module in pieces. -/
def exports (pieces : Written) : List Export := (sites Export.mark pieces.chars).map Export.read

/-- **The index module exports the entries that are not private**, each once and in table order. -/
theorem exports_writtenIndex (table : Table) :
    exports (writtenIndex table) = table.exposed.map fun field => field.2.exported field.1 := by
  have hshows : Shows Export.mark Export.read (writtenIndex table)
      (table.exposed.flatMap fun field => [field.2.exported field.1]) := by
    apply Shows.flatMap
    exact fun field => Export.shows_written _
  rw [exports, hshows.eq, ← List.map_eq_flatMap]

/-- The line that the index module has for an entry. -/
theorem exportLine_eq {name : String} {entry : Entry}
    (hentry : Visibility.of name = .isExternal ↔ entry.method? = none) :
    exportLine name entry = if Visibility.of name = .isPrivate then none
      else some (text (entry.exported name).written) := by
  unfold exportLine
  cases hname : Visibility.of name with
  | isPrivate => rfl
  | isPublic =>
    cases entry with
    | external spec => simp [hname, Entry.method?] at hentry
    | method spec =>
      simp [Entry.exported, Export.written, Export.writtenNames, Export.mark, Export.sourceMark,
        String.append_assoc, -String.reduceAppend]
  | isExternal =>
    cases entry with
    | method spec => simp [hname, Entry.method?] at hentry
    | external spec =>
      have hrename : " " ++ Export.renameMark = " as " := rfl
      cases hbase : spec.name with
      | none =>
        simp [Entry.exported, Export.written, Export.writtenNames, Export.mark,
          Export.sourceMark, hbase, String.append_assoc, -String.reduceAppend]
      | some base =>
        simp [Entry.exported, Export.written, Export.writtenNames, Export.mark, Export.sourceMark,
          hbase, ← hrename, String.append_assoc, -String.reduceAppend]

/-- **The pieces of the index module are the index module.** -/
theorem text_writtenIndex {table : Table} (h : table.Accepted) :
    text (writtenIndex table) = indexModule table := by
  rw [writtenIndex, text_flatMap, indexModule, Table.exposed, ← List.filterMap_eq_filter,
    List.map_filterMap]
  refine congrArg String.join (List.filterMap_congr fun field hfield => ?_)
  change _ = exportLine field.1 field.2
  rw [exportLine_eq (h.isExternal_iff hfield)]
  by_cases hname : Visibility.of field.1 = .isPrivate <;> simp [hname]

end Script

end BuilderApi
