import Lares.Framework.Lines
import Mathlib

/-! # Lines of words

    Configuration files whose readers split them into lines and lines into
    words. A file that is written from plain words, none empty and none with a
    blank or a break in it, is read back as these words.
-/

namespace WordLines

abbrev Text := List Char

/-! ## Section 1: Reading and writing -/

/-- The words of a line, between its blanks. -/
def wordsOf (line : Text) : List Text := (line.splitOn ' ').filter fun word => !word.isEmpty

def readWords (text : Text) : List (List Text) := (text.splitOn '\n').map wordsOf

/-- A line to write: its indentation and its words. -/
structure Line where
  indent : Nat
  words : List Text

def Line.text (l : Line) : Text := List.replicate l.indent ' ' ++ [' '].intercalate l.words

/-- Every line ends in a break. -/
def document (lines : List Line) : Text := ['\n'].intercalate (lines.map Line.text) ++ ['\n']

/-- A line without variable parts. -/
def fixed (indent : Nat) (line : String) : Line := ⟨indent, wordsOf line.toList⟩

/-! ## Section 2: Plain words -/

/-- A word that is read back as it is. -/
def Plain (word : Text) : Prop := word ≠ [] ∧ ' ' ∉ word ∧ '\n' ∉ word

def Line.Plain (l : Line) : Prop := ∀ word ∈ l.words, WordLines.Plain word

theorem plain_append {a b : Text} (ha : Plain a) (hb : ' ' ∉ b ∧ '\n' ∉ b) : Plain (a ++ b) := by
  obtain ⟨hne, hblank, hbreak⟩ := ha
  refine ⟨by simp [hne], ?_, ?_⟩
  · simp [hblank, hb.1]
  · simp [hbreak, hb.2]

theorem wordsOf_blank (line : Text) : wordsOf (' ' :: line) = wordsOf line := by
  unfold wordsOf
  rw [Lines.splitOn_break]
  rfl

theorem wordsOf_indent (indent : Nat) (line : Text) :
    wordsOf (List.replicate indent ' ' ++ line) = wordsOf line := by
  induction indent with
  | zero => rfl
  | succ indent ih => rw [List.replicate_succ, List.cons_append, wordsOf_blank, ih]

theorem wordsOf_text {l : Line} (h : l.Plain) : wordsOf l.text = l.words := by
  rw [Line.text, wordsOf_indent]
  by_cases hnil : l.words = []
  · rw [hnil]
    rfl
  · rw [wordsOf, List.splitOn_intercalate ' ' (fun word hword => (h word hword).2.1) hnil]
    refine List.filter_eq_self.2 fun word hword => ?_
    simpa using (h word hword).1

theorem break_not_mem_text {l : Line} (h : l.Plain) : '\n' ∉ l.text := by
  intro hmem
  rcases List.mem_append.1 hmem with hindent | hwords
  · have := List.eq_of_mem_replicate hindent
    simp at this
  · rcases Lines.mem_of_mem_intercalate hwords with hblank | ⟨word, hword, hbreak⟩
    · simp at hblank
    · exact (h word hword).2.2 hbreak

/-- A document is read back line by line; the last break leaves an empty line. -/
theorem readWords_document {lines : List Line} (hne : lines ≠ []) (h : ∀ l ∈ lines, l.Plain) :
    readWords (document lines) = lines.map Line.words ++ [[]] := by
  have hbreaks : ∀ line ∈ lines.map Line.text, '\n' ∉ line := by
    intro line hline
    obtain ⟨l, hl, rfl⟩ := List.mem_map.1 hline
    exact break_not_mem_text (h l hl)
  unfold readWords document
  rw [Lines.splitOn_append_break, List.splitOn_intercalate '\n' hbreaks (by simpa using hne),
    List.map_append, List.map_map]
  refine congrArg (· ++ _) (List.map_congr_left fun l hl => ?_)
  exact wordsOf_text (h l hl)

end WordLines
