/-
White space and what is trimmed. A character is blank when it has the Unicode
property `White_Space`; that is a wider class than the six ASCII blanks and a
narrower one than "invisible" (the zero width space and the byte order mark are
not in it). `trim` removes blanks at both ends, `words` are the maximal runs of
other characters, and `collapseSpaces` is the normal form in which one space
stands between words.
-/
import StyleTree.Text.Basic

namespace StyleTree

/-- Holds of the 25 code points with the property `White_Space`. -/
def isBlank (c : Char) : Bool :=
  let n := c.toNat
  (9 ≤ n && n ≤ 13) || n == 0x20 || n == 0x85 || n == 0xA0 || n == 0x1680
    || (0x2000 ≤ n && n ≤ 0x200A)
    || n == 0x2028 || n == 0x2029 || n == 0x202F || n == 0x205F || n == 0x3000

namespace Text

-- ==================================================== trimming

/-- The text from its first character that is not blank. -/
def trimStart (text : Text) : Text := text.dropWhile isBlank

/-- The text up to its last character that is not blank. -/
def trimEnd : Text → Text
  | [] => []
  | c :: rest =>
    match trimEnd rest with
    | [] => if isBlank c then [] else [c]
    | kept => c :: kept

/-- The text without the blanks at its two ends. -/
def trim (text : Text) : Text := (trimStart text).trimEnd

@[simp] theorem trimStart_nil : trimStart [] = [] := rfl

@[simp] theorem trimEnd_nil : trimEnd [] = [] := rfl

@[simp] theorem trim_nil : trim [] = [] := rfl

/-- Leading blanks go one by one. -/
theorem trimStart_cons (c : Char) (rest : Text) :
    trimStart (c :: rest) = if isBlank c then trimStart rest
      else c :: rest := by
  cases h : isBlank c <;> simp [trimStart, h]

/-- Trimming leaves nothing exactly when there was nothing but blanks. -/
theorem trimEnd_eq_nil_iff {text : Text} :
    trimEnd text = [] ↔ ∀ c ∈ text, isBlank c = true := by
  induction text with
  | nil => simp
  | cons c rest ih =>
    rw [trimEnd, List.forall_mem_cons, ← ih]
    cases trimEnd rest <;> cases isBlank c <;> simp

/-- Trimming shortens; the scanners that trim between steps end for this
reason. -/
theorem length_trimStart_le (text : Text) :
    (trimStart text).length ≤ text.length := by
  induction text with
  | nil => simp
  | cons c rest ih =>
    rw [trimStart_cons]
    split
    · simp only [List.length_cons]; omega
    · exact Nat.le_refl _

-- ======================================================= words

/-- The maximal runs of characters that are not blank, in order. -/
def words (text : Text) : List Text :=
  (text.splitOnP isBlank).filter (!·.isEmpty)

/-- The words of a text with one space between neighbours and no blank at
either end. -/
def collapseSpaces (text : Text) : Text := [' '].intercalate (words text)

end Text

end StyleTree
