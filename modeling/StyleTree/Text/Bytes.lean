/-
Places in a text by the number of bytes in front of them. In UTF-8 a character
takes up to four bytes, so an offset may lead into the middle of one, and a
text cannot be cut there, no more than behind its end: whoever asks for such a
cut is refused. What finds the offsets is a scan over the bytes. It does not
decode, because it looks for ASCII characters only and no byte of any other
character is one. It also takes a backslash in a literal for two bytes, even if
the second is the first of several.
-/
import StyleTree.Text.Nesting

namespace StyleTree

/-- Why there is nothing at an offset, or no such offset. -/
inductive OffsetError where
  /-- The offset is behind the end. -/
  | pastEnd
  /-- The offset is between the bytes of a character. -/
  | insideCharacter
  /-- The slice ends in front of its start. -/
  | reversed
  /-- The number would be less than zero. -/
  | negative
  deriving DecidableEq, Repr

/-- The difference of two numbers, which must not be negative. -/
def minus (a b : Nat) : Except OffsetError Nat :=
  if b ≤ a then .ok (a - b) else .error .negative

namespace Text

-- ========================================================= sizes

@[simp] theorem byteSize_nil : byteSize [] = 0 := rfl

@[simp] theorem byteSize_cons (c : Char) (rest : Text) :
    byteSize (c :: rest) = c.utf8Size + byteSize rest := rfl

/-- Sizes add up. -/
@[simp] theorem byteSize_append (a b : Text) :
    byteSize (a ++ b) = byteSize a + byteSize b := by
  induction a with
  | nil => simp
  | cons c rest ih =>
    simp only [List.cons_append, byteSize_cons, ih, Nat.add_assoc]

/-- Every character takes up a byte at least. -/
theorem byteSize_eq_zero_iff {text : Text} :
    byteSize text = 0 ↔ text = [] := by
  cases text with
  | nil => simp
  | cons c rest =>
    have hpos := c.utf8Size_pos
    simp only [byteSize_cons, reduceCtorEq, iff_false]
    omega

/-- Trimming takes bytes away. -/
theorem byteSize_trimStart_le (text : Text) :
    byteSize (trimStart text) ≤ byteSize text := by
  induction text with
  | nil => exact Nat.le_refl _
  | cons c rest ih =>
    rw [trimStart_cons]
    split
    · rw [byteSize_cons]; omega
    · exact Nat.le_refl _

-- ======================================================== slices

/-- The text in UTF-8. -/
def bytes (text : Text) : List UInt8 := text.flatMap String.utf8EncodeChar

/-- What stands in front of an offset, and what stands behind it. -/
def cutAt : Text → Nat → Except OffsetError (Text × Text)
  | text, 0 => .ok ([], text)
  | [], _ + 1 => .error .pastEnd
  | c :: rest, offset + 1 =>
    if offset + 1 < c.utf8Size then .error .insideCharacter
    else (cutAt rest (offset + 1 - c.utf8Size)).map fun (before, after) =>
      (c :: before, after)

/-- What stands between two offsets. -/
def slice (text : Text) (start stop : Nat) : Except OffsetError Text :=
  if stop < start then .error .reversed
  else match text.cutAt start with
    | .error refusal => .error refusal
    | .ok (_, rest) => (cutAt rest (stop - start)).map Prod.fst

/-- The byte behind an offset. -/
def byteAt (text : Text) (offset : Nat) : Except OffsetError UInt8 :=
  match text.bytes[offset]? with
  | some byte => .ok byte
  | none => .error .pastEnd

/-- A text can be cut where a part of it ends. -/
theorem cutAt_append (a b : Text) :
    (a ++ b).cutAt a.byteSize = .ok (a, b) := by
  induction a with
  | nil => cases b <;> rfl
  | cons c rest ih =>
    obtain ⟨size, hsize⟩ :=
      Nat.exists_eq_add_one.2 (Nat.add_pos_left c.utf8Size_pos (byteSize rest))
    have hle : c.utf8Size ≤ size + 1 := hsize ▸ Nat.le_add_right ..
    have hrest : size + 1 - c.utf8Size = byteSize rest :=
      hsize ▸ Nat.add_sub_cancel_left ..
    rw [byteSize_cons, hsize, List.cons_append, cutAt,
      if_neg (Nat.not_lt.2 hle), hrest, ih]
    rfl

/-- A text can be cut nowhere else. -/
theorem eq_append_of_cutAt {text before after : Text} {offset : Nat}
    (h : text.cutAt offset = .ok (before, after)) :
    text = before ++ after ∧ before.byteSize = offset := by
  induction text generalizing offset before with
  | nil => cases offset <;> cases h; exact ⟨rfl, rfl⟩
  | cons c rest ih =>
    cases offset with
    | zero => cases h; exact ⟨rfl, rfl⟩
    | succ offset =>
      rw [cutAt] at h
      split at h
      · cases h
      · next hle =>
        cases hrest : cutAt rest (offset + 1 - c.utf8Size) with
        | error refusal => rw [hrest] at h; cases h
        | ok parts =>
          rw [hrest] at h
          cases h
          obtain ⟨heq, hsize⟩ := ih hrest
          refine ⟨by rw [List.cons_append, ← heq], ?_⟩
          rw [byteSize_cons, hsize]
          omega

/-- A slice is a part of the text, and its offsets are those of its two
ends. -/
theorem slice_eq_ok_iff {text between : Text} {start stop : Nat} :
    text.slice start stop = .ok between ↔ ∃ before after,
      text = before ++ (between ++ after) ∧ before.byteSize = start
        ∧ start + between.byteSize = stop := by
  constructor
  · intro h
    unfold slice at h
    split at h
    · cases h
    · split at h
      · cases h
      · next before rest hstart =>
        cases hstop : cutAt rest (stop - start) with
        | error refusal => rw [hstop] at h; cases h
        | ok parts =>
          rw [hstop] at h
          cases h
          obtain ⟨rfl, hbefore⟩ := eq_append_of_cutAt hstart
          obtain ⟨rfl, hbetween⟩ := eq_append_of_cutAt hstop
          exact ⟨before, parts.2, rfl, hbefore, by omega⟩
  · rintro ⟨before, after, rfl, rfl, rfl⟩
    unfold slice
    rw [if_neg (by omega), cutAt_append]
    show (cutAt (between ++ after) _).map Prod.fst = _
    rw [Nat.add_sub_cancel_left, cutAt_append]
    rfl

/-- What a slice leaves out makes up for its size. -/
theorem byteSize_of_slice {text between : Text} {start stop : Nat}
    (h : text.slice start stop = .ok between) :
    start + between.byteSize = stop ∧ stop ≤ text.byteSize := by
  obtain ⟨before, after, rfl, rfl, hstop⟩ := slice_eq_ok_iff.1 h
  simp only [byteSize_append]
  omega

-- ================================================ scans over bytes

/-- What a byte outside of literals means for a scan. -/
inductive ByteMove (α : Type) where
  /-- The scan goes on at this depth. -/
  | go (depth : Nat)
  /-- The scan ends with this result. -/
  | stop (found : α)
  deriving DecidableEq, Repr

/-- Goes through bytes and passes literals by, each of which is known by the
byte that opened it. What ends the scan comes with its offset. -/
def scanBytes {α : Type} (move : Nat → UInt8 → ByteMove α) :
    Option UInt8 → Nat → Nat → List UInt8 → Option (α × Nat)
  | _, _, _, [] => none
  | some quote, depth, offset, byte :: rest =>
    if byte = '\\'.toUInt8 then
      match rest with
      | [] => none
      | _ :: rest => scanBytes move (some quote) depth (offset + 2) rest
    else scanBytes move (if byte = quote then none else some quote) depth
      (offset + 1) rest
  | none, depth, offset, byte :: rest =>
    if isQuote (Char.ofUInt8 byte) then
      scanBytes move (some byte) depth (offset + 1) rest
    else match move depth byte with
      | .go depth => scanBytes move none depth (offset + 1) rest
      | .stop found => some (found, offset)

/-- Brackets change the depth, and at depth zero a target ends the scan. -/
def topLevelMove (targets : List UInt8) (depth : Nat) (byte : UInt8) :
    ByteMove Unit :=
  let c := Char.ofUInt8 byte
  if Nesting.isOpening c || Nesting.isClosing c then
    .go (Nesting.bracketDepth depth c)
  else if depth = 0 ∧ byte ∈ targets then .stop ()
  else .go depth

/-- The offset of the first target outside of literals and of brackets. -/
def findTopLevel (targets : List UInt8) (text : Text) : Option Nat :=
  (scanBytes (topLevelMove targets) none 0 0 text.bytes).map Prod.snd

end Text

end StyleTree
