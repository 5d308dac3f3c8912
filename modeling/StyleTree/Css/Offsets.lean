/-
Reading and removing duplicates by offsets into the text. One turn looks for
the mark that ends what stands at an offset, cuts out the pieces in front of
it, and says at which offset the next turn starts. A cut can be refused, and so
can a subtraction, so there is a result only if no turn asks for a place that
is not there. The body of an at-rule is cut out and read as a text of its own.
-/
import StyleTree.Text.Bytes
import StyleTree.Css.Dedupe

namespace StyleTree.Css.Offsets

-- ==================================================== finding blocks

/-- Braces change the depth, and the scan ends with the one that brings it back
to zero. -/
def braceMove (depth : Nat) (byte : UInt8) :
    Text.ByteMove (Except OffsetError Unit) :=
  if byte = '{'.toUInt8 then .go (depth + 1)
  else if byte = '}'.toUInt8 then
    match minus depth 1 with
    | .error refusal => .stop (.error refusal)
    | .ok 0 => .stop (.ok ())
    | .ok outer => .go outer
  else .go depth

/-- The offset of the brace that closes the one at `opening`, or of the end if
there is none. -/
def matchingBrace (text : Text) (opening : Nat) : Except OffsetError Nat :=
  match Text.scanBytes braceMove none 0 opening (text.bytes.drop opening) with
  | none => .ok text.byteSize
  | some (.error refusal, _) => .error refusal
  | some (.ok (), closing) => .ok closing

-- ====================================================== declarations

/-- The declarations in the body of a rule, trimmed and without blank ones. -/
def declarations (body : Text) : Except OffsetError (List Text) :=
  let stop := (body.findTopLevel [';'.toUInt8]).getD body.byteSize
  match body.slice 0 stop with
  | .error refusal => .error refusal
  | .ok declaration =>
    let first := [declaration.trim].filter (!·.isEmpty)
    if _hend : body.byteSize ≤ stop then .ok first
    else match _hrest : body.slice (stop + 1) body.byteSize with
    | .error refusal => .error refusal
    | .ok rest => (declarations rest).map (first ++ ·)
termination_by body.byteSize
decreasing_by
  have hsize := Text.byteSize_of_slice _hrest
  omega

-- ========================================================= one turn

/-- What one turn finds, and the offset at which the next one starts. -/
inductive Turn where
  /-- There is nothing but blanks left. -/
  | finished
  /-- A statement that goes on to the end. -/
  | last (text : Text)
  /-- A closing brace without a block. -/
  | stray (next : Nat)
  /-- A statement with its semicolon. -/
  | statement (text : Text) (next : Nat)
  /-- A block, by what precedes it and what is in it. -/
  | block (heading body : Text) (next : Nat)
  deriving DecidableEq, Repr

/-- The text behind an offset without the blanks that it starts with, and the
offset behind them. -/
def unread (text : Text) (offset : Nat) : Except OffsetError (Text × Nat) := do
  let rest ← text.slice offset text.byteSize
  let blanks ← minus rest.byteSize rest.trimStart.byteSize
  return (rest.trimStart, offset + blanks)

/-- The statement that ends with the semicolon at `stop`, in a text that starts
at `start`. -/
def statementAt (text : Text) (start stop : Nat) :
    Except OffsetError Turn := do
  let statement ← text.slice 0 (stop + 1)
  return .statement statement.trim (start + (stop + 1))

/-- The block that starts with the brace at `opening`, in a text that starts at
`start`. -/
def blockAt (text : Text) (start opening : Nat) : Except OffsetError Turn := do
  let heading ← text.slice 0 opening
  let closing ← matchingBrace text opening
  let body ← text.slice (opening + 1) closing
  return .block heading.trim body (start + min (closing + 1) text.byteSize)

/-- What is found in a text without blanks in front, if it starts at
`start`. -/
def find (text : Text) (start : Nat) : Except OffsetError Turn :=
  match text with
  | [] => .ok .finished
  | '}' :: _ => .ok (.stray (start + 1))
  | _ => match text.findTopLevel ['{'.toUInt8, ';'.toUInt8] with
    | none => .ok (.last text.trim)
    | some stop => do
      let ending ← text.byteAt stop
      if ending = ';'.toUInt8 then statementAt text start stop
      else blockAt text start stop

/-- What is found at an offset. -/
def turn (text : Text) (offset : Nat) : Except OffsetError Turn :=
  if text.byteSize ≤ offset then .ok .finished
  else do
    let (rest, start) ← unread text offset
    find rest start

-- =========================================================== reading

/-- The next turn starts further on, and what is left to be read is less, in
the text as in the body of a block. -/
def Turn.Advances (text : Text) (offset : Nat) : Turn → Prop
  | .finished => True
  | .last _ => True
  | .stray next => offset < next ∧ offset < text.byteSize
  | .statement _ next => offset < next ∧ offset < text.byteSize
  | .block _ body next =>
    offset < next ∧ body.byteSize < text.byteSize - offset

section Advances

variable {text rest : Text} {offset start stop : Nat} {found : Turn}

/-- What is still unread starts no earlier than at the offset, and is no longer
than what the offset leaves. -/
theorem byteSize_unread (h : unread text offset = .ok (rest, start)) :
    offset ≤ start ∧ rest.byteSize ≤ text.byteSize - offset := by
  unfold unread at h
  cases hslice : text.slice offset text.byteSize with
  | error refusal => rw [hslice] at h; cases h
  | ok piece =>
    have hsize := Text.byteSize_of_slice hslice
    have htrim := Text.byteSize_trimStart_le piece
    rw [hslice] at h
    simp only [bind, Except.bind, minus, if_pos htrim, pure, Except.pure] at h
    cases h
    exact ⟨Nat.le_add_right .., by omega⟩

/-- A block that is found ends behind the offset at which it was looked for,
and its body is shorter than what was unread. -/
theorem advances_blockAt (h : blockAt rest start stop = .ok found)
    (hstart : offset ≤ start)
    (hrest : rest.byteSize ≤ text.byteSize - offset) :
    found.Advances text offset := by
  unfold blockAt at h
  cases hheading : rest.slice 0 stop with
  | error refusal => rw [hheading] at h; cases h
  | ok heading =>
    rw [hheading] at h
    cases hclosing : matchingBrace rest stop with
    | error refusal => simp only [bind, Except.bind, hclosing] at h; cases h
    | ok closing =>
      cases hbody : rest.slice (stop + 1) closing with
      | error refusal =>
        simp only [bind, Except.bind, hclosing, hbody] at h; cases h
      | ok body =>
        have hsize := Text.byteSize_of_slice hbody
        simp only [bind, Except.bind, hclosing, hbody] at h
        cases h
        exact ⟨by omega, by omega⟩

/-- Whatever is found, reading goes on behind it. -/
theorem advances_find (h : find rest start = .ok found)
    (hstart : offset ≤ start) (hoffset : offset < text.byteSize)
    (hrest : rest.byteSize ≤ text.byteSize - offset) :
    found.Advances text offset := by
  unfold find at h
  split at h
  · cases h
    trivial
  · cases h
    exact ⟨by omega, hoffset⟩
  · split at h
    · cases h
      trivial
    · next stop _ =>
      cases hending : rest.byteAt stop with
      | error refusal => rw [hending] at h; cases h
      | ok ending =>
        rw [hending] at h
        simp only [bind, Except.bind] at h
        split at h
        · unfold statementAt at h
          cases hstatement : rest.slice 0 (stop + 1) with
          | error refusal => rw [hstatement] at h; cases h
          | ok statement =>
            rw [hstatement] at h
            cases h
            exact ⟨by omega, hoffset⟩
        · exact advances_blockAt h hstart hrest

/-- Every turn of the reader advances, so reading ends. -/
theorem advances_turn (h : turn text offset = .ok found) :
    found.Advances text offset := by
  unfold turn at h
  split at h
  · cases h
    trivial
  · next hoffset =>
    cases hunread : unread text offset with
    | error refusal => rw [hunread] at h; cases h
    | ok parts =>
      rw [hunread] at h
      obtain ⟨hstart, hrest⟩ := byteSize_unread hunread
      exact advances_find h hstart (Nat.not_le.1 hoffset) hrest

end Advances

/-- The nodes of a text from an offset on, in order. -/
def nodes (text : Text) (offset : Nat) : Except OffsetError (List Node) :=
  match _h : turn text offset with
  | .error refusal => .error refusal
  | .ok .finished => .ok []
  | .ok (.last statement) => .ok [.statement statement]
  | .ok (.stray next) => nodes text next
  | .ok (.statement statement next) =>
    (nodes text next).map (.statement statement :: ·)
  | .ok (.block heading body next) => do
    let holdsBlocks := (body.findTopLevel ['{'.toUInt8]).isSome
    let node ←
      if isAtRule heading && holdsBlocks then
        (nodes body 0).map (.block heading)
      else if isAtRule heading || holdsBlocks then
        .ok (.sealed (heading ++ '{' :: body.trim ++ ['}']))
      else (declarations body).map (.rule heading)
    let others ← nodes text next
    return node :: others
termination_by text.byteSize - offset
decreasing_by
  all_goals
    have hadvances := advances_turn _h
    unfold Turn.Advances at hadvances
    omega

/-- The text without what is overridden or repeated. -/
def dedupe (css : Text) : Except OffsetError Text :=
  (nodes css 0).map fun nodes => renderAll (Node.dedupe nodes)

end StyleTree.Css.Offsets
