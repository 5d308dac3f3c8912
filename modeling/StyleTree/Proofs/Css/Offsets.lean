/-
No cut is refused. Reading at offsets (`Css/Offsets.lean`) is what reading
from text to text is (`Css/Parse.lean`), and its result is there for every
text, so each offset is one between two characters, no slice ends in front of
its start, and no depth falls below zero.

Every offset is the size of a text in front of it, and the induction carries
that text along (`nodes_append`): a text that has been passed, and then the
one that is still to be read. A turn takes from the latter what one case of
`Node.parse` takes from it (`turn_of_stray`, `turn_of_statement`,
`turn_of_block`). The end of a block is found by counting braces from the one
that opens it, hence at one more than `splitBlock` counts
(`scanFrom_braceMove`).
-/
import StyleTree.Css.Offsets
import StyleTree.Proofs.Text.Bytes
import StyleTree.Proofs.Text.Parts
import StyleTree.Proofs.Text.Trim
import StyleTree.Proofs.Css.Reread

namespace StyleTree.Css.Offsets

open Text (IsAscii byteSize bytes scanFrom charMove PassesHigh)

variable {text body rest pre : Text}

-- ==================================================== finding blocks

/-- No byte of a longer character is a brace. -/
theorem passesHigh_braceMove : PassesHigh braceMove := by
  intro depth byte hbyte
  have hne (c : Char) (hc : IsAscii c) : byte ≠ c.toUInt8 := by
    rintro rfl
    rw [Text.toNat_toUInt8 hc] at hbyte
    exact Nat.not_le.2 hc hbyte
  unfold braceMove
  rw [if_neg (hne '{' (by decide)), if_neg (hne '}' (by decide))]

/-- What a character means to a scan that is inside of a block. -/
theorem charMove_braceMove (depth : Nat) (c : Char) :
    charMove braceMove (depth + 1) c
      = if depth = 0 ∧ c = '}' then .stop (.ok ())
        else .go (braceDepth .outside depth c + 1) := by
  unfold charMove braceDepth
  rw [if_pos rfl]
  by_cases hc : IsAscii c
  · have hopen : c.toUInt8 = '{'.toUInt8 ↔ c = '{' :=
      Text.toUInt8_inj hc (by decide)
    have hclose : c.toUInt8 = '}'.toUInt8 ↔ c = '}' :=
      Text.toUInt8_inj hc (by decide)
    unfold braceMove
    rw [if_pos hc]
    -- the byte of an ASCII character is a brace exactly if the character is
    by_cases hbrace : c = '{'
    · have hend : c ≠ '}' := by
        rw [hbrace]
        decide
      rw [if_pos (hopen.2 hbrace), if_pos hbrace, if_neg fun h => hend h.2]
    · rw [if_neg fun h => hbrace (hopen.1 h), if_neg hbrace]
      by_cases hend : c = '}'
      · rw [if_pos (hclose.2 hend), if_pos hend]
        cases depth with
        | zero => rw [if_pos ⟨rfl, hend⟩]; rfl
        | succ depth => rw [if_neg (by simp)]; rfl
      · rw [if_neg fun h => hend (hclose.1 h), if_neg hend,
          if_neg fun h => hend h.2]
  · have hne (d : Char) (hd : IsAscii d) : c ≠ d := fun h => hc (h ▸ hd)
    rw [if_neg hc, if_neg (hne '{' (by decide)),
      if_neg (hne '}' (by decide)), if_neg fun h => hne '}' (by decide) h.2]

/-- A quote is no brace. -/
theorem braceDepth_of_isQuote {c : Char} (h : isQuote c = true) (depth : Nat) :
    braceDepth .outside depth c = depth := by
  simp only [isQuote, Bool.or_eq_true, beq_iff_eq] at h
  rcases h with rfl | rfl <;> rfl

/-- A character that ends no block is passed by. -/
theorem scanFrom_cons_of_not_ends {quoting : Quoting} {depth : Nat} {c : Char}
    (hopened : quoting.Opened) (h : ¬ EndsBlock quoting depth c) (offset : Nat)
    (rest : Text) :
    scanFrom braceMove quoting (depth + 1) offset (bytes (c :: rest))
      = scanFrom braceMove (quoting.step c) (braceDepth quoting depth c + 1)
        (offset + c.utf8Size) (bytes rest) := by
  cases quoting with
  | inside quote escaped =>
    exact Text.scanFrom_inside passesHigh_braceMove
      (hopened quote escaped rfl) escaped c rest
  | outside =>
    rw [Text.scanFrom_outside passesHigh_braceMove, charMove_braceMove,
      if_neg fun hend => h ⟨rfl, hend⟩, Quoting.step_outside]
    by_cases hquote : isQuote c = true
    · rw [if_pos hquote, if_pos hquote, braceDepth_of_isQuote hquote]
    · rw [if_neg hquote, if_neg hquote]

/-- The scan ends with the brace that ends the block, if there is one. -/
theorem scanFrom_braceMove {quoting : Quoting} (hopened : quoting.Opened)
    (depth offset : Nat) (text : Text) :
    (splitBlock quoting depth text = (text, [])
        ∧ scanFrom braceMove quoting (depth + 1) offset (bytes text) = none)
      ∨ ∃ body after, text = body ++ '}' :: after
        ∧ splitBlock quoting depth text = (body, after)
        ∧ scanFrom braceMove quoting (depth + 1) offset (bytes text)
          = some (.ok (), offset + byteSize body) := by
  induction text generalizing quoting depth offset with
  | nil =>
    exact .inl ⟨by cases quoting <;> rfl, Text.scanFrom_nil quoting⟩
  | cons c rest ih =>
    by_cases hends : EndsBlock quoting depth c
    · rw [splitBlock_cons_of_ends hends]
      obtain ⟨rfl, rfl, rfl⟩ := hends
      -- the brace that ends the block stands right here
      refine .inr ⟨[], rest, rfl, rfl, ?_⟩
      rw [Text.scanFrom_outside passesHigh_braceMove, charMove_braceMove]
      rfl
    · rw [splitBlock_cons_of_not_ends hends,
        scanFrom_cons_of_not_ends hopened hends]
      rcases ih (hopened.step c) (braceDepth quoting depth c)
          (offset + c.utf8Size) with
        ⟨hsplit, hscan⟩ | ⟨body, after, rfl, hsplit, hscan⟩
      · rw [hsplit, hscan]
        exact .inl ⟨rfl, rfl⟩
      · rw [hsplit, hscan]
        refine .inr ⟨c :: body, after, rfl, rfl, ?_⟩
        rw [Text.byteSize_cons, Nat.add_assoc]

/-- The brace of a block, or the end of the text, stands behind its body. -/
theorem matchingBrace_eq (before after : Text) :
    matchingBrace (before ++ '{' :: after) before.byteSize
      = .ok (before.byteSize + 1
        + byteSize (splitBlock .outside 0 after).1) := by
  have hdrop : (bytes (before ++ '{' :: after)).drop before.byteSize
      = '{'.toUInt8 :: bytes after := by
    rw [Text.bytes_append, ← Text.length_bytes, List.drop_left]
    rfl
  have hscan : Text.scanBytes braceMove none 0 before.byteSize
        ('{'.toUInt8 :: bytes after)
      = scanFrom braceMove .outside 1 (before.byteSize + 1) (bytes after) := by
    rw [Text.scanBytes]
    rfl
  unfold matchingBrace
  rw [hdrop, hscan]
  rcases scanFrom_braceMove Quoting.opened_outside 0 (before.byteSize + 1)
      after with
    ⟨hsplit, hfound⟩ | ⟨body, rest, -, hsplit, hfound⟩
  · rw [hsplit, hfound, Text.byteSize_append, Text.byteSize_cons,
      ← Nat.add_assoc]
    rfl
  · rw [hsplit, hfound]

/-- What is read on with stands behind the body and its brace, if it has
one. -/
theorem exists_splitBlock_eq (after : Text) :
    ∃ closing : Text,
      after = (splitBlock .outside 0 after).1
        ++ (closing ++ (splitBlock .outside 0 after).2)
      ∧ ∀ n, min (n + byteSize (splitBlock .outside 0 after).1 + 1)
          (n + byteSize after)
        = n + byteSize (splitBlock .outside 0 after).1 + byteSize closing := by
  rcases scanFrom_braceMove Quoting.opened_outside 0 0 after with
    ⟨hsplit, -⟩ | ⟨body, rest, heq, hsplit, -⟩
  · rw [hsplit]
    exact ⟨[], by simp, fun n => Nat.min_eq_right (Nat.le_succ _)⟩
  · rw [hsplit]
    refine ⟨['}'], heq, fun n => ?_⟩
    have hbrace : byteSize ['}'] = 1 := by decide
    have hsize : byteSize after = byteSize body + (1 + byteSize rest) := by
      rw [heq, Text.byteSize_append]
      rfl
    rw [hbrace, hsize, ← Nat.add_assoc n]
    exact Nat.min_eq_left (Nat.add_le_add_left (Nat.le_add_right ..) _)

-- ====================================================== declarations

/-- The offset of a separator is the size of what is in front of it. -/
theorem findTopLevel_singleton {separator : Char} (h : IsAscii separator)
    (text : Text) : text.findTopLevel [separator.toUInt8]
      = (text.breakTopLevel (· == separator)).map fun parts =>
          parts.1.byteSize :=
  Text.findTopLevel_eq [separator] (by simpa using h)
    (fun c => by simp [beq_eq_decide]) text

/-- The first separator that a search finds is where the first part ends. -/
theorem findTopLevel_eq_first {separator : Char} (h : IsAscii separator)
    (text : Text) : text.findTopLevel [separator.toUInt8]
      = match text.splitTopLevel separator with
        | first :: _ :: _ => some first.byteSize
        | _ => none := by
  rw [findTopLevel_singleton h, Text.splitTopLevel_eq_of_break]
  cases text.breakTopLevel (· == separator) with
  | none => rfl
  | some parts =>
    obtain ⟨next, others, heq⟩ := List.exists_cons_of_ne_nil
      (Text.splitFrom_ne_nil separator .top parts.2.2)
    show _ = match parts.1 :: Text.splitTopLevel separator parts.2.2 with
      | first :: _ :: _ => some first.byteSize
      | _ => none
    rw [show Text.splitTopLevel separator parts.2.2 = _ from heq]
    rfl

/-- The declarations of a body are its parts between semicolons, trimmed and
without blank ones. -/
theorem declarationTexts_eq (body : Text) :
    declarationTexts body
      = ((Text.splitTopLevel ';' body).map Text.trim).filter (!·.isEmpty) := by
  fun_induction declarationTexts body with
  | case1 body hbreak =>
    rw [Text.splitTopLevel_eq_of_break, hbreak]
    rfl
  | case2 body before c after hbreak ih =>
    rw [Text.splitTopLevel_eq_of_break, hbreak, ih, ← List.filter_append]
    rfl

/-- Cutting a body at offsets gives the declarations that cutting it by
characters gives. -/
theorem declarations_eq (body : Text) :
    declarations body = .ok (declarationTexts body) := by
  fun_induction declarationTexts body with
  | case1 body hbreak =>
    have hfind : body.findTopLevel [';'.toUInt8] = none := by
      rw [findTopLevel_singleton (by decide), hbreak]
      rfl
    -- without a semicolon the whole body is cut out
    have hslice : body.slice 0 body.byteSize = .ok body :=
      Text.slice_eq_ok_iff.2 ⟨[], [], by simp, rfl, by simp⟩
    rw [declarations, hfind, Option.getD_none, hslice]
    simp
  | case2 body before c after hbreak ih =>
    obtain ⟨rfl, hc⟩ := Text.eq_of_breakTopLevel hbreak
    obtain rfl : c = ';' := beq_iff_eq.1 hc
    have hfind : (before ++ ';' :: after).findTopLevel [';'.toUInt8]
        = some before.byteSize := by
      rw [findTopLevel_singleton (by decide), hbreak]
      rfl
    have hsize : (before ++ ';' :: after).byteSize
        = before.byteSize + (1 + byteSize after) := Text.byteSize_append ..
    have hslice : (before ++ ';' :: after).slice 0 before.byteSize
        = .ok before :=
      Text.slice_eq_ok_iff.2 ⟨[], ';' :: after, rfl, rfl, by simp⟩
    -- one byte further on, behind the semicolon
    have hrest : (before ++ ';' :: after).slice (before.byteSize + 1)
        (before ++ ';' :: after).byteSize = .ok after :=
      Text.slice_eq_ok_iff.2
        ⟨before ++ [';'], [], by simp, by simp; rfl, by omega⟩
    rw [declarations, hfind, Option.getD_some, hslice]
    dsimp only
    rw [dif_neg (by omega)]
    split
    · next heq => rw [hrest] at heq; cases heq
    · next heq =>
      rw [hrest] at heq
      cases heq
      rw [ih]
      rfl

-- ========================================================= one turn

/-- An offset can be taken back from a later one. -/
theorem minus_add_left (a b : Nat) : minus (a + b) b = .ok a := by
  unfold minus
  rw [if_pos (Nat.le_add_left ..), Nat.add_sub_cancel]

/-- A turn starts behind the blanks. -/
theorem turn_eq (pre rest : Text) :
    ∃ lead : Text, rest = lead ++ rest.trimStart
      ∧ turn (pre ++ rest) pre.byteSize
        = find rest.trimStart (pre ++ lead).byteSize := by
  obtain ⟨lead, -, heq⟩ := Text.exists_eq_append_trimStart rest
  refine ⟨lead, heq, ?_⟩
  have hsize : rest.byteSize = lead.byteSize + rest.trimStart.byteSize := by
    rw [← Text.byteSize_append, ← heq]
  have hslice : (pre ++ rest).slice pre.byteSize (pre ++ rest).byteSize
      = .ok rest :=
    Text.slice_eq_ok_iff.2 ⟨pre, [], by simp, rfl, by simp⟩
  unfold turn
  split
  · next hend =>
    rw [Text.byteSize_append] at hend
    have hnil : rest = [] := Text.byteSize_eq_zero_iff.1 (by omega)
    rw [hnil]
    rfl
  · unfold unread
    rw [hslice]
    show ((minus rest.byteSize rest.trimStart.byteSize >>= _) >>= _
      : Except _ _) = _
    rw [hsize, minus_add_left, Text.byteSize_append]
    rfl

/-- What starts with neither a blank nor a closing brace is read up to the
first mark. -/
theorem find_eq (hne : text ≠ []) (hstarts : Starts text) (start : Nat) :
    find text start = match text.breakTopLevel endsHeading with
      | none => .ok (.last text.trimEnd)
      | some (before, ending, _) =>
        if ending = ';' then statementAt text start before.byteSize
        else blockAt text start before.byteSize := by
  have htrim : text.trim = text.trimEnd := by
    unfold Text.trim
    rw [Text.trimStart_eq_self fun c hc => (hstarts c hc).1]
  have hfind : text.findTopLevel ['{'.toUInt8, ';'.toUInt8]
      = (text.breakTopLevel endsHeading).map fun parts => parts.1.byteSize :=
    Text.findTopLevel_eq ['{', ';']
      (List.forall_mem_cons.2
        ⟨by decide, List.forall_mem_singleton.2 (by decide)⟩)
      (fun c => by simp [endsHeading, beq_eq_decide]) text
  unfold find
  split
  · exact absurd rfl hne
  · exact absurd rfl (hstarts '}' rfl).2
  · rw [hfind, htrim]
    cases hbreak : text.breakTopLevel endsHeading with
    | none => rfl
    | some parts =>
      obtain ⟨before, ending, after⟩ := parts
      obtain ⟨heq, hending⟩ := Text.eq_of_breakTopLevel hbreak
      -- a mark is one byte, so it is read at its offset
      have hascii : IsAscii ending := by
        simp only [endsHeading, Bool.or_eq_true, beq_iff_eq] at hending
        rcases hending with rfl | rfl <;> decide
      have hbyte : text.byteAt before.byteSize = .ok ending.toUInt8 :=
        heq ▸ Text.byteAt_append_cons hascii before after
      have hsemicolon : ending.toUInt8 = ';'.toUInt8 ↔ ending = ';' :=
        Text.toUInt8_inj hascii (by decide)
      simp only [Option.map_some, hbyte, bind, Except.bind, hsemicolon]

/-- A statement is cut out behind its semicolon. -/
theorem statementAt_eq {before : Text} (hstarts : Starts (before ++ [';']))
    (after : Text) (start : Nat) :
    statementAt (before ++ ';' :: after) start before.byteSize
      = .ok
        (.statement (before ++ [';']) (start + (before.byteSize + 1))) := by
  have hsize : (before ++ [';']).byteSize = before.byteSize + 1 :=
    Text.byteSize_append ..
  have hslice : (before ++ ';' :: after).slice 0 (before.byteSize + 1)
      = .ok (before ++ [';']) :=
    Text.slice_eq_ok_iff.2
      ⟨[], after, by simp, rfl, by rw [hsize, Nat.zero_add]⟩
  have htrimmed : (before ++ [';']).Trimmed := by
    refine ⟨fun c hc => (hstarts c hc).1, fun c hc => ?_⟩
    rw [List.getLast?_concat] at hc
    cases hc
    decide
  unfold statementAt
  rw [hslice]
  show Except.ok (Turn.statement (before ++ [';']).trim _) = _
  rw [Text.trim_eq_self_iff.2 htrimmed]

/-- A block is cut out up to the brace that ends it, or to the end of the text
if none does. The two cases are the two sides of the minimum. -/
theorem blockAt_eq (before after : Text) (start : Nat) :
    blockAt (before ++ '{' :: after) start before.byteSize
      = .ok (.block before.trim (splitBlock .outside 0 after).1
        (start + min (before.byteSize + 1
            + byteSize (splitBlock .outside 0 after).1 + 1)
          (before.byteSize + 1 + byteSize after))) := by
  obtain ⟨closing, heq, -⟩ := exists_splitBlock_eq after
  have hsize : (before ++ '{' :: after).byteSize
      = before.byteSize + 1 + byteSize after := by
    rw [Text.byteSize_append, Nat.add_assoc]
    rfl
  have hheading : (before ++ '{' :: after).slice 0 before.byteSize
      = .ok before :=
    Text.slice_eq_ok_iff.2 ⟨[], '{' :: after, rfl, rfl, Nat.zero_add _⟩
  have hbody : (before ++ '{' :: after).slice (before.byteSize + 1)
      (before.byteSize + 1 + byteSize (splitBlock .outside 0 after).1)
      = .ok (splitBlock .outside 0 after).1 := by
    refine Text.slice_eq_ok_iff.2 ⟨before ++ ['{'],
      closing ++ (splitBlock .outside 0 after).2, ?_, ?_, rfl⟩
    · rw [← heq, List.append_assoc, List.singleton_append]
    · rw [Text.byteSize_append]
      rfl
  -- where no brace ends the block, the minimum is the end of the text
  unfold blockAt
  simp only [hheading, matchingBrace_eq, hbody, hsize, bind, Except.bind, pure,
    Except.pure]

/-- What is left of a text behind its blanks starts a node, unless it is a
closing brace. -/
theorem starts_of_trimStart {first : Char} {tail : Text}
    (htrim : rest.trimStart = first :: tail) (hfirst : first ≠ '}') :
    Starts (first :: tail) := by
  rintro c ⟨⟩
  exact ⟨Text.isBlank_head?_trimStart first (by rw [htrim]; rfl), hfirst⟩

/-- The next turn starts behind a stray brace. -/
theorem turn_of_stray (pre : Text) {after : Text}
    (htrim : rest.trimStart = '}' :: after) :
    ∃ passed : Text, pre ++ rest = passed ++ after
      ∧ turn (pre ++ rest) pre.byteSize = .ok (.stray passed.byteSize) := by
  obtain ⟨lead, heq, hturn⟩ := turn_eq pre rest
  refine ⟨pre ++ lead ++ ['}'], ?_, ?_⟩
  · rw [heq, htrim]
    simp
  · rw [hturn, htrim, Text.byteSize_append _ ['}']]
    rfl

/-- The next turn starts behind the semicolon of a statement. -/
theorem turn_of_statement (pre : Text) {before after : Text}
    (htrim : rest.trimStart = before ++ ';' :: after)
    (hstarts : Starts (before ++ ';' :: after))
    (hbreak : (before ++ ';' :: after).breakTopLevel endsHeading
      = some (before, ';', after)) :
    ∃ passed : Text, pre ++ rest = passed ++ after
      ∧ turn (pre ++ rest) pre.byteSize
        = .ok (.statement (before ++ [';']) passed.byteSize) := by
  obtain ⟨lead, heq, hturn⟩ := turn_eq pre rest
  have hstarts' : Starts (before ++ [';']) := by
    cases before with
    | nil => exact hstarts
    | cons c before => exact hstarts
  refine ⟨pre ++ lead ++ (before ++ [';']), ?_, ?_⟩
  · rw [heq, htrim]
    simp
  · rw [hturn, htrim, find_eq (by simp) hstarts, hbreak,
      Text.byteSize_append _ (before ++ [';']), Text.byteSize_append before]
    exact statementAt_eq hstarts' after _

/-- The next turn starts behind the body of a block, and behind its brace. -/
theorem turn_of_block (pre : Text) {before after : Text}
    (htrim : rest.trimStart = before ++ '{' :: after)
    (hstarts : Starts (before ++ '{' :: after))
    (hbreak : (before ++ '{' :: after).breakTopLevel endsHeading
      = some (before, '{', after)) :
    ∃ passed : Text, pre ++ rest = passed ++ (splitBlock .outside 0 after).2
      ∧ turn (pre ++ rest) pre.byteSize
        = .ok (.block before.trim (splitBlock .outside 0 after).1
          passed.byteSize) := by
  obtain ⟨lead, heq, hturn⟩ := turn_eq pre rest
  obtain ⟨closing, hafter, hsize⟩ := exists_splitBlock_eq after
  refine ⟨pre ++ lead ++ (before ++ ['{']
    ++ (splitBlock .outside 0 after).1 ++ closing), ?_, ?_⟩
  · rw [heq, htrim]
    conv => lhs; rw [hafter]
    simp
  · rw [hturn, htrim, find_eq (by simp) hstarts, hbreak,
      Text.byteSize_append (pre ++ lead), Text.byteSize_append _ closing,
      Text.byteSize_append (before ++ ['{']), Text.byteSize_append before]
    show blockAt _ _ _ = _
    rw [blockAt_eq, hsize]
    rfl

-- =========================================================== reading

/-- What is read from a turn on. -/
def follow (text : Text) : Turn → Except OffsetError (List Node)
  | .finished => .ok []
  | .last statement => .ok [.statement statement]
  | .stray next => nodes text next
  | .statement statement next =>
    (nodes text next).map (.statement statement :: ·)
  | .block heading body next => do
    let holdsBlocks := (body.findTopLevel ['{'.toUInt8]).isSome
    let node ←
      if isAtRule heading && holdsBlocks then
        (nodes body 0).map (.block heading)
      else if isAtRule heading || holdsBlocks then
        .ok (.sealed (heading ++ '{' :: body.trim ++ ['}']))
      else (declarations body).map (.rule heading)
    let others ← nodes text next
    return node :: others

/-- What is read at an offset is what follows from the turn there. -/
theorem nodes_of_turn {offset : Nat} {found : Turn}
    (h : turn text offset = .ok found) :
    nodes text offset = follow text found := by
  rw [nodes]
  split <;> next heq => rw [h] at heq; cases heq <;> rfl

/-- What a block is read as, if its body is read and what is behind it. -/
theorem nodes_of_block {offset next : Nat} {heading : Text}
    {others : List Node}
    (h : turn text offset = .ok (.block heading body next))
    (hbody : nodes body 0 = .ok (Node.parse body))
    (hothers : nodes text next = .ok others) :
    nodes text offset = .ok (.ofBlock heading body :: others) := by
  have hblocks : (body.findTopLevel ['{'.toUInt8]).isSome
      = holdsBlocks body := by
    unfold holdsBlocks
    rw [findTopLevel_singleton (by decide), Option.isSome_map]
  rw [nodes_of_turn h]
  simp only [follow, hblocks, hbody, declarations_eq, hothers]
  unfold Node.ofBlock Node.ofFlatBlock
  cases isAtRule heading <;> cases holdsBlocks body <;> rfl

/-- Reading at offsets finds the nodes of the text, wherever it starts. -/
theorem nodes_append (pre rest : Text) :
    nodes (pre ++ rest) pre.byteSize = .ok (Node.parse rest) := by
  fun_induction Node.parse rest generalizing pre with
  | case1 rest htrim =>
    obtain ⟨lead, -, hturn⟩ := turn_eq pre rest
    rw [htrim] at hturn
    exact nodes_of_turn hturn
  | case2 rest after htrim ih =>
    obtain ⟨passed, heq, hturn⟩ := turn_of_stray pre htrim
    rw [nodes_of_turn hturn, heq]
    exact ih passed
  | case3 rest first tail htrim hfirst hbreak =>
    obtain ⟨lead, -, hturn⟩ := turn_eq pre rest
    have hstarts := starts_of_trimStart htrim hfirst
    rw [htrim, find_eq (List.cons_ne_nil _ _) hstarts, hbreak] at hturn
    exact nodes_of_turn hturn
  | case4 rest first tail htrim hfirst before after hbreak ih =>
    have hstarts := starts_of_trimStart htrim hfirst
    have htext := (Text.eq_of_breakTopLevel hbreak).1
    rw [htext] at htrim hstarts hbreak
    obtain ⟨passed, heq, hturn⟩ := turn_of_statement pre htrim hstarts hbreak
    rw [nodes_of_turn hturn, heq]
    exact congrArg (Except.map (.statement (before ++ [';']) :: ·)) (ih passed)
  | case5 rest first tail htrim hfirst before ending after hbreak hending
      heading body node ihbody ihrest =>
    have hstarts := starts_of_trimStart htrim hfirst
    obtain ⟨htext, hmark⟩ := Text.eq_of_breakTopLevel hbreak
    -- of the two marks only the brace is left
    obtain rfl : ending = '{' := by
      simp only [endsHeading, Bool.or_eq_true, beq_iff_eq] at hmark
      exact hmark.resolve_right hending
    rw [htext] at htrim hstarts hbreak
    obtain ⟨passed, heq, hturn⟩ := turn_of_block pre htrim hstarts hbreak
    -- the body is a text of its own, so it is read from its start
    exact nodes_of_block hturn (ihbody []) (heq ▸ ihrest passed)

/-- No offset is ever refused, and the text is that of the reader by
characters. -/
theorem dedupe_eq (css : Text) : dedupe css = .ok (Css.dedupe css) := by
  have hnodes := nodes_append [] css
  unfold dedupe
  rw [show nodes css 0 = _ from hnodes]
  rfl

/-- What is found at offsets is what is found in the text. The search for a
separator finds the end of the first part, the declarations of a body are its
parts, and duplicates are removed from every text as they are when nothing is
cut at an offset, so that none of the cuts is refused. -/
theorem offsets_agree :
    (∀ (separator : Char) (text : Text), IsAscii separator →
      text.findTopLevel [separator.toUInt8]
        = match text.splitTopLevel separator with
          | first :: _ :: _ => some first.byteSize
          | _ => none)
    ∧ (∀ body, declarations body
      = .ok
        (((Text.splitTopLevel ';' body).map Text.trim).filter (!·.isEmpty)))
    ∧ ∀ css, dedupe css = .ok (Css.dedupe css) :=
  ⟨fun _ text h => findTopLevel_eq_first h text,
    fun body => declarationTexts_eq body ▸ declarations_eq body, dedupe_eq⟩

/-- The backslash takes one of two bytes away, and the offset counts both. -/
theorem offsets_agree_accented :
    IsAscii ';'
    ∧ Text.findTopLevel [';'.toUInt8] "\"\\é;\";b".toList = some 6 := by
  have hascii : IsAscii ';' := by decide
  refine ⟨hascii, ?_⟩
  rw [offsets_agree.1 ';' _ hascii]
  decide

end StyleTree.Css.Offsets
