/-
A scan over bytes sees what a scan over characters sees. The bytes of an ASCII
character are the character itself, and the bytes of any other are 128 and up,
where nothing is a quote, a backslash, a bracket or a target: such a byte
leaves the scan as it is (`scanBytes_append_high`), and so does what is left of
a character whose first byte a backslash has taken away.

`scanFrom` is a scan over bytes from a place between two characters, in or out
of a literal. One character further on it is such a scan again
(`scanFrom_inside`, `scanFrom_outside`), which is all that an induction over
the text needs: a search for targets finds what `breakTopLevel` finds, at the
number of bytes in front of it (`findTopLevel_eq`).
-/
import StyleTree.Text.Bytes
import StyleTree.Proofs.Text.Split

namespace StyleTree.Text

open String (utf8EncodeChar)

variable {c d quote separator : Char} {text rest : Text}

-- ================================================ bytes of characters

/-- The character is its own byte. -/
def IsAscii (c : Char) : Prop := c.toNat < 128

instance (c : Char) : Decidable (IsAscii c) :=
  inferInstanceAs (Decidable (_ < _))

theorem toNat_toUInt8 (h : IsAscii c) : c.toUInt8.toNat = c.toNat :=
  Nat.mod_eq_of_lt (Nat.lt_trans h (by decide))

/-- The bytes of ASCII characters tell them apart. -/
theorem toUInt8_inj (hc : IsAscii c) (hd : IsAscii d) :
    c.toUInt8 = d.toUInt8 ↔ c = d := by
  refine ⟨fun h => ?_, fun h => h ▸ rfl⟩
  have hnat := congrArg UInt8.toNat h
  rw [toNat_toUInt8 hc, toNat_toUInt8 hd] at hnat
  exact Char.toNat_inj.1 hnat

/-- An ASCII character is one byte. -/
theorem utf8EncodeChar_of_isAscii (h : IsAscii c) :
    utf8EncodeChar c = [c.toUInt8] := by
  have hsize : c.utf8Size = 1 := by
    rw [Char.utf8Size_eq_one_iff, UInt32.le_iff_toNat_le]
    exact Nat.le_of_lt_succ h
  exact String.utf8EncodeChar_eq_singleton hsize

/-- No byte of a longer character is an ASCII character. -/
theorem le_toNat_of_mem_utf8EncodeChar (h : ¬ IsAscii c) {byte : UInt8}
    (hbyte : byte ∈ utf8EncodeChar c) : 128 ≤ byte.toNat := by
  have hc : ¬ c.val.toNat ≤ 127 := fun hle => h (Nat.lt_succ_of_le hle)
  unfold utf8EncodeChar at hbyte
  simp only [if_neg hc] at hbyte
  split at hbyte
  · simp only [List.mem_cons, List.not_mem_nil, or_false] at hbyte
    rcases hbyte with rfl | rfl <;> simp only [UInt8.toNat_ofNat'] <;> omega
  · split at hbyte
    · simp only [List.mem_cons, List.not_mem_nil, or_false] at hbyte
      rcases hbyte with rfl | rfl | rfl <;> simp only [UInt8.toNat_ofNat'] <;>
        omega
    · simp only [List.mem_cons, List.not_mem_nil, or_false] at hbyte
      rcases hbyte with rfl | rfl | rfl | rfl <;>
        simp only [UInt8.toNat_ofNat'] <;> omega

theorem bytes_cons (c : Char) (rest : Text) :
    bytes (c :: rest) = utf8EncodeChar c ++ bytes rest := List.flatMap_cons

theorem bytes_append (a b : Text) : bytes (a ++ b) = bytes a ++ bytes b :=
  List.flatMap_append

theorem length_bytes (text : Text) : text.bytes.length = text.byteSize := by
  induction text with
  | nil => rfl
  | cons c rest ih =>
    rw [bytes_cons, List.length_append, String.length_utf8EncodeChar, ih]
    rfl

/-- The byte behind a part of the text is the character there. -/
theorem byteAt_append_cons (h : IsAscii c) (a rest : Text) :
    (a ++ c :: rest).byteAt a.byteSize = .ok c.toUInt8 := by
  unfold byteAt
  rw [bytes_append, bytes_cons, utf8EncodeChar_of_isAscii h, ← length_bytes,
    List.getElem?_append_right (Nat.le_refl _), Nat.sub_self]
  rfl

-- ======================================== bytes taken for characters

theorem ofUInt8_toUInt8 (h : IsAscii c) : Char.ofUInt8 c.toUInt8 = c :=
  Char.toNat_inj.1 (toNat_toUInt8 h)

theorem isAscii_of_isQuote (h : isQuote c = true) : IsAscii c := by
  simp only [isQuote, Bool.or_eq_true, beq_iff_eq] at h
  rcases h with rfl | rfl <;> decide

theorem isAscii_of_isBracket
    (h : (Nesting.isOpening c || Nesting.isClosing c) = true) : IsAscii c := by
  simp only [Nesting.isOpening, Nesting.isClosing, Bool.or_eq_true,
    beq_iff_eq] at h
  rcases h with (rfl | rfl) | (rfl | rfl) <;> decide

/-- Only brackets change the depth. -/
theorem bracketDepth_of_not_bracket (depth : Nat)
    (h : ¬ (Nesting.isOpening c || Nesting.isClosing c) = true) :
    Nesting.bracketDepth depth c = depth := by
  simp only [Bool.or_eq_true, not_or, Bool.not_eq_true] at h
  simp [Nesting.bracketDepth, h]

theorem not_bracket_of_isQuote (h : isQuote c = true) :
    ¬ (Nesting.isOpening c || Nesting.isClosing c) = true := by
  simp only [isQuote, Bool.or_eq_true, beq_iff_eq] at h
  rcases h with rfl | rfl <;> decide

/-- A byte that is no ASCII character is not taken for one. -/
theorem not_isAscii_ofUInt8 {byte : UInt8} (h : 128 ≤ byte.toNat) :
    ¬ IsAscii (Char.ofUInt8 byte) :=
  Nat.not_lt.2 h

-- ============================================= scans over characters

section Scan

variable {α : Type} {move : Nat → UInt8 → ByteMove α} {depth offset : Nat}

/-- Bytes of longer characters mean nothing to the scan. -/
def PassesHigh (move : Nat → UInt8 → ByteMove α) : Prop :=
  ∀ depth byte, 128 ≤ byte.toNat → move depth byte = .go depth

/-- Inside of a literal a backslash takes the next byte with it, and the quote
ends the literal. -/
theorem scanBytes_some (quote byte : UInt8) (behind : List UInt8) :
    scanBytes move (some quote) depth offset (byte :: behind)
      = if byte = '\\'.toUInt8 then
          scanBytes move (some quote) depth (offset + 2) behind.tail
        else scanBytes move (if byte = quote then none else some quote) depth
          (offset + 1) behind := by
  cases behind <;> rfl

/-- The bytes of a character that is not ASCII are passed over, inside of
literals and outside. -/
theorem scanBytes_append_high (hmove : PassesHigh move) {high : List UInt8}
    (hhigh : ∀ byte ∈ high, 128 ≤ byte.toNat) {opened : Option UInt8}
    (hopened : ∀ byte ∈ opened, byte.toNat < 128) (behind : List UInt8) :
    scanBytes move opened depth offset (high ++ behind)
      = scanBytes move opened depth (offset + high.length) behind := by
  induction high generalizing offset with
  | nil => rfl
  | cons byte high ih =>
    obtain ⟨hbyte, hrest⟩ := List.forall_mem_cons.1 hhigh
    have hlength : offset + (byte :: high).length
        = offset + 1 + high.length := by
      rw [List.length_cons]
      omega
    rw [List.cons_append, hlength]
    cases opened with
    | none =>
      have hplain : isQuote (Char.ofUInt8 byte) = false :=
        Bool.eq_false_iff.2 fun h =>
          not_isAscii_ofUInt8 hbyte (isAscii_of_isQuote h)
      rw [scanBytes, if_neg (by simp [hplain]), hmove depth byte hbyte]
      exact ih hrest
    | some quote =>
      have hquote := hopened quote rfl
      -- backslash and quote are ASCII, and the byte is not
      have hslash : byte ≠ '\\'.toUInt8 := by
        rintro rfl
        exact absurd hbyte (by decide)
      have hclose : byte ≠ quote := by
        rintro rfl
        omega
      rw [scanBytes_some, if_neg hslash, if_neg hclose]
      exact ih hrest

/-- A scan over bytes from a place between two characters. Directly behind a
backslash it is one byte further on. -/
def scanFrom (move : Nat → UInt8 → ByteMove α) (quoting : Quoting)
    (depth offset : Nat) (bytes : List UInt8) : Option (α × Nat) :=
  match quoting with
  | .outside => scanBytes move none depth offset bytes
  | .inside quote false =>
    scanBytes move (some quote.toUInt8) depth offset bytes
  | .inside quote true =>
    scanBytes move (some quote.toUInt8) depth (offset + 1) bytes.tail

theorem scanFrom_nil (quoting : Quoting) :
    scanFrom move quoting depth offset [] = none := by
  rcases quoting with _ | ⟨quote, _ | _⟩ <;> rfl

/-- Behind a backslash the first byte is passed over whatever it is, and what
is left of the character is high. -/
theorem scanFrom_escaped (hmove : PassesHigh move)
    (hopened : ∀ byte ∈ some quote.toUInt8, byte.toNat < 128)
    (c : Char) (rest : Text) :
    scanFrom move (.inside quote true) depth offset (bytes (c :: rest))
      = scanFrom move (.inside quote false) depth (offset + c.utf8Size)
        (bytes rest) := by
  rw [bytes_cons]
  show scanBytes move (some quote.toUInt8) depth (offset + 1)
      (utf8EncodeChar c ++ bytes rest).tail
    = scanBytes move (some quote.toUInt8) depth (offset + c.utf8Size)
      (bytes rest)
  have hsize := String.length_utf8EncodeChar c
  -- the lead byte is the one that is passed over
  obtain ⟨lead, tail, hcons⟩ := List.exists_cons_of_ne_nil
    (String.utf8EncodeChar_ne_nil (c := c))
  have hhigh : ∀ byte ∈ tail, 128 ≤ byte.toNat := by
    intro byte hbyte
    by_cases hc : IsAscii c
    · rw [utf8EncodeChar_of_isAscii hc] at hcons
      cases hcons
      cases hbyte
    · exact le_toNat_of_mem_utf8EncodeChar hc
        (hcons ▸ List.mem_cons_of_mem _ hbyte)
  rw [hcons, List.length_cons] at hsize
  rw [hcons, List.cons_append, List.tail_cons,
    scanBytes_append_high hmove hhigh hopened, ← hsize]
  congr 1
  omega

/-- An ASCII character of a literal is told from a backslash and from the
quote by its byte. -/
theorem scanFrom_inside_of_isAscii (hquote : IsAscii quote) (hc : IsAscii c)
    (rest : Text) :
    scanFrom move (.inside quote false) depth offset (bytes (c :: rest))
      = scanFrom move ((Quoting.inside quote false).step c) depth
        (offset + c.utf8Size) (bytes rest) := by
  have hsize : c.utf8Size = 1 := by
    rw [← String.length_utf8EncodeChar, utf8EncodeChar_of_isAscii hc]
    rfl
  have hslash : c.toUInt8 = '\\'.toUInt8 ↔ c = '\\' :=
    toUInt8_inj hc (by decide)
  have hclose : c.toUInt8 = quote.toUInt8 ↔ c = quote :=
    toUInt8_inj hc hquote
  rw [bytes_cons, utf8EncodeChar_of_isAscii hc, hsize, List.singleton_append,
    Quoting.step_inside]
  show scanBytes move (some quote.toUInt8) depth offset
    (c.toUInt8 :: bytes rest) = _
  -- the two scans ask the same questions in the same order
  rw [scanBytes_some]
  by_cases hbackslash : c = '\\'
  · rw [if_pos (hslash.2 hbackslash), if_pos hbackslash]
    rfl
  · rw [if_neg fun h => hbackslash (hslash.1 h), if_neg hbackslash]
    by_cases hend : c = quote
    · rw [if_pos (hclose.2 hend), if_pos hend]
      rfl
    · rw [if_neg fun h => hend (hclose.1 h), if_neg hend]
      rfl

/-- One character further on in a literal. -/
theorem scanFrom_inside (hmove : PassesHigh move)
    (hquote : isQuote quote = true)
    (escaped : Bool) (c : Char) (rest : Text) :
    scanFrom move (.inside quote escaped) depth offset (bytes (c :: rest))
      = scanFrom move ((Quoting.inside quote escaped).step c) depth
        (offset + c.utf8Size) (bytes rest) := by
  have hascii := isAscii_of_isQuote hquote
  have hopened : ∀ byte ∈ some quote.toUInt8, byte.toNat < 128 := by
    rintro byte ⟨⟩
    rw [toNat_toUInt8 hascii]
    exact hascii
  cases escaped with
  | true => exact scanFrom_escaped hmove hopened c rest
  | false =>
    by_cases hc : IsAscii c
    · exact scanFrom_inside_of_isAscii hascii hc rest
    · -- no byte of the character is the quote's or the backslash's
      have hne (d : Char) (hd : IsAscii d) : c ≠ d := fun h => hc (h ▸ hd)
      rw [bytes_cons, Quoting.step_inside, if_neg (hne '\\' (by decide)),
        if_neg (hne quote hascii), ← String.length_utf8EncodeChar]
      exact scanBytes_append_high hmove
        (fun _ => le_toNat_of_mem_utf8EncodeChar hc) hopened _

/-- What a character outside of literals means for the scan. -/
def charMove (move : Nat → UInt8 → ByteMove α) (depth : Nat) (c : Char) :
    ByteMove α :=
  if IsAscii c then move depth c.toUInt8 else .go depth

/-- One character further on outside of literals. -/
theorem scanFrom_outside (hmove : PassesHigh move) (c : Char) (rest : Text) :
    scanFrom move .outside depth offset (bytes (c :: rest))
      = if isQuote c = true then
          scanFrom move (.inside c false) depth (offset + c.utf8Size)
            (bytes rest)
        else match charMove move depth c with
          | .go depth =>
            scanFrom move .outside depth (offset + c.utf8Size) (bytes rest)
          | .stop found => some (found, offset) := by
  rw [bytes_cons, ← String.length_utf8EncodeChar]
  by_cases hc : IsAscii c
  · rw [utf8EncodeChar_of_isAscii hc, charMove, if_pos hc]
    show scanBytes move none depth offset (c.toUInt8 :: bytes rest) = _
    rw [scanBytes, ofUInt8_toUInt8 hc]
    rfl
  · -- a character of more than one byte is no quote
    have hplain : ¬ isQuote c = true := fun h => hc (isAscii_of_isQuote h)
    rw [charMove, if_neg hc, if_neg hplain]
    exact scanBytes_append_high hmove
      (fun _ => le_toNat_of_mem_utf8EncodeChar hc) (by simp) _

end Scan

-- =================================================== finding targets

section Find

variable {cs : List Char} {target : Char → Bool}

/-- The byte of a character that is no target is none. -/
theorem mem_map_toUInt8 (h : ∀ c ∈ cs, IsAscii c) (hc : IsAscii c) :
    c.toUInt8 ∈ cs.map Char.toUInt8 ↔ c ∈ cs := by
  rw [List.mem_map]
  constructor
  · rintro ⟨d, hd, heq⟩
    exact (toUInt8_inj (h d hd) hc).1 heq ▸ hd
  · exact fun hmem => ⟨c, hmem, rfl⟩

/-- A scan for ASCII characters stops at no other byte. -/
theorem passesHigh_topLevelMove (h : ∀ c ∈ cs, IsAscii c) :
    PassesHigh (topLevelMove (cs.map Char.toUInt8)) := by
  intro depth byte hbyte
  have hbracket : ¬ (Nesting.isOpening (Char.ofUInt8 byte)
      || Nesting.isClosing (Char.ofUInt8 byte)) = true :=
    fun hbracket => not_isAscii_ofUInt8 hbyte (isAscii_of_isBracket hbracket)
  have htarget : byte ∉ cs.map Char.toUInt8 := by
    intro hmem
    obtain ⟨c, hc, rfl⟩ := List.mem_map.1 hmem
    rw [toNat_toUInt8 (h c hc)] at hbyte
    exact Nat.not_le.2 (h c hc) hbyte
  unfold topLevelMove
  rw [if_neg hbracket, if_neg fun hstop => htarget hstop.2]

/-- On characters such a scan counts brackets, and stops at what it looks for
outside of them. -/
theorem charMove_topLevelMove (h : ∀ c ∈ cs, IsAscii c) (depth : Nat)
    (c : Char) :
    charMove (topLevelMove (cs.map Char.toUInt8)) depth c
      = if (Nesting.isOpening c || Nesting.isClosing c) = true then
          .go (Nesting.bracketDepth depth c)
        else if depth = 0 ∧ c ∈ cs then .stop ()
        else .go depth := by
  unfold charMove topLevelMove
  by_cases hc : IsAscii c
  · simp only [if_pos hc, ofUInt8_toUInt8 hc, mem_map_toUInt8 h hc]
  · rw [if_neg hc, if_neg fun hbracket => hc (isAscii_of_isBracket hbracket),
      if_neg fun hstop => hc (h c hstop.2)]

/-- Where the text does not break, the scan goes on. -/
theorem scanFrom_cons_of_uncut (h : ∀ c ∈ cs, IsAscii c) {state : Nesting}
    (hopened : state.quoting.Opened) (hcut : Uncut (· ∈ cs) state c)
    (offset : Nat) (rest : Text) :
    scanFrom (topLevelMove (cs.map Char.toUInt8)) state.quoting state.depth
        offset (bytes (c :: rest))
      = scanFrom (topLevelMove (cs.map Char.toUInt8)) (state.step c).quoting
        (state.step c).depth (offset + c.utf8Size) (bytes rest) := by
  have hmove := passesHigh_topLevelMove h
  obtain ⟨quoting, depth⟩ := state
  cases quoting with
  | inside quote escaped =>
    exact scanFrom_inside hmove (hopened quote escaped rfl) escaped c rest
  | outside =>
    show scanFrom _ .outside depth offset (bytes (c :: rest))
      = scanFrom _ (Quoting.outside.step c) (Nesting.bracketDepth depth c) _ _
    rw [scanFrom_outside hmove, charMove_topLevelMove h, Quoting.step_outside]
    by_cases hquote : isQuote c = true
    · rw [if_pos hquote, if_pos hquote,
        bracketDepth_of_not_bracket _ (not_bracket_of_isQuote hquote)]
    · rw [if_neg hquote, if_neg hquote]
      by_cases hbracket
          : (Nesting.isOpening c || Nesting.isClosing c) = true
      · rw [if_pos hbracket]
      · -- a target outside of brackets would have been a cut
        have hgo : ¬ (depth = 0 ∧ c ∈ cs) := by
          rintro ⟨rfl, htarget⟩
          simp only [Bool.or_eq_true, not_or, Bool.not_eq_true]
            at hquote hbracket
          simp [Uncut, Nesting.cutsAt, Nesting.top, Nesting.isStructural,
            htarget, hquote, hbracket] at hcut
        rw [if_neg hbracket, if_neg hgo,
          bracketDepth_of_not_bracket _ hbracket]

/-- The scan ends where the text breaks. -/
theorem scanFrom_topLevelMove (h : ∀ c ∈ cs, IsAscii c) {state : Nesting}
    (hopened : state.quoting.Opened) (offset : Nat) (text : Text) :
    scanFrom (topLevelMove (cs.map Char.toUInt8)) state.quoting state.depth
        offset (bytes text)
      = (breakFrom (· ∈ cs) state text).map fun parts =>
          ((), offset + parts.1.byteSize) := by
  induction text generalizing state offset with
  | nil => exact scanFrom_nil state.quoting
  | cons c rest ih =>
    cases hcut : state.cutsAt (· ∈ cs) c with
    | true =>
      -- a cut is outside of literals and brackets, and is neither itself
      have hcut' := hcut
      simp only [Nesting.cutsAt, Bool.and_eq_true, decide_eq_true_eq,
        Bool.not_eq_true', Nesting.isStructural, Bool.or_eq_false_iff] at hcut'
      obtain ⟨⟨rfl, htarget⟩, ⟨hquote, hopen⟩, hclose⟩ := hcut'
      rw [breakFrom, if_pos hcut]
      show scanFrom _ .outside 0 offset (bytes (c :: rest)) = _
      rw [scanFrom_outside (passesHigh_topLevelMove h),
        charMove_topLevelMove h, if_neg (by simp [hquote]),
        if_neg (by simp [hopen, hclose]), if_pos ⟨rfl, htarget⟩]
      rfl
    | false =>
      rw [scanFrom_cons_of_uncut h hopened hcut, ih (hopened.step c),
        breakFrom,
        if_neg (by simp [hcut]), Option.map_map]
      congr 1
      funext parts
      simp [Nat.add_assoc]

/-- The first target is where the text breaks at the top level. -/
theorem findTopLevel_eq (cs : List Char) (h : ∀ c ∈ cs, IsAscii c)
    (htarget : ∀ c, target c = decide (c ∈ cs)) (text : Text) :
    text.findTopLevel (cs.map Char.toUInt8)
      = (text.breakTopLevel target).map fun parts => parts.1.byteSize := by
  obtain rfl : target = (· ∈ cs) := funext htarget
  have hopened : Nesting.top.quoting.Opened := Quoting.opened_outside
  have hscan := scanFrom_topLevelMove h hopened 0 text
  unfold findTopLevel
  rw [show scanBytes _ none 0 0 text.bytes = _ from hscan, Option.map_map]
  congr 1
  funext parts
  simp

end Find

end StyleTree.Text
