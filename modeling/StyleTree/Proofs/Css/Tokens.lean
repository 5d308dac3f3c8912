/-
Collapsing in terms of tokens. A token is a string literal, or any other
character that is not blank, and it is kept apart from the token in front of it
if blanks stand between the two. Collapsing keeps the tokens but for the last
semicolons of blocks, and writes them with a space where one is needed
(`tokens_collapse`).

# The two steps

Collapsing looks back at what it has written, so first the characters are put
together: what is written is a fold of the tokens (`written_run`). A token that
another one follows ends in its last character and nowhere else, which makes
the look back one at the token in front (`foldl_put`). The other way, tokens
are read again from where they are written, whether or not a space stands
between them (`tokens_flatMap_written`).

# Twice

A second run reads the tokens that the first one wrote. Their spaces are needed
as before, and another semicolon is the last of its block exactly if there were
two in front of the closing brace.
-/
import StyleTree.Proofs.Css.Collapsed

namespace StyleTree.Css

-- ============================================================ tokens

/-- A literal, or any other character that is not blank, and whether blanks
stand in front of it. -/
structure Token where
  apart : Bool
  text : Text
  deriving DecidableEq, Repr

/-- The rest of the literal that a scan is inside of, and the tokens behind it.
A literal without its closing quote goes on to the end. -/
def tokensFrom : Quoting → Bool → Text → Text × List Token
  | _, _, [] => ([], [])
  | .inside quote escaped, apart, c :: rest =>
    let (literal, behind) :=
      tokensFrom ((Quoting.inside quote escaped).step c) apart rest
    (c :: literal, behind)
  | .outside, apart, c :: rest =>
    if isBlank c then tokensFrom .outside true rest
    else
      let (literal, behind) := tokensFrom (Quoting.outside.step c) false rest
      ([], ⟨apart, c :: literal⟩ :: behind)

/-- The tokens of a text, in order. -/
def tokens (css : Text) : List Token := (tokensFrom .outside false css).2

/-- The token as it is written: one space keeps it apart. -/
def Token.written (token : Token) : Text :=
  if token.apart then ' ' :: token.text else token.text

/-- The tokens without the semicolons that stand directly in front of a closing
brace. Of several semicolons in a row only the last one does. -/
def withoutLastSemicolons : List Token → List Token
  | ⟨_, [';']⟩ :: ⟨apart, ['}']⟩ :: rest =>
    ⟨apart, ['}']⟩ :: withoutLastSemicolons rest
  | token :: rest => token :: withoutLastSemicolons rest
  | [] => []

/-- The tokens that no space is written behind. -/
def tightAfter : List Text := [['{'], ['}'], [';'], [','], [':']]

/-- The tokens that no space is written in front of. -/
def tightBefore : List Text := [['{'], ['}'], [';'], [',']]

/-- Whether blanks between two tokens are worth a space. None are in front of
the first token. -/
def isSpaced : Option Text → Text → Bool
  | none, _ => false
  | some left, right =>
    !tightAfter.contains left && !tightBefore.contains right

/-- The tokens behind a token, kept apart only where that is worth a space. -/
def spaceOut (left : Option Text) : List Token → List Token
  | [] => []
  | token :: rest =>
    ⟨token.apart && isSpaced left token.text, token.text⟩
      :: spaceOut (some token.text) rest

-- ==================================================== whole tokens

variable {quoting : Quoting} {literal rest text : Text} {apart : Bool}

/-- The rest of a literal ends at its closing quote; outside of literals there
is no rest. -/
def EndsLiteral : Quoting → Text → Prop
  | .outside, text => text = []
  | .inside .., [] => False
  | .inside quote escaped, c :: rest =>
    EndsLiteral ((Quoting.inside quote escaped).step c) rest

/-- A literal with its closing quote, or a character that is no quote. -/
def IsWhole (text : Text) : Prop :=
  ∃ c literal, text = c :: literal ∧ isBlank c = false
    ∧ EndsLiteral (Quoting.outside.step c) literal

/-- A text that is read as one token if nothing stands behind it. -/
def IsToken (text : Text) : Prop :=
  ∃ c literal, text = c :: literal ∧ isBlank c = false
    ∧ ∀ apart, tokensFrom (Quoting.outside.step c) apart literal
      = (literal, [])

/-- Texts that are tokens side by side: only the last may be a literal without
its closing quote. -/
def AreTokens (texts : List Text) : Prop :=
  texts.Pairwise (fun text _ => IsWhole text) ∧ ∀ text ∈ texts, IsToken text

/-- A blank keeps the next token apart. -/
theorem tokensFrom_cons_blank {c : Char} (hc : isBlank c = true) :
    tokensFrom .outside apart (c :: rest) = tokensFrom .outside true rest := by
  rw [tokensFrom, if_pos hc]

/-- A character that is not blank starts a token. It is the whole token unless
it opens a literal. -/
theorem tokensFrom_cons_plain {c : Char} (hc : isBlank c = false) :
    tokensFrom .outside apart (c :: rest)
      = ([], ⟨apart, c :: (tokensFrom (Quoting.outside.step c) false rest).1⟩
          :: (tokensFrom (Quoting.outside.step c) false rest).2) := by
  rw [tokensFrom, if_neg (by rw [hc]; exact Bool.false_ne_true)]

/-- Inside of a literal every character belongs to it, blanks too. -/
theorem tokensFrom_cons_inside {c : Char} (hin : quoting ≠ .outside) :
    tokensFrom quoting apart (c :: rest)
      = (c :: (tokensFrom (quoting.step c) apart rest).1,
        (tokensFrom (quoting.step c) apart rest).2) := by
  cases quoting with
  | outside => exact absurd rfl hin
  | inside quote escaped => rfl

/-- Outside of literals there is no rest of one. -/
theorem tokensFrom_outside_fst :
    (tokensFrom .outside apart text).1 = [] := by
  induction text generalizing apart with
  | nil => rfl
  | cons c rest ih =>
    cases hc : isBlank c with
    | true => rw [tokensFrom_cons_blank hc, ih]
    | false => rw [tokensFrom_cons_plain hc]

theorem endsLiteral_outside : EndsLiteral .outside literal ↔ literal = [] := by
  cases literal <;> exact Iff.rfl

/-- A literal ends where it ends behind its first character. -/
theorem endsLiteral_cons {c : Char} (hin : quoting ≠ .outside) :
    EndsLiteral quoting (c :: rest) = EndsLiteral (quoting.step c) rest := by
  cases quoting with
  | outside => exact absurd rfl hin
  | inside quote escaped => rfl

/-- The rest of a literal is found again in front of anything. -/
theorem EndsLiteral.tokensFrom_append (h : EndsLiteral quoting literal)
    (apart : Bool) (rest : Text) :
    tokensFrom quoting apart (literal ++ rest)
      = (literal, (tokensFrom .outside apart rest).2) := by
  induction literal generalizing quoting with
  | nil =>
    cases quoting with
    | outside => exact Prod.ext tokensFrom_outside_fst rfl
    | inside quote escaped => exact absurd h id
  | cons c literal ih =>
    have hin : quoting ≠ .outside := by
      rintro rfl
      cases h
    rw [endsLiteral_cons hin] at h
    rw [List.cons_append, tokensFrom_cons_inside hin, ih h]

/-- What is read of a literal is all of it, and it ends there if a token
follows. -/
theorem tokensFrom_literal (quoting : Quoting) (apart : Bool) (text : Text) :
    (∀ apart', tokensFrom quoting apart' (tokensFrom quoting apart text).1
        = ((tokensFrom quoting apart text).1, []))
      ∧ ((tokensFrom quoting apart text).2 ≠ [] →
        EndsLiteral quoting (tokensFrom quoting apart text).1) := by
  induction text generalizing quoting with
  | nil => exact ⟨fun _ => rfl, fun h => absurd rfl h⟩
  | cons c rest ih =>
    by_cases hin : quoting = .outside
    · subst hin
      rw [tokensFrom_outside_fst]
      exact ⟨fun _ => rfl, fun _ => rfl⟩
    · rw [tokensFrom_cons_inside hin]
      obtain ⟨hread, hends⟩ := ih (quoting.step c)
      refine ⟨fun apart' => ?_, fun h => ?_⟩
      · rw [tokensFrom_cons_inside hin, hread]
      · rw [endsLiteral_cons hin]
        exact hends h

/-- What is read are tokens, wherever the scan starts. An unclosed literal has
nothing behind it. -/
theorem areTokens_tokensFrom (quoting : Quoting) (apart : Bool) (text : Text) :
    AreTokens ((tokensFrom quoting apart text).2.map Token.text) := by
  induction text generalizing quoting apart with
  | nil => exact ⟨List.Pairwise.nil, fun _ h => nomatch h⟩
  | cons c rest ih =>
    by_cases hin : quoting = .outside
    · subst hin
      cases hc : isBlank c with
      | true =>
        rw [tokensFrom_cons_blank hc]
        exact ih .outside true
      | false =>
        obtain ⟨hread, hends⟩ :=
          tokensFrom_literal (Quoting.outside.step c) false rest
        obtain ⟨hwhole, htokens⟩ := ih (Quoting.outside.step c) false
        rw [tokensFrom_cons_plain hc, List.map_cons]
        refine ⟨List.pairwise_cons.2 ⟨fun next hnext => ?_, hwhole⟩,
          List.forall_mem_cons.2 ⟨⟨c, _, rfl, hc, hread⟩, htokens⟩⟩
        refine ⟨c, _, rfl, hc, hends ?_⟩
        exact fun hnil => by rw [hnil] at hnext; cases hnext
    · rw [tokensFrom_cons_inside hin]
      exact ih (quoting.step c) apart

/-- The tokens of a text are tokens side by side. -/
theorem areTokens_tokens (css : Text) :
    AreTokens ((tokens css).map Token.text) :=
  areTokens_tokensFrom .outside false css

theorem AreTokens.tail {texts : List Text} (h : AreTokens (text :: texts)) :
    AreTokens texts :=
  ⟨(List.pairwise_cons.1 h.1).2, (List.forall_mem_cons.1 h.2).2⟩

/-- Some of the tokens can be left out. -/
theorem AreTokens.sublist {texts others : List Text} (h : AreTokens texts)
    (hsub : others.Sublist texts) : AreTokens others :=
  ⟨h.1.sublist hsub, fun text htext => h.2 text (hsub.subset htext)⟩

-- ================================================== reading again

/-- The space in front of a token says that it is apart. -/
theorem tokensFrom_written (token : Token) (rest : Text) :
    tokensFrom .outside false (token.written ++ rest)
      = tokensFrom .outside token.apart (token.text ++ rest) := by
  obtain ⟨apart, text⟩ := token
  cases apart with
  | true => exact tokensFrom_cons_blank (by decide)
  | false => rfl

/-- A whole token is read in front of anything. -/
theorem IsWhole.tokensFrom_append (h : IsWhole text) (apart : Bool)
    (rest : Text) :
    tokensFrom .outside apart (text ++ rest)
      = ([], ⟨apart, text⟩ :: tokens rest) := by
  obtain ⟨c, literal, rfl, hc, hends⟩ := h
  rw [List.cons_append, tokensFrom_cons_plain hc, hends.tokensFrom_append]
  rfl

/-- A token with nothing behind it is read as it is. -/
theorem IsToken.tokensFrom_eq (h : IsToken text) (apart : Bool) :
    tokensFrom .outside apart text = ([], [⟨apart, text⟩]) := by
  obtain ⟨c, literal, rfl, hc, hread⟩ := h
  rw [tokensFrom_cons_plain hc, hread]

/-- Tokens are read again from where they were written. -/
theorem tokens_flatMap_written {written : List Token}
    (h : AreTokens (written.map Token.text)) :
    tokens (written.flatMap Token.written) = written := by
  induction written with
  | nil => rfl
  | cons token others ih =>
    have hothers := ih h.tail
    unfold tokens
    rw [List.flatMap_cons, tokensFrom_written]
    cases others with
    | nil =>
      have htoken : IsToken token.text := h.2 _ (List.mem_cons_self ..)
      rw [List.flatMap_nil, List.append_nil, htoken.tokensFrom_eq]
    | cons next others =>
      have hwhole : IsWhole token.text :=
        (List.pairwise_cons.1 h.1).1 _ (List.mem_cons_self ..)
      rw [hwhole.tokensFrom_append, hothers]

-- ================================================ what is kept of them

/-- Of the tokens only some are left out. -/
theorem sublist_withoutLastSemicolons (read : List Token) :
    (withoutLastSemicolons read).Sublist read := by
  fun_induction withoutLastSemicolons read with
  | case1 _ apart rest ih => exact (ih.cons_cons _).cons _
  | case2 token rest _ ih => exact ih.cons_cons _
  | case3 => exact List.Sublist.slnil

/-- Spaces leave the texts of the tokens alone. -/
theorem map_text_spaceOut (left : Option Text) (read : List Token) :
    (spaceOut left read).map Token.text = read.map Token.text := by
  induction read generalizing left with
  | nil => rfl
  | cons token rest ih => rw [spaceOut, List.map_cons, List.map_cons, ih]

/-- Where spaces were needed once they are needed again. -/
theorem spaceOut_spaceOut (left : Option Text) (read : List Token) :
    spaceOut left (spaceOut left read) = spaceOut left read := by
  induction read generalizing left with
  | nil => rfl
  | cons token rest ih =>
    rw [spaceOut, spaceOut, ih, Bool.and_assoc, Bool.and_self]

-- ==================================================== looking back

namespace Collapsing

/-- What has been written behind one more token. -/
def put (written : Text) (token : Token) : Text :=
  match token.text with
  | [] => written
  | c :: literal =>
    let spaced :=
      if token.apart && needsSpace written c then ' ' :: written else written
    literal.reverse ++ c :: (if c = '}' then dropSemicolon spaced else spaced)

/-- Collapsing puts one token behind the other. -/
theorem written_run (written : Text) (quoting : Quoting) (gap : Bool)
    (text : Text) :
    (run ⟨written, quoting, gap⟩ text).written
      = (tokensFrom quoting gap text).2.foldl put
          ((tokensFrom quoting gap text).1.reverse ++ written) := by
  induction text generalizing written quoting gap with
  | nil => rfl
  | cons c rest ih =>
    rw [run_cons]
    by_cases hin : quoting = .outside
    · subst hin
      cases hc : isBlank c with
      | true =>
        rw [step_blank rfl hc, tokensFrom_cons_blank hc, ih]
      | false =>
        have hstep : step ⟨written, .outside, gap⟩ c
            = ⟨put written ⟨gap, [c]⟩, Quoting.outside.step c, false⟩ := by
          simp [step, hc, put]
        rw [hstep, ih, tokensFrom_cons_plain hc]
        rfl
    · rw [step_inside hin, ih, tokensFrom_cons_inside hin]
      simp

end Collapsing

section LookingBack

open Collapsing

/-- A literal ends with a quote. -/
theorem isQuote_of_step_eq_outside {c : Char} (hopened : quoting.Opened)
    (hin : quoting ≠ .outside) (hstep : quoting.step c = .outside) :
    isQuote c = true := by
  cases quoting with
  | outside => exact absurd rfl hin
  | inside quote escaped =>
    cases escaped with
    | true => cases hstep
    | false =>
      rw [Quoting.step_inside] at hstep
      by_cases hquote : c = quote
      · exact hquote ▸ hopened quote false rfl
      · rw [if_neg hquote] at hstep
        split at hstep <;> cases hstep

/-- A literal that ends does so in a quote. -/
theorem EndsLiteral.isQuote_getLast? (h : EndsLiteral quoting literal)
    (hopened : quoting.Opened) : ∀ c ∈ literal.getLast?, isQuote c = true := by
  induction literal generalizing quoting with
  | nil => exact fun _ hc => nomatch hc
  | cons c rest ih =>
    have hin : quoting ≠ .outside := by
      rintro rfl
      cases h
    rw [endsLiteral_cons hin] at h
    cases rest with
    | nil =>
      intro d hd
      obtain rfl : c = d := Option.some.inj hd
      refine isQuote_of_step_eq_outside hopened hin ?_
      cases hstep : quoting.step c with
      | outside => rfl
      | inside quote escaped =>
        rw [hstep] at h
        exact absurd h id
    | cons next rest =>
      rw [List.getLast?_cons_cons]
      exact ih h (hopened.step c)

/-- A quote allows a space behind it. -/
theorem not_isTightAfter_of_isQuote {c : Char} (h : isQuote c = true) :
    isTightAfter c = false := by
  simp only [isQuote, Bool.or_eq_true, beq_iff_eq] at h
  rcases h with rfl | rfl <;> decide

/-- A whole token is told by its last character where that matters for what is
written behind it. -/
theorem IsWhole.exists_last (h : IsWhole text) :
    ∃ before last, text = before ++ [last]
      ∧ (isTightAfter last = true ↔ text ∈ tightAfter)
      ∧ (last = ';' → text = [';']) := by
  obtain ⟨c, literal, rfl, -, hends⟩ := h
  cases hquote : isQuote c with
  | false =>
    rw [Quoting.step_outside_of_not_isQuote hquote] at hends
    obtain rfl : literal = [] := endsLiteral_outside.1 hends
    refine ⟨[], c, rfl, ?_, fun hc => by rw [hc]⟩
    simp [isTightAfter, isTightBefore, tightAfter, or_assoc]
  | true =>
    have hstep : Quoting.outside.step c = .inside c false := if_pos hquote
    -- a literal does not end with the quote that opens it
    have hne : literal ≠ [] := by
      rintro rfl
      rw [hstep] at hends
      exact hends
    have hlast := hends.isQuote_getLast? (Quoting.opened_outside.step c)
      _ (List.getLast?_eq_some_getLast hne)
    have htight := not_isTightAfter_of_isQuote hlast
    refine ⟨c :: literal.dropLast, literal.getLast hne, ?_, ?_, ?_⟩
    · rw [List.cons_append, List.dropLast_concat_getLast]
    · simp [htight, hne, tightAfter]
    · intro hsemicolon
      rw [hsemicolon] at hlast
      exact absurd hlast (by decide)

/-- Any token is told by its first character where that matters for what is
written in front of it. -/
theorem IsToken.exists_first (h : IsToken text) :
    ∃ c literal, text = c :: literal
      ∧ (isTightBefore c = true ↔ text ∈ tightBefore)
      ∧ (c = '}' → text = ['}']) := by
  obtain ⟨c, literal, rfl, -, hread⟩ := h
  cases hquote : isQuote c with
  | false =>
    rw [Quoting.step_outside_of_not_isQuote hquote] at hread
    have hliteral : (tokensFrom .outside false literal).1 = [] :=
      tokensFrom_outside_fst
    rw [hread false] at hliteral
    obtain rfl : literal = [] := hliteral
    refine ⟨c, [], rfl, ?_, fun hc => by rw [hc]⟩
    simp [isTightBefore, tightBefore, or_assoc]
  | true =>
    refine ⟨c, literal, rfl, ?_, ?_⟩
    · simp only [isQuote, Bool.or_eq_true, beq_iff_eq] at hquote
      rcases hquote with rfl | rfl <;> simp [isTightBefore, tightBefore]
    · rintro rfl
      exact absurd hquote (by decide)

/-- What was written ends in a token that another one may follow, or nothing
was written. -/
def EndsIn : Option Text → Text → Prop
  | none, written => written = []
  | some left, written =>
    IsWhole left ∧ ∃ before, written = left.reverse ++ before

variable {left : Option Text} {written : Text}

/-- A space is never due in front of a tight mark. -/
theorem needsSpace_of_isTightBefore {c : Char} (h : isTightBefore c = true)
    (written : Text) : needsSpace written c = false := by
  cases written with
  | nil => rfl
  | cons last written => simp [needsSpace, h]

/-- The characters on both sides need a space exactly if the tokens do. -/
theorem EndsIn.needsSpace_eq (h : EndsIn left written) {c : Char}
    {right : Text}
    (hc : isTightBefore c = true ↔ right ∈ tightBefore) :
    needsSpace written c = isSpaced left right := by
  cases left with
  | none =>
    obtain rfl : written = [] := h
    rfl
  | some left =>
    obtain ⟨hwhole, before, rfl⟩ := h
    obtain ⟨kept, last, rfl, htight, -⟩ := hwhole.exists_last
    rw [List.reverse_append, List.reverse_singleton, List.append_assoc,
      List.singleton_append]
    rw [← List.contains_iff_mem, ← Bool.eq_iff_iff] at htight hc
    simp only [needsSpace, isSpaced, htight, hc]

/-- Only a semicolon is taken away. -/
theorem EndsIn.dropSemicolon_eq (h : EndsIn left written)
    (hleft : left ≠ some [';']) : dropSemicolon written = written := by
  cases left with
  | none =>
    obtain rfl : written = [] := h
    rfl
  | some left =>
    obtain ⟨hwhole, before, rfl⟩ := h
    obtain ⟨kept, last, rfl, -, hlast⟩ := hwhole.exists_last
    have hne : last ≠ ';' := fun hsemicolon =>
      hleft (congrArg some (hlast hsemicolon))
    rw [List.reverse_append, List.reverse_singleton, List.append_assoc,
      List.singleton_append]
    unfold dropSemicolon
    split
    · next heq =>
      cases heq
      exact absurd rfl hne
    · rfl

/-- A token is put behind another one with the space that it needs. -/
theorem EndsIn.put_eq (h : EndsIn left written) {token : Token}
    (htoken : IsToken token.text)
    (hleft : token.text = ['}'] → left ≠ some [';']) :
    put written token
      = (⟨token.apart && isSpaced left token.text, token.text⟩ :
          Token).written.reverse ++ written := by
  obtain ⟨apart, text⟩ := token
  obtain ⟨c, literal, rfl, htight, hbrace⟩ := htoken.exists_first
  have hspace := h.needsSpace_eq htight
  have hdrop (hc : c = '}') : dropSemicolon written = written :=
    h.dropSemicolon_eq (hleft (hbrace hc))
  unfold put Token.written
  dsimp only
  rw [hspace]
  by_cases hc : c = '}'
  · have hnone : isSpaced left (c :: literal) = false := by
      rw [← hspace, hc]
      exact needsSpace_of_isTightBefore rfl written
    rw [hnone, Bool.and_false, if_neg Bool.false_ne_true,
      if_neg Bool.false_ne_true, if_pos hc, hdrop hc]
    simp
  · rw [if_neg hc]
    split <;> simp

/-- The last semicolon of a block is put, and taken away again by the brace
behind it. -/
theorem put_lastSemicolon (apart apart' : Bool) (written : Text) :
    put (put written ⟨apart, [';']⟩) ⟨apart', ['}']⟩ = '}' :: written := by
  simp [put,
    needsSpace_of_isTightBefore (show isTightBefore ';' = true from rfl),
    needsSpace_of_isTightBefore (show isTightBefore '}' = true from rfl),
    dropSemicolon]

/-- What is written ends in the token that was written last, with or without a
space in front of it. -/
theorem endsIn_written (token : Token) (h : IsWhole token.text)
    (written : Text) :
    EndsIn (some token.text) (token.written.reverse ++ written) := by
  refine ⟨h, ?_⟩
  unfold Token.written
  split
  · exact ⟨' ' :: written, by simp⟩
  · exact ⟨written, rfl⟩

/-- Putting tokens behind each other writes them with the spaces that they
need, and without the last semicolons. -/
theorem EndsIn.foldl_put (h : EndsIn left written) {read : List Token}
    (htokens : AreTokens (read.map Token.text))
    (hfirst : ∀ token ∈ read.head?, token.text = ['}'] → left ≠ some [';']) :
    read.foldl put written
      = ((spaceOut left (withoutLastSemicolons read)).flatMap
          Token.written).reverse ++ written := by
  -- only a token with another one behind it has to be whole
  have hwhole {token : Token} {next : Token} {rest : List Token}
      (htokens : AreTokens ((token :: next :: rest).map Token.text)) :
      IsWhole token.text :=
    (List.pairwise_cons.1 htokens.1).1 _ (List.mem_cons_self ..)
  fun_induction withoutLastSemicolons read generalizing left written with
  | case1 apart apart' rest ih =>
    have hends : EndsIn (some ['}']) ('}' :: written) :=
      ⟨⟨'}', [], rfl, by decide, rfl⟩, written, rfl⟩
    have hnone : isSpaced left ['}'] = false := by
      cases left <;> simp [isSpaced, tightBefore]
    rw [List.foldl_cons, List.foldl_cons, put_lastSemicolon,
      ih hends htokens.tail.tail fun _ _ _ => by simp, spaceOut, hnone]
    simp [Token.written]
  | case2 token rest hlast ih =>
    have htoken : IsToken token.text := htokens.2 _ (List.mem_cons_self ..)
    rw [List.foldl_cons, h.put_eq htoken (hfirst token rfl)]
    cases rest with
    | nil => simp [withoutLastSemicolons, spaceOut]
    | cons next rest =>
      have hends := endsIn_written
        ⟨token.apart && isSpaced left token.text, token.text⟩
        (hwhole htokens) written
      -- a closing brace here would have made the token a last semicolon
      have hnext : ∀ after ∈ (next :: rest).head?,
          after.text = ['}'] → some token.text ≠ some [';'] := by
        intro after hafter hbrace hsemicolon
        cases hafter
        obtain ⟨apart, text⟩ := token
        obtain ⟨apart', text'⟩ := next
        cases Option.some.inj hsemicolon
        cases (show text' = ['}'] from hbrace)
        exact hlast apart apart' rest rfl rfl
      rw [ih hends htokens.tail hnext, spaceOut]
      simp
  | case3 => rfl

end LookingBack

-- ============================================================ once

/-- Collapsing writes the tokens of a text with single spaces, but for the last
semicolons of blocks. -/
theorem collapse_eq_written (css : Text) :
    collapse css = (spaceOut none (withoutLastSemicolons (tokens css))).flatMap
      Token.written := by
  have hrun : (Collapsing.run .start css).written
      = (tokens css).foldl Collapsing.put [] := by
    have hwritten := Collapsing.written_run [] .outside false css
    rwa [tokensFrom_outside_fst] at hwritten
  have hstart : EndsIn none [] := rfl
  have hfold := hstart.foldl_put (areTokens_tokens css)
    fun _ _ _ => (Option.some_ne_none _).symm
  show (Collapsing.run .start css).written.reverse = _
  rw [hrun, hfold, List.append_nil, List.reverse_reverse]

/-- What was written is read again as the tokens it was written from. -/
theorem tokens_collapse_eq (css : Text) :
    tokens (collapse css)
      = spaceOut none (withoutLastSemicolons (tokens css)) := by
  rw [collapse_eq_written]
  refine tokens_flatMap_written ?_
  rw [map_text_spaceOut]
  exact (areTokens_tokens css).sublist
    ((sublist_withoutLastSemicolons _).map Token.text)

/-- Collapsing changes nothing but blanks and the last semicolons of blocks.
The tokens of what it writes are those of what it reads without such
semicolons, kept apart where they were before and where that is worth a space,
and they are written with one space each where they are apart and nothing else
between them. -/
theorem tokens_collapse (css : Text) :
    tokens (collapse css) = spaceOut none (withoutLastSemicolons (tokens css))
      ∧ collapse css = (tokens (collapse css)).flatMap Token.written := by
  refine ⟨tokens_collapse_eq css, ?_⟩
  rw [tokens_collapse_eq]
  exact collapse_eq_written css

example : tokens (collapse "a : b ;; \x7d '\x7d ;' ;c".toList)
    = [⟨false, "a".toList⟩, ⟨true, ":".toList⟩, ⟨false, "b".toList⟩,
      ⟨false, ";".toList⟩, ⟨false, "\x7d".toList⟩,
      ⟨false, "'\x7d ;'".toList⟩, ⟨false, ";".toList⟩,
        ⟨false, "c".toList⟩] := by
  decide

-- ============================================================ twice

/-- A semicolon that ends a block. -/
def lastSemicolon : List Text := [[';'], ['}']]

/-- A semicolon that ends a block once the one behind it is gone. -/
def lastSemicolons : List Text := [';'] :: lastSemicolon

section Twice

variable {token : Token} {rest read : List Token}

/-- The tokens start with a last semicolon if a semicolon is the first and a
closing brace the second of them. -/
theorem lastSemicolon_prefix_cons_iff :
    lastSemicolon <+: (token :: rest).map Token.text
      ↔ ∃ apart apart' more,
        token = ⟨apart, [';']⟩ ∧ rest = ⟨apart', ['}']⟩ :: more := by
  obtain ⟨apart, text⟩ := token
  rw [lastSemicolon, List.map_cons, List.cons_prefix_cons]
  cases rest with
  | nil => simp
  | cons next more =>
    obtain ⟨apart', text'⟩ := next
    simp [List.cons_prefix_cons, eq_comm]

/-- Nothing is taken away exactly if no semicolon ends a block. -/
theorem withoutLastSemicolons_eq_self_iff :
    withoutLastSemicolons read = read
      ↔ ¬ lastSemicolon <:+: read.map Token.text := by
  fun_induction withoutLastSemicolons read with
  | case1 _ apart rest ih =>
    constructor
    · intro h
      cases (List.cons.inj h).1
    · intro h
      exact absurd (List.prefix_append lastSemicolon _).isInfix h
  | case2 token rest hlast ih =>
    have hnone : ¬ lastSemicolon <+: (token :: rest).map Token.text := by
      rw [lastSemicolon_prefix_cons_iff]
      rintro ⟨apart, apart', more, htoken, hrest⟩
      exact hlast apart apart' more htoken hrest
    rw [List.map_cons] at hnone ⊢
    rw [List.infix_cons_iff, or_iff_right hnone, ← ih, List.cons.injEq,
      eq_self, true_and]
  | case3 => exact iff_of_true rfl (by simp [lastSemicolon])

/-- What is left starts with a closing brace if the tokens did, or if a last
semicolon stood in front of it. -/
theorem head?_withoutLastSemicolons :
    (∃ apart more, withoutLastSemicolons read = ⟨apart, ['}']⟩ :: more)
      ↔ (∃ apart more, read = ⟨apart, ['}']⟩ :: more)
        ∨ lastSemicolon <+: read.map Token.text := by
  fun_cases withoutLastSemicolons read with
  | case1 _ apart rest =>
    refine iff_of_true ⟨apart, _, rfl⟩ (.inr (List.prefix_append _ _))
  | case2 token rest hlast =>
    have hnone : ¬ lastSemicolon <+: (token :: rest).map Token.text := by
      rw [lastSemicolon_prefix_cons_iff]
      rintro ⟨apart, apart', more, htoken, hrest⟩
      exact hlast apart apart' more htoken hrest
    rw [or_iff_left hnone]
    simp
  | case3 => simp [lastSemicolon]

/-- What is left has a semicolon at the end of a block exactly if there were
two in a row. -/
theorem lastSemicolon_infix_withoutLastSemicolons :
    lastSemicolon <:+: (withoutLastSemicolons read).map Token.text
      ↔ lastSemicolons <:+: read.map Token.text := by
  fun_induction withoutLastSemicolons read with
  | case1 _ apart rest ih =>
    simp only [List.map_cons, List.infix_cons_iff, ih]
    simp [lastSemicolon, lastSemicolons, List.cons_prefix_cons]
  | case2 token rest hlast ih =>
    -- this token stays, so only what follows it could bring it next to a brace
    have hhead : lastSemicolon <+: (token :: withoutLastSemicolons rest).map
          Token.text
        ↔ lastSemicolons <+: (token :: rest).map Token.text := by
      rw [lastSemicolon_prefix_cons_iff, lastSemicolons, List.map_cons,
        List.cons_prefix_cons]
      constructor
      · rintro ⟨apart, apart', more, rfl, hrest⟩
        refine ⟨rfl, ?_⟩
        rcases head?_withoutLastSemicolons.1 ⟨apart', more, hrest⟩ with
          ⟨apart', more, rfl⟩ | hlast'
        · exact absurd rfl (hlast apart apart' more rfl)
        · exact hlast'
      · rintro ⟨htext, hlast'⟩
        obtain ⟨apart', more, hrest⟩ :=
          head?_withoutLastSemicolons.2 (.inr hlast')
        obtain ⟨apart, text⟩ := token
        exact ⟨apart, apart', more, congrArg (Token.mk apart) htext.symm,
          hrest⟩
    rw [List.map_cons] at hhead
    rw [List.map_cons, List.map_cons, List.infix_cons_iff, List.infix_cons_iff,
      ih, hhead, List.map_cons]
  | case3 => simp [lastSemicolon, lastSemicolons]

end Twice

/-- Collapsing twice is collapsing once exactly if two semicolons nowhere stand
directly in front of a closing brace. -/
theorem collapse_collapse_iff (css : Text) :
    collapse (collapse css) = collapse css
      ↔ ¬ [[';'], [';'], ['}']] <:+: (tokens css).map Token.text := by
  have htexts : (tokens (collapse css)).map Token.text
      = (withoutLastSemicolons (tokens css)).map Token.text := by
    rw [tokens_collapse_eq, map_text_spaceOut]
  have hkept : withoutLastSemicolons (tokens (collapse css))
        = tokens (collapse css)
      ↔ ¬ lastSemicolons <:+: (tokens css).map Token.text := by
    rw [withoutLastSemicolons_eq_self_iff, htexts,
      lastSemicolon_infix_withoutLastSemicolons]
  show _ ↔ ¬ lastSemicolons <:+: _
  rw [← hkept]
  constructor
  · intro h
    have htokens := tokens_collapse_eq (collapse css)
    rw [h] at htokens
    -- if as many tokens are left, none was a last semicolon
    have hlength := congrArg (fun read => (read.map Token.text).length) htokens
    simp only [map_text_spaceOut, List.length_map] at hlength
    exact (sublist_withoutLastSemicolons _).eq_of_length hlength.symm
  · intro h
    have hspaced : spaceOut none (tokens (collapse css))
        = tokens (collapse css) := by
      rw [tokens_collapse_eq, spaceOut_spaceOut]
    rw [collapse_eq_written (collapse css), h, hspaced, tokens_collapse_eq]
    exact (collapse_eq_written css).symm

/-- A second run takes the semicolon of an empty declaration, which the first
one has left at the end of the block. -/
theorem second_run_drops_semicolon :
    collapse ".a\x7bx:1;;\x7d".toList = ".a\x7bx:1;\x7d".toList
    ∧ collapse (collapse ".a\x7bx:1;;\x7d".toList) = ".a\x7bx:1\x7d".toList
    ∧ collapse (collapse ".a\x7bx:1;;\x7d".toList)
      ≠ collapse ".a\x7bx:1;;\x7d".toList := by
  decide

end StyleTree.Css
