import LoxTokens.Proofs.Composition

/-!
# Spelling tokens out

The lexeme of a token says what the token is, wherever it stands.  So tokens may be written down by
their lexemes, with blanks between them, and a scan finds them again.

- `Token.Spelled` says that a token is built from its lexeme, as all tokens of a scan are
- `Grammar.Matches.begins_append` reads a lexeme in front of a blank
- `Reads` says which tokens a cut gives
- `scan_joinLexemes` is the result
-/

namespace LoxTokens

open Grammar

/-! ## The tokens of scans -/

/-- A token as scans find them: built from a lexeme of its kind, or the end token. -/
inductive Token.Spelled : Token → Prop where
  | lexeme {kind : TokenKind} {text : List Char} {line : Nat} :
      Matches (.token kind) text → Spelled (.ofLexeme kind text line)
  | eof {line : Nat} : Spelled (.eof line)

/-- A token without its line: the kind, the lexeme and the literal. -/
def Token.content (t : Token) : TokenKind × String × Literal :=
  (t.kind, t.lexeme, t.literal)

/-- A segment that gives a token is no fault, so it is a match. -/
theorem exists_lexeme_of_mem_foundAfter {input : List Char} {cut : List Segment}
    (h : Cut input cut) {before : List Char} {t : Token}
    (ht : t ∈ foundAfter Segment.token? before cut) :
    ∃ kind text line, Matches (.token kind) text ∧ t = .ofLexeme kind text line := by
  induction h generalizing before with
  | done => exact nomatch ht
  | @next input rest s others hbegins _ ih =>
    rw [foundAfter_cons, List.mem_append] at ht
    rcases ht with ht | ht
    · unfold Segment.token? at ht
      cases hshape : s.shape with rw [hshape] at ht
      | token kind =>
        have hmatches : Matches s.shape s.text :=
          hbegins.grammatical (by simp [hshape]) (by simp [hshape])
        rw [hshape] at hmatches
        exact ⟨kind, s.text, _, hmatches, List.mem_singleton.mp ht⟩
      | _ => exact nomatch ht
    · exact ih ht

theorem spelled_of_mem_foundAfter {input : List Char} {cut : List Segment} (h : Cut input cut)
    {before : List Char} {t : Token} (ht : t ∈ foundAfter Segment.token? before cut) :
    t.Spelled := by
  rcases exists_lexeme_of_mem_foundAfter h ht with ⟨kind, text, line, hmatches, rfl⟩
  exact .lexeme hmatches

theorem spelled_of_mem_tokensOf {source : String} {t : Token} (h : t ∈ tokensOf source) :
    t.Spelled := by
  rw [tokensOf_eq, List.mem_append] at h
  rcases h with h | h
  · exact spelled_of_mem_foundAfter (cut_segments source) h
  · rw [List.mem_singleton.mp h]
    exact .eof

/-- The lexeme determines the kind and the literal. -/
theorem Token.Spelled.content_eq {t u : Token} (h : t.Spelled) (h' : u.Spelled)
    (hlexeme : t.lexeme = u.lexeme) : t.content = u.content := by
  cases h with
  | eof =>
    cases h' with
    | eof => rfl
    | lexeme hmatches' => exact absurd (String.ofList_injective hlexeme).symm hmatches'.ne_nil
  | lexeme hmatches =>
    cases h' with
    | eof => exact absurd (String.ofList_injective hlexeme) hmatches.ne_nil
    | lexeme hmatches' =>
      have htext := String.ofList_injective hlexeme
      subst htext
      cases hmatches.shape_eq hmatches'
      rfl

/-! ## Lexemes and blanks -/

namespace Grammar

/-- Characters that only separate, or nothing. -/
def BlankFirst (text : List Char) : Prop :=
  ∀ c ∈ text.head?, c ∈ [' ', '\r', '\t', '\n']

/-- A lexeme is read in full and no further, if a blank or nothing stands behind it. -/
theorem Matches.begins_append {kind : TokenKind} {text rest : List Char}
    (h : Matches (.token kind) text) (hrest : BlankFirst rest) :
    Begins (text ++ rest) { shape := .token kind, text := text } rest := by
  cases rest with
  | nil => simpa using h.begins
  | cons c rest =>
    have hblank : c ∈ [' ', '\r', '\t', '\n'] := hrest c rfl
    have hwithin : Within text (c :: rest) :=
      h.begins.within_of_separator nofun (separates_of_mem_blanks hblank) nofun rest
    simpa using h.begins.append nofun hwithin

end Grammar

/-! ## Cuts that give tokens -/

/-- A cut in which these tokens are found, their lines apart, and no fault. -/
def Reads (cut : List Segment) (tokens : List Token) : Prop :=
  ∀ before, foundAfter Segment.report? before cut = [] ∧
    (foundAfter Segment.token? before cut).map Token.content = tokens.map Token.content

theorem Reads.blank {cut : List Segment} {tokens : List Token} (h : Reads cut tokens)
    (text : List Char) : Reads ({ shape := .blank, text := text } :: cut) tokens := by
  intro before
  rw [foundAfter_cons, foundAfter_cons]
  exact h (before ++ text)

theorem Reads.token {cut : List Segment} {tokens : List Token} (h : Reads cut tokens)
    (kind : TokenKind) (text : List Char) (line : Nat) :
    Reads ({ shape := .token kind, text := text } :: cut)
      (.ofLexeme kind text line :: tokens) := by
  intro before
  rcases h (before ++ text) with ⟨hreports, htokens⟩
  rw [foundAfter_cons, foundAfter_cons, hreports, List.map_append, htokens]
  exact ⟨rfl, rfl⟩

/-- A text that is read as these tokens. -/
def ReadAs (text : List Char) (tokens : List Token) : Prop :=
  ∃ cut, Cut text cut ∧ Reads cut tokens

theorem readAs_nil : ReadAs [] [] :=
  ⟨[], .done, fun _ => ⟨rfl, rfl⟩⟩

theorem ReadAs.blanks {text : List Char} {tokens : List Token} (h : ReadAs text tokens)
    {blanks : List Char} (hblanks : ∀ c ∈ blanks, c ∈ [' ', '\r', '\t', '\n']) :
    ReadAs (blanks ++ text) tokens := by
  induction blanks with
  | nil => exact h
  | cons c blanks ih =>
    rcases ih fun d hd => hblanks d (List.mem_cons_of_mem c hd) with ⟨cut, hcut, hreads⟩
    exact ⟨_, .next (begins_blank (hblanks c List.mem_cons_self) _) hcut, hreads.blank [c]⟩

theorem ReadAs.lexeme {text : List Char} {tokens : List Token} (h : ReadAs text tokens)
    (hfirst : BlankFirst text) {t : Token} (ht : t.Spelled) (hkind : t.kind ≠ .eof) :
    ReadAs (t.lexeme.toList ++ text) (t :: tokens) := by
  rcases h with ⟨cut, hcut, hreads⟩
  cases ht with
  | eof => exact absurd rfl hkind
  | @lexeme kind lexeme line hmatches =>
    have hlist : (Token.ofLexeme kind lexeme line).lexeme.toList = lexeme := String.toList_ofList
    rw [hlist]
    exact ⟨_, .next (hmatches.begins_append hfirst) hcut, hreads.token kind lexeme line⟩

/-! ## Joined lexemes -/

/-- Something that keeps two lexemes apart. -/
def IsSeparator (separator : String) : Prop :=
  separator ≠ "" ∧ ∀ c ∈ separator.toList, c ∈ [' ', '\r', '\t', '\n']

/-- Lexemes, each behind its separator. -/
def separated (separators : List String) (tokens : List Token) : String :=
  .join (List.zipWith (fun separator t => separator ++ t.lexeme) separators tokens)

/-- Lexemes with a separator between each two of them. -/
def joinLexemes (separators : List String) (tokens : List Token) : String :=
  separated ("" :: separators) tokens

theorem toList_separated_cons (separator : String) (separators : List String) (t : Token)
    (tokens : List Token) :
    (separated (separator :: separators) (t :: tokens)).toList =
      separator.toList ++ (t.lexeme.toList ++ (separated separators tokens).toList) := by
  unfold separated
  rw [List.zipWith_cons_cons, String.join_cons, String.toList_append, String.toList_append,
    List.append_assoc]

/-- The induction is on the tokens.  That the text behind a lexeme begins with a blank is what the
lexeme in front of it needs. -/
theorem readAs_separated {separators : List String} {tokens : List Token}
    (hlength : tokens.length ≤ separators.length) (hseparators : ∀ s ∈ separators, IsSeparator s)
    (htokens : ∀ t ∈ tokens, t.Spelled ∧ t.kind ≠ .eof) :
    ReadAs (separated separators tokens).toList tokens ∧
      BlankFirst (separated separators tokens).toList := by
  induction tokens generalizing separators with
  | nil =>
    have hnone : separated separators [] = "" := by
      unfold separated
      rw [List.zipWith_nil_right]
      rfl
    rw [hnone]
    exact ⟨readAs_nil, nofun⟩
  | cons t tokens ih =>
    cases separators with
    | nil => exact absurd hlength (Nat.not_succ_le_zero _)
    | cons separator separators =>
      rcases ih (Nat.le_of_succ_le_succ hlength)
        (fun s hs => hseparators s (List.mem_cons_of_mem _ hs))
        (fun u hu => htokens u (List.mem_cons_of_mem _ hu)) with ⟨hread, hfirst⟩
      rcases htokens t List.mem_cons_self with ⟨hspelled, hkind⟩
      rcases hseparators separator List.mem_cons_self with ⟨hne, hblanks⟩
      rw [toList_separated_cons]
      refine ⟨(hread.lexeme hfirst hspelled hkind).blanks hblanks, ?_⟩
      cases hlist : separator.toList with
      | nil => exact absurd (String.toList_eq_nil_iff.mp hlist) hne
      | cons c blanks =>
        intro d hd
        cases hd
        exact hblanks c (by rw [hlist]; exact List.mem_cons_self)

theorem readAs_joinLexemes {separators : List String} {tokens : List Token}
    (hlength : tokens.length ≤ separators.length + 1)
    (hseparators : ∀ s ∈ separators, IsSeparator s)
    (htokens : ∀ t ∈ tokens, t.Spelled ∧ t.kind ≠ .eof) :
    ReadAs (joinLexemes separators tokens).toList tokens := by
  cases tokens with
  | nil => exact readAs_nil
  | cons t tokens =>
    rcases readAs_separated (Nat.le_of_succ_le_succ hlength) hseparators
      (fun u hu => htokens u (List.mem_cons_of_mem _ hu)) with ⟨hread, hfirst⟩
    rcases htokens t List.mem_cons_self with ⟨hspelled, hkind⟩
    unfold joinLexemes
    rw [toList_separated_cons]
    exact hread.lexeme hfirst hspelled hkind

/-- What a scan finds in a text that is read as some tokens. -/
theorem scan_of_readAs {source : String} {tokens : List Token}
    (h : ReadAs source.toList tokens) :
    reportsOf source = [] ∧
      ∃ found, tokensOf source = found ++ [.eof (lineAfter source.toList)] ∧
        found.map Token.content = tokens.map Token.content := by
  rcases h with ⟨cut, hcut, hreads⟩
  rw [cut_iff.mp hcut] at hreads
  rcases hreads [] with ⟨hreports, htokens⟩
  refine ⟨?_, foundAfter Segment.token? [] (segments source), tokensOf_eq source, htokens⟩
  rw [reportsOf_eq, hreports]

/-- Tokens that are spelled out are found again.  Take tokens of any scans, end tokens apart, and
write down their lexemes with blanks between each two: a scan of this reports nothing and finds the
same kinds, lexemes and literals, and an end token.  For all tokens of all scans the lexeme
determines the kind and the literal. -/
theorem scan_joinLexemes :
    (∀ (tokens : List Token) (separators : List String),
      (∀ t ∈ tokens, (∃ source, t ∈ tokensOf source) ∧ t.kind ≠ .eof) →
      (∀ s ∈ separators, s ≠ "" ∧ ∀ c ∈ s.toList, c ∈ [' ', '\r', '\t', '\n']) →
      tokens.length ≤ separators.length + 1 →
        reportsOf (joinLexemes separators tokens) = [] ∧
          ∃ found line, tokensOf (joinLexemes separators tokens) = found ++ [.eof line] ∧
            found.map (fun t => (t.kind, t.lexeme, t.literal)) =
              tokens.map fun t => (t.kind, t.lexeme, t.literal)) ∧
      ∀ (source source' : String), ∀ t ∈ tokensOf source, ∀ u ∈ tokensOf source',
        t.lexeme = u.lexeme → t.kind = u.kind ∧ t.literal = u.literal := by
  refine ⟨fun tokens separators hscanned hseparators hlength => ?_, ?_⟩
  · have hspelled : ∀ t ∈ tokens, t.Spelled ∧ t.kind ≠ .eof := by
      intro t ht
      rcases hscanned t ht with ⟨⟨source, hsource⟩, hkind⟩
      exact ⟨spelled_of_mem_tokensOf hsource, hkind⟩
    rcases scan_of_readAs (readAs_joinLexemes hlength hseparators hspelled) with
      ⟨hreports, found, htokens, hcontent⟩
    exact ⟨hreports, found, _, htokens, hcontent⟩
  · intro source source' t ht u hu hlexeme
    have hcontent := (spelled_of_mem_tokensOf ht).content_eq (spelled_of_mem_tokensOf hu) hlexeme
    have hkind : t.kind = u.kind := congrArg Prod.fst hcontent
    have hliteral : t.literal = u.literal := congrArg (fun content => content.2.2) hcontent
    exact ⟨hkind, hliteral⟩

/-- Tokens of two sources: a number that stood before a point, the point, a slash that stood before
a blank, a text with what looks like a comment over two lines, and a slash again.  The number is the
same wherever its lexeme stands. -/
theorem scan_joinLexemes_slashes :
    ((∀ t ∈ (tokensOf "1.").dropLast ++ (tokensOf "/ \"// a\n\"/").dropLast,
        (∃ source, t ∈ tokensOf source) ∧ t.kind ≠ .eof) ∧
      reportsOf "1\n.\t/ \"// a\n\"\r\n/" = [] ∧
      ∃ found line, tokensOf "1\n.\t/ \"// a\n\"\r\n/" = found ++ [.eof line] ∧
        found.map (fun t => (t.kind, t.lexeme, t.literal)) =
          ((tokensOf "1.").dropLast ++ (tokensOf "/ \"// a\n\"/").dropLast).map
            fun t => (t.kind, t.lexeme, t.literal)) ∧
      Token.ofLexeme .number ['1'] 1 ∈ tokensOf "1." ∧
      Token.ofLexeme .number ['1'] 2 ∈ tokensOf "\n1 x" ∧
      (Token.ofLexeme .number ['1'] 1).kind = (Token.ofLexeme .number ['1'] 2).kind ∧
      (Token.ofLexeme .number ['1'] 1).literal = (Token.ofLexeme .number ['1'] 2).literal := by
  have hkinds : ∀ t ∈ (tokensOf "1.").dropLast ++ (tokensOf "/ \"// a\n\"/").dropLast,
      t.kind ≠ .eof := by
    decide +kernel
  have hscanned : ∀ t ∈ (tokensOf "1.").dropLast ++ (tokensOf "/ \"// a\n\"/").dropLast,
      (∃ source, t ∈ tokensOf source) ∧ t.kind ≠ .eof := by
    intro t ht
    refine ⟨?_, hkinds t ht⟩
    rcases List.mem_append.mp ht with ht | ht
    · exact ⟨_, List.dropLast_subset _ ht⟩
    · exact ⟨_, List.dropLast_subset _ ht⟩
  have hjoined : joinLexemes ["\n", "\t", " ", "\r\n"]
      ((tokensOf "1.").dropLast ++ (tokensOf "/ \"// a\n\"/").dropLast) =
        "1\n.\t/ \"// a\n\"\r\n/" := by
    decide +kernel
  have hscan := scan_joinLexemes.1
    ((tokensOf "1.").dropLast ++ (tokensOf "/ \"// a\n\"/").dropLast)
    ["\n", "\t", " ", "\r\n"] hscanned (by simp) (by decide +kernel)
  rw [hjoined] at hscan
  have hfirst : (tokensOf "1.")[0]? = some (.ofLexeme .number ['1'] 1) := by decide +kernel
  have hsecond : (tokensOf "\n1 x")[0]? = some (.ofLexeme .number ['1'] 2) := by decide +kernel
  have hnumber := scan_joinLexemes.2 "1." "\n1 x" _ (List.mem_of_getElem? hfirst) _
    (List.mem_of_getElem? hsecond) rfl
  exact ⟨⟨hscanned, hscan⟩, List.mem_of_getElem? hfirst, List.mem_of_getElem? hsecond, hnumber⟩

end LoxTokens
