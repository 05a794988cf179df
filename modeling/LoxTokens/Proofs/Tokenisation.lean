import Mathlib.Data.List.Forall2
import LoxTokens.Proofs.Findings

/-!
# Tokenisation

The tokens of a source are the tokens of its cut by longest match: each has the text of its segment
as lexeme, the kind the grammar gives, and the value the grammar gives.

- `Grammar.denotes_ofLexeme` compares the values
- `scan_longest_match` is the result
-/

namespace LoxTokens

universe u

open Grammar

namespace Segment

/-- Whether a segment is a token. -/
def isToken (s : Segment) : Bool :=
  match s.shape with
  | .token _ => true
  | _ => false

/-- Which token a segment gives, its line apart. -/
structure Yields (s : Segment) (t : Token) : Prop where
  shape : s.shape = .token t.kind
  lexeme : t.lexeme = .ofList s.text
  denotes : Denotes t.kind s.text t.literal

/-- The message about a segment that is a fault. -/
def complaint? (s : Segment) : Option String :=
  match s.shape with
  | .stray character => some ("Unexpected character '" ++ String.singleton character ++ "'.")
  | .openText => some "Unterminated string."
  | _ => none

end Segment

/-! ## Values -/

theorem ofLexeme_of_ne {kind : TokenKind} (htext : kind ≠ .text) (hnumber : kind ≠ .number)
    (lexeme : List Char) : Literal.ofLexeme kind lexeme = .absent := by
  unfold Literal.ofLexeme
  split
  · contradiction
  · contradiction
  · rfl

namespace Grammar

theorem forall_ne_point {digits : List Char} (h : ∀ c ∈ digits, IsDigit c) :
    ∀ c ∈ digits, (c != '.') = true := by
  refine forall_ne_of_notMem fun hmem => ?_
  have hpoint := h '.' hmem
  revert hpoint
  decide

theorem toBinary64_ofNumeral_whole {digits : List Char} (h : IsDigits digits) :
    (Decimal.ofNumeral digits).toBinary64 = .ofRatio (Nat.ofDigitChars 10 digits 0) 1 := by
  have hpoint := forall_ne_point h.2
  have htake : digits.takeWhile (· != '.') = digits := List.takeWhile_eq_self_iff.mpr hpoint
  have hdrop : digits.dropWhile (· != '.') = [] := List.dropWhile_eq_nil_iff.mpr hpoint
  simp [Decimal.ofNumeral, Decimal.toBinary64, htake, hdrop]

theorem toBinary64_ofNumeral_fraction {whole part : List Char} (h : IsDigits whole) :
    (Decimal.ofNumeral (whole ++ '.' :: part)).toBinary64 =
      .ofRatio (Nat.ofDigitChars 10 (whole ++ part) 0) (10 ^ part.length) := by
  have hpoint := forall_ne_point h.2
  have hstop : ('.' != '.') = false := by decide
  have htake := takeWhile_append_cons hpoint hstop part
  have hdrop := dropWhile_append_cons hpoint hstop part
  have hexponent : (-(part.length : Int)).toNat = 0 := by omega
  simp [Decimal.ofNumeral, Decimal.toBinary64, htake, hdrop, hexponent]

/-- The value of a token is the one that the grammar gives. -/
theorem denotes_ofLexeme {kind : TokenKind} {text : List Char} (h : Matches (.token kind) text) :
    Denotes kind text (Literal.ofLexeme kind text) := by
  generalize hshape : Shape.token kind = shape at h
  cases h with
  | blank _ => cases hshape
  | comment _ => cases hshape
  | @operator spelling kind' hoperator =>
    -- no operator has the kind of a text or of a number
    cases hshape
    rcases ne_of_mem_operators hoperator with ⟨htext, hnumber⟩
    rw [ofLexeme_of_ne htext hnumber]
    exact Denotes.absent htext hnumber
  | @text body hbody =>
    -- the value is what is left without the first and the last character
    cases hshape
    have hinside : ('"' :: (body ++ ['"'])).tail.dropLast = body := by simp
    unfold Literal.ofLexeme
    rw [hinside]
    exact Denotes.text
  | number hnumeral =>
    -- the digits on either side of the point are read as one number
    cases hshape
    unfold Literal.ofLexeme
    cases hnumeral with
    | whole hdigits =>
      rw [toBinary64_ofNumeral_whole hdigits]
      exact Denotes.whole hdigits
    | fraction hwhole hpart =>
      rw [toBinary64_ofNumeral_fraction hwhole]
      exact Denotes.fraction hwhole hpart
  | @reserved word kind' hword =>
    -- nor has a reserved word
    cases hshape
    rcases ne_of_mem_reservedWords hword with ⟨htext, hnumber⟩
    rw [ofLexeme_of_ne htext hnumber]
    exact Denotes.absent htext hnumber
  | identifier _ _ =>
    cases hshape
    exact Denotes.absent (by decide) (by decide)

end Grammar

/-! ## Tokens and faults of a cut -/

theorem yields_ofLexeme {input rest : List Char} {s : Segment} {kind : TokenKind}
    (h : Begins input s rest) (hshape : s.shape = .token kind) (line : Nat) :
    s.Yields (.ofLexeme kind s.text line) where
  shape := hshape
  lexeme := rfl
  denotes := by
    have hmatches : Matches s.shape s.text := h.grammatical (by simp [hshape]) (by simp [hshape])
    rw [hshape] at hmatches
    exact denotes_ofLexeme hmatches

theorem map_snd_placed (before : List Char) (cut : List Segment) :
    (placed before cut).map Prod.snd = cut := by
  induction cut generalizing before with
  | nil => rfl
  | cons s others ih => simp [placed, ih]

/-- The tokens of a cut, each beside its segment and the text in front of it. -/
theorem forall₂_tokens {input : List Char} {cut : List Segment} (h : Cut input cut)
    (before : List Char) :
    List.Forall₂ (fun place t => place.2.Yields t ∧ t.line = lineAfter place.1)
      ((placed before cut).filter fun place => place.2.isToken)
      (foundAfter Segment.token? before cut) := by
  induction h generalizing before with
  | done => exact .nil
  | @next input rest s others hbegins _ ih =>
    rw [foundAfter_cons, placed]
    cases hshape : s.shape with
    | token kind =>
      -- both lists have one element more
      have htoken : s.token? before = some (.ofLexeme kind s.text (lineAfter before)) := by
        simp [Segment.token?, hshape]
      have hfilter : (before, s).2.isToken = true := by simp [Segment.isToken, hshape]
      rw [htoken, List.filter_cons, if_pos hfilter]
      exact .cons ⟨yields_ofLexeme hbegins hshape _, rfl⟩ (ih _)
    | _ =>
      -- both lists pass the segment over
      have htoken : s.token? before = none := by simp [Segment.token?, hshape]
      have hfilter : ¬ (before, s).2.isToken = true := by simp [Segment.isToken, hshape]
      rw [htoken, List.filter_cons, if_neg hfilter]
      exact ih _

theorem forall₂_yields {input : List Char} {cut : List Segment} (h : Cut input cut)
    (before : List Char) :
    List.Forall₂ Segment.Yields (cut.filter Segment.isToken)
      (foundAfter Segment.token? before cut) := by
  have hplaced := (forall₂_tokens h before).imp fun _ _ hfound => hfound.1
  rw [← map_snd_placed before cut, List.filter_map, List.forall₂_map_left_iff, map_snd_placed]
  exact hplaced

theorem report?_message (s : Segment) (before : List Char) :
    (s.report? before).map Diagnostic.message = s.complaint? := by
  unfold Segment.report? Segment.error? Segment.complaint?
  cases s.shape <;> rfl

theorem map_message_foundAfter (before : List Char) (cut : List Segment) :
    (foundAfter Segment.report? before cut).map Diagnostic.message =
      cut.filterMap Segment.complaint? := by
  induction cut generalizing before with
  | nil => rfl
  | cons s others ih =>
    rw [foundAfter_cons, List.map_append, ih]
    cases hreport : s.report? before <;> simp [← report?_message s before, hreport]

theorem map_message_reportsOf (source : String) :
    (reportsOf source).map Diagnostic.message =
      (segments source).filterMap Segment.complaint? := by
  rw [reportsOf_eq, map_message_foundAfter]

/-! ## The tokenisation -/

/-- A scan is the tokenisation by longest match.  There is one way to cut the source by the lexical
grammar, and nothing of the source is lost in it; the tokens are the tokens of that cut in order,
with an end token without a lexeme behind them, and the reports are the faults of that cut in
order. -/
theorem scan_longest_match {σ : Type u} [Reporter σ] (source : String) (sink : σ) :
    ∃ cut tokens,
      (∀ other, Cut source.toList other ↔ other = cut) ∧
      cut.flatMap Segment.text = source.toList ∧
      (scan source sink).1 = tokens ++
        [{ kind := .eof, lexeme := "", literal := .absent, line := lineAfter source.toList }] ∧
      List.Forall₂ Segment.Yields (cut.filter Segment.isToken) tokens ∧
      (reportsOf source).map Diagnostic.message = cut.filterMap Segment.complaint? := by
  refine ⟨segments source, foundAfter Segment.token? [] (segments source), fun _ => cut_iff,
    flatMap_text_segments source, ?_, forall₂_yields (cut_segments source) [],
    map_message_reportsOf source⟩
  rw [scan_eq]
  rfl

/-- A point is no part of a number unless a digit follows, and operators are as long as can be. -/
example : (tokensOf "1.abs0.5.5===///\"x").map Token.lexeme =
    ["1", ".", "abs0", ".", "5.5", "==", "=", ""] := by
  decide +kernel

end LoxTokens
