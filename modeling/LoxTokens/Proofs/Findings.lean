import LoxTokens.Proofs.LongestMatch

/-!
# What a scan finds

A scan goes through the segments with a line counter, a list of tokens and a sink.  All three are
settled by the segments and the text in front of each: the counter always stands at one more than
the newlines passed so far.

- `placed` lists segments with the text in front of each
- `Segment.token?`, `Segment.error?` and `Segment.report?` are what a segment contributes
- `foundAfter` collects the contributions of one kind
- `scan_eq` says that a scan finds these contributions and nothing else, whatever the sink is
-/

namespace LoxTokens

universe u v

/-- The line of a position: one more than the newlines before it. -/
def lineAfter (before : List Char) : Nat :=
  before.count '\n' + 1

/-- The segments behind a text, each with all the text in front of it. -/
def placed (before : List Char) : List Segment → List (List Char × Segment)
  | [] => []
  | s :: others => (before, s) :: placed (before ++ s.text) others

/-- The report of a fault. -/
def LexicalError.diagnostic (error : LexicalError) : Diagnostic where
  line := error.line
  place := ""
  message := error.message

namespace Segment

/-- The token of a segment behind this text. -/
def token? (s : Segment) (before : List Char) : Option Token :=
  match s.shape with
  | .token kind => some (.ofLexeme kind s.text (lineAfter before))
  | _ => none

/-- The fault of a segment behind this text. -/
def error? (s : Segment) (before : List Char) : Option LexicalError :=
  match s.shape with
  | .stray character => some (.unexpectedCharacter (lineAfter before) character)
  | .openText => some (.unterminatedString (lineAfter (before ++ s.text)))
  | _ => none

/-- The report about a segment behind this text. -/
def report? (s : Segment) (before : List Char) : Option Diagnostic :=
  (s.error? before).map LexicalError.diagnostic

end Segment

/-- What the segments behind a text contribute, one after the other. -/
def foundAfter {β : Type v} (found? : Segment → List Char → Option β) (before : List Char)
    (cut : List Segment) : List β :=
  (placed before cut).filterMap fun place => found? place.2 place.1

/-- A sink after reports of these faults. -/
def reportAll {σ : Type u} [Reporter σ] (sink : σ) (errors : List LexicalError) : σ :=
  errors.foldl (fun sink error => Reporter.error sink error.line error.message) sink

/-! ## Lines -/

theorem lineAfter_append (before text : List Char) :
    lineAfter (before ++ text) = lineAfter before + text.count '\n' := by
  unfold lineAfter
  rw [List.count_append]
  omega

theorem lineAfter_append_text (before : List Char) (s : Segment) :
    lineAfter (before ++ s.text) = lineAfter before + s.newlines :=
  lineAfter_append before s.text

/-! ## Contributions of several segments -/

theorem placed_append (before : List Char) (cut more : List Segment) :
    placed before (cut ++ more) =
      placed before cut ++ placed (before ++ cut.flatMap Segment.text) more := by
  induction cut generalizing before with
  | nil => simp [placed]
  | cons s others ih => simp [placed, ih]

section Contributions

variable {β : Type v} (found? : Segment → List Char → Option β)

@[simp] theorem foundAfter_nil (before : List Char) : foundAfter found? before [] = [] :=
  rfl

theorem foundAfter_cons (before : List Char) (s : Segment) (others : List Segment) :
    foundAfter found? before (s :: others) =
      (found? s before).toList ++ foundAfter found? (before ++ s.text) others := by
  cases h : found? s before <;> simp [foundAfter, placed, h]

theorem foundAfter_append (before : List Char) (cut more : List Segment) :
    foundAfter found? before (cut ++ more) =
      foundAfter found? before cut ++
        foundAfter found? (before ++ cut.flatMap Segment.text) more := by
  unfold foundAfter
  rw [placed_append, List.filterMap_append]

end Contributions

/-- The reports are those of the faults. -/
theorem foundAfter_report (before : List Char) (cut : List Segment) :
    foundAfter Segment.report? before cut =
      (foundAfter Segment.error? before cut).map LexicalError.diagnostic := by
  unfold foundAfter
  rw [List.map_filterMap]
  rfl

theorem reportAll_append {σ : Type u} [Reporter σ] (sink : σ) (errors more : List LexicalError) :
    reportAll sink (errors ++ more) = reportAll (reportAll sink errors) more :=
  List.foldl_append

/-! ## One segment -/

namespace Scan

variable {σ : Type u} [Reporter σ]

theorem absorb_line {state : Scan σ} {before : List Char} (h : state.line = lineAfter before)
    (s : Segment) : (state.absorb s).line = lineAfter (before ++ s.text) := by
  rw [lineAfter_append_text, ← h]
  unfold absorb
  split <;> rfl

theorem absorb_tokens {state : Scan σ} {before : List Char} (h : state.line = lineAfter before)
    (s : Segment) :
    (state.absorb s).tokens.toList = state.tokens.toList ++ (s.token? before).toList := by
  unfold absorb Segment.token?
  rw [h]
  split <;> simp_all [addToken, addLines, addError]

theorem absorb_sink {state : Scan σ} {before : List Char} (h : state.line = lineAfter before)
    (s : Segment) :
    (state.absorb s).sink = reportAll state.sink (s.error? before).toList := by
  unfold absorb Segment.error?
  rw [lineAfter_append_text, h]
  split <;> simp_all [addToken, addLines, addError, reportAll]

/-! ## All segments -/

/-- The state after some segments.  The line counter is what carries the induction. -/
theorem foldl_absorb {state : Scan σ} {before : List Char} (h : state.line = lineAfter before)
    (cut : List Segment) :
    (cut.foldl absorb state).line = lineAfter (before ++ cut.flatMap Segment.text) ∧
      (cut.foldl absorb state).tokens.toList =
        state.tokens.toList ++ foundAfter Segment.token? before cut ∧
      (cut.foldl absorb state).sink =
        reportAll state.sink (foundAfter Segment.error? before cut) := by
  induction cut generalizing state before with
  | nil => simpa [reportAll] using h
  | cons s others ih =>
    -- the first segment leaves the counter where the others need it
    rcases ih (absorb_line h s) with ⟨hline, htokens, hsink⟩
    refine ⟨?_, ?_, ?_⟩
    · simpa using hline
    · rw [List.foldl_cons, htokens, absorb_tokens h, foundAfter_cons, List.append_assoc]
    · rw [List.foldl_cons, hsink, absorb_sink h, foundAfter_cons, reportAll_append]

end Scan

/-- A scan finds the tokens of the segments, an end token, and the faults of the segments. -/
theorem scan_eq {σ : Type u} [Reporter σ] (source : String) (sink : σ) :
    scan source sink =
      (foundAfter Segment.token? [] (segments source) ++ [.eof (lineAfter source.toList)],
        reportAll sink (foundAfter Segment.error? [] (segments source))) := by
  have hstart : (Scan.start sink).line = lineAfter [] := rfl
  rcases Scan.foldl_absorb hstart (segments source) with ⟨hline, htokens, hsink⟩
  -- the segments make up the source, so the counter ends on its last line
  rw [List.nil_append, flatMap_text_segments] at hline
  unfold scan Scan.finish
  rw [hline, hsink, Array.toList_push, htokens]
  rfl

/-! ## The recording sink -/

theorem toList_reportAll (recorded : Array Diagnostic) (errors : List LexicalError) :
    (reportAll recorded errors).toList = recorded.toList ++ errors.map LexicalError.diagnostic := by
  induction errors generalizing recorded with
  | nil => simp [reportAll]
  | cons error others ih =>
    -- a report to the recording sink is a push
    have hpush : reportAll recorded (error :: others) =
        reportAll (recorded.push error.diagnostic) others := rfl
    rw [hpush, ih]
    simp

/-- The tokens of a source. -/
def tokensOf (source : String) : List Token :=
  (scan source (#[] : Array Diagnostic)).1

/-- The reports about a source. -/
def reportsOf (source : String) : List Diagnostic :=
  (scan source (#[] : Array Diagnostic)).2.toList

theorem tokensOf_eq (source : String) :
    tokensOf source =
      foundAfter Segment.token? [] (segments source) ++ [.eof (lineAfter source.toList)] := by
  unfold tokensOf
  rw [scan_eq]

/-- The tokens of a source without the end token. -/
theorem dropLast_tokensOf (source : String) :
    (tokensOf source).dropLast = foundAfter Segment.token? [] (segments source) := by
  rw [tokensOf_eq, List.dropLast_concat]

theorem reportsOf_eq (source : String) :
    reportsOf source = foundAfter Segment.report? [] (segments source) := by
  unfold reportsOf
  rw [scan_eq, toList_reportAll, foundAfter_report]
  rfl

end LoxTokens
