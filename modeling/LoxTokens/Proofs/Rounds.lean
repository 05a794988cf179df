import LoxTokens.Program
import LoxTokens.Proofs.Prompts

/-!
# Rounds without limits

A session at the prompt whose writers take everything goes on to the first line that is no text.  It
may then be cut into rounds, as the executable does: each begins with empty writers, and what the
rounds leave is put together.

- `exists_unlimited_replLines` is such a session, and `exists_unlimited_repl` that for a whole input
- `outcome_replLines_cons` is one round, and what the other lines leave behind it
- `outcome_repl_eq_rounds` is a whole session
-/

namespace LoxTokens

/-! ## Sessions without limits -/

/-- A session may begin here that nothing will cut short: no error is remembered, and both writers
take everything. -/
structure Unlimited (console : Console) (out : Writer) : Prop where
  clean : console.hadError = false
  reports : console.writer.remaining = none
  prints : out.remaining = none
  flushes : out.flushes = none

theorem unlimited_fresh : Unlimited (.onto .unbounded) .unbounded :=
  ⟨rfl, rfl, rfl, rfl⟩

theorem promptedLines_none (texts : List String) : promptedLines none none texts = texts := by
  have hall : (texts.zipIdx.filter fun numbered => Prompted none none texts numbered.2) =
      texts.zipIdx := by
    apply List.filter_eq_self.mpr
    intro numbered _
    exact decide_eq_true ⟨nofun, nofun⟩
  unfold promptedLines
  rw [hall, List.zipIdx_map_fst]

section Unlimited

variable {console : Console} {out : Writer} {text : String} {line : ByteArray}
  {others : List ByteArray}

/-- Without limits every prompt arrives. -/
theorem Unlimited.prompted (h : Unlimited console out) (texts : List String) (before : Nat) :
    Prompted out.remaining out.flushes texts before := by
  unfold Prompted
  rw [h.prints, h.flushes]
  exact ⟨nofun, nofun⟩

/-- The writers behind a line that was answered take everything, too. -/
theorem Unlimited.answered (h : Unlimited console out) :
    Unlimited (scan text console).2.reset (out.prompt.2.print (dump text)).2 := by
  -- what is left of no limit is no limit
  have hleft : ∀ w : Writer, w.remaining = none → ∀ bytes, (w.hold bytes).remaining = none := by
    intro w hw bytes
    rw [Writer.remaining_hold, hw]
    rfl
  rw [scan_console, Writer.print_eq, print_dump_prompt (h.prompted [text] 0)]
  exact
    { clean := rfl
      reports := hleft _ h.reports _
      prints := hleft _ h.prints _
      flushes := by rw [h.flushes]; rfl }

/-- Without limits a line that is a text is answered in full. -/
theorem Unlimited.replLines_cons (h : Unlimited console out) (hline : decodeText line = .ok text) :
    replLines console out (line :: others) =
      replLines (scan text console).2.reset (out.prompt.2.print (dump text)).2 others := by
  have hfits : Fits out.remaining (exchange text).toUTF8 := by
    rw [h.prints]
    exact nofun
  have hprinted : (out.prompt.2.print (dump text)).1 = true := by
    rw [print_dump_prompt (h.prompted [text] 0)]
    exact decide_eq_true hfits
  rw [replLines_cons_of_ok (h.prompted [text] 0) hline, if_pos hprinted]

end Unlimited

/-- Without limits a session at the prompt stops at the first line that is no text.  The induction
is on the lines in front of it, with the other lines, the console and the output generalised. -/
theorem unread_replLines {texts : List String} {unread : List (Except ReadError String)}
    (hunread : ∀ result ∈ unread.head?, result = .error .notText) {lines : List ByteArray}
    (hlines : lines.map decodeText = texts.map Except.ok ++ unread) {console : Console}
    {out : Writer} (h : Unlimited console out) :
    (replLines console out lines).unread = unread.head?.map fun _ => .notText := by
  induction texts generalizing lines console out with
  | nil =>
    cases lines with
    | nil =>
      have hnone : unread = [] := by simpa using hlines.symm
      rw [replLines_nil (h.prompted [] 0), hnone]
      rfl
    | cons line others =>
      have hfirst : unread = decodeText line :: others.map decodeText := by
        simpa using hlines.symm
      have hline : decodeText line = .error .notText := by
        apply hunread
        rw [hfirst]
        rfl
      rw [replLines_cons_of_error (h.prompted [] 0) hline, hfirst]
      rfl
  | cons text texts ih =>
    cases lines with
    | nil => simp at hlines
    | cons line others =>
      have hboth : decodeText line = .ok text ∧
          others.map decodeText = texts.map Except.ok ++ unread := by
        simpa using hlines
      rw [h.replLines_cons hboth.1]
      exact ih hboth.2 h.answered

/-- A session at the prompt without limits, for the lines in front of the first one that is no text
and whatever is left unread.  What the writers hold before does not matter. -/
theorem exists_unlimited_replLines (lines : List ByteArray) :
    ∃ texts unread,
      lines.map decodeText = texts.map Except.ok ++ unread ∧
      (∀ result ∈ unread.head?, result = .error .notText) ∧
      ∀ {console : Console} {out : Writer}, Unlimited console out →
        (replLines console out lines).status = (if unread = [] then .success else .ioError) ∧
        (replLines console out lines).out.written = out.written ++ (transcript texts).toUTF8 ∧
        (replLines console out lines).console.writer.written =
          console.writer.written ++ (renderLines texts).toUTF8 ∧
        (replLines console out lines).unread = unread.head?.map fun _ => .notText := by
  rcases exists_replEnds lines with ⟨texts, unread, hlines, hunread, hends⟩
  refine ⟨texts, unread, hlines, hunread, fun {console out} h => ?_⟩
  have hall := hends console out h.clean
  refine ⟨?_, ?_, ?_, unread_replLines hunread hlines h⟩
  · cases unread with
    | nil => exact hall.success.mpr ⟨rfl, h.prompted texts texts.length⟩
    | cons result others =>
      rcases hall.status with hended | hended
      · exact nomatch (hall.success.mp hended).1
      · exact hended
  · rw [hall.printed, h.prints, h.flushes]
    rfl
  · rw [hall.reported, h.prints, h.flushes, promptedLines_none, Writer.print_eq, h.reports]
    rfl

/-- A session at the prompt for a whole input, with two empty writers without limits. -/
theorem exists_unlimited_repl (input : ByteArray) :
    ∃ texts unread,
      (inputLines input).map decodeText = texts.map Except.ok ++ unread ∧
      (∀ result ∈ unread.head?, result = .error .notText) ∧
      (repl input (.onto .unbounded) .unbounded).status =
        (if unread = [] then .success else .ioError) ∧
      (repl input (.onto .unbounded) .unbounded).out.written = (transcript texts).toUTF8 ∧
      (repl input (.onto .unbounded) .unbounded).console.writer.written =
        (renderLines texts).toUTF8 ∧
      (repl input (.onto .unbounded) .unbounded).unread = unread.head?.map fun _ => .notText := by
  rcases exists_unlimited_replLines (inputLines input) with
    ⟨texts, unread, hlines, hunread, hends⟩
  rcases hends unlimited_fresh with ⟨hstatus, hprinted, hreported, hnotice⟩
  refine ⟨texts, unread, hlines, hunread, hstatus, ?_, ?_, hnotice⟩
  · exact hprinted.trans ByteArray.empty_append
  · exact hreported.trans ByteArray.empty_append

/-! ## Round by round -/

/-- An outcome with these bytes in front of what it prints. -/
def Outcome.behind (outcome : Outcome) (stdout stderr : ByteArray) : Outcome where
  status := outcome.status
  stdout := stdout ++ outcome.stdout
  stderr := stderr ++ outcome.stderr

theorem Outcome.behind_behind (outcome : Outcome) (stdout stderr stdout' stderr' : ByteArray) :
    (outcome.behind stdout stderr).behind stdout' stderr' =
      outcome.behind (stdout' ++ stdout) (stderr' ++ stderr) := by
  simp only [behind, ByteArray.append_assoc]

/-- The outcome of a turn: it ends the session, or the rest has an outcome behind it. -/
def Turn.outcome (turn : Turn) (name : String) (rest : Outcome) : Outcome :=
  match turn with
  | .ends ending => ending.outcome name
  | .goesOn console out => rest.behind out.written console.writer.written

theorem Ending.outcome_of_written {ending other : Ending} {stdout stderr : ByteArray}
    (hstatus : ending.status = other.status) (hunread : ending.unread = other.unread)
    (hout : ending.out.written = stdout ++ other.out.written)
    (hconsole : ending.console.writer.written = stderr ++ other.console.writer.written)
    (name : String) : ending.outcome name = (other.outcome name).behind stdout stderr := by
  unfold outcome Outcome.behind
  rw [hstatus, hunread, hout, hconsole]
  cases other.unread with
  | none => rfl
  | some error => simp only [ByteArray.append_assoc]

/-- What is in the writers already stands in front of what empty writers would be left with. -/
theorem outcome_replLines {console : Console} {out : Writer} (h : Unlimited console out)
    (name : String) (lines : List ByteArray) :
    (replLines console out lines).outcome name =
      ((replLines (.onto .unbounded) .unbounded lines).outcome name).behind
        out.written console.writer.written := by
  -- both sessions read the same lines, so they print the same behind what they begin with
  rcases exists_unlimited_replLines lines with ⟨texts, unread, -, -, hends⟩
  rcases hends h with ⟨hstatus, hprinted, hreported, hunread⟩
  rcases hends unlimited_fresh with ⟨hstatus', hprinted', hreported', hunread'⟩
  apply Ending.outcome_of_written
  · rw [hstatus, hstatus']
  · rw [hunread, hunread']
  · rw [hprinted, hprinted']
    exact congrArg _ ByteArray.empty_append.symm
  · rw [hreported, hreported']
    exact congrArg _ ByteArray.empty_append.symm

/-- A session is a prompt, a turn, and a session for the other lines, and each of these may begin
with empty writers. -/
theorem outcome_replLines_cons (name : String) (line : ByteArray) (others : List ByteArray) :
    (replLines (.onto .unbounded) .unbounded (line :: others)).outcome name =
      ((takeTurn (.onto .unbounded) .unbounded line).outcome name
        ((replLines (.onto .unbounded) .unbounded others).outcome name)).behind
          Writer.unbounded.prompt.2.written .empty := by
  have hfresh := unlimited_fresh
  cases hline : decodeText line with
  | error error =>
    rw [replLines_cons_of_error (hfresh.prompted [] 0) hline, takeTurn_of_error hline]
    apply Ending.outcome_of_written
    · rfl
    · rfl
    · exact ByteArray.append_empty.symm
    · exact ByteArray.empty_append.symm
  | ok text =>
    -- the dump is printed in full, be it behind the prompt or to an empty writer
    have hprint : ∀ w : Writer, w.remaining = none →
        w.print (dump text) = (true, w.hold (dump text).toUTF8) := by
      intro w hw
      rw [Writer.print_eq, hw]
      rfl
    have hprompt : Writer.unbounded.prompt.2.remaining = none := rfl
    rw [hfresh.replLines_cons hline, outcome_replLines hfresh.answered, takeTurn_of_ok hline,
      hprint _ hprompt, hprint _ hfresh.prints, if_pos rfl]
    have hheld : (Writer.unbounded.hold (dump text).toUTF8).written = (dump text).toUTF8 :=
      Writer.written_hold_fresh none none _
    unfold Turn.outcome
    rw [Outcome.behind_behind, hheld, ByteArray.empty_append]
    rfl

/-- The outcome of rounds at the prompt, each of which begins with empty writers. -/
def rounds (name : String) : List ByteArray → Outcome
  | [] =>
    { status := .success
      stdout := Writer.unbounded.prompt.2.written
      stderr := .empty }
  | line :: others =>
    ((takeTurn (.onto .unbounded) .unbounded line).outcome name (rounds name others)).behind
      Writer.unbounded.prompt.2.written .empty

/-- A session leaves what its rounds leave, put together. -/
theorem outcome_repl_eq_rounds (input : ByteArray) (name : String) :
    (repl input (.onto .unbounded) .unbounded).outcome name = rounds name (inputLines input) := by
  unfold repl
  induction inputLines input with
  | nil =>
    rw [replLines_nil (unlimited_fresh.prompted [] 0)]
    rfl
  | cons line others ih => rw [outcome_replLines_cons, ih, rounds]

end LoxTokens
