import LoxTokens.Modes
import LoxTokens.Proofs.InputLines
import LoxTokens.Proofs.Sinks

/-!
# Whole files

What the tokens of a file leave behind, wherever it fails: at reading the file, in the middle of
the dump, or in the middle of a report.  The two writers know nothing of each other, and a dump
that does not fit outweighs reports.

- `Unreadable` is said of what is no text
- `tokenizeFile_of_error` and `tokenizeFile_of_text` are the two ways in which a file is taken
- `tokenizeFile_exact` is the result for any file and any limits
-/

namespace LoxTokens

/-! ## Texts and other files -/

/-- Nothing can be read, or bytes that encode no text. -/
def Unreadable (content : Except ReadError ByteArray) : Prop :=
  ∀ source : String, content ≠ .ok source.toUTF8

/-- What is read as a text is the encoding of that text. -/
theorem bind_decodeText_eq_ok_iff {content : Except ReadError ByteArray} {source : String} :
    content.bind decodeText = .ok source ↔ content = .ok source.toUTF8 := by
  constructor
  · intro h
    cases content with
    | error error => cases h
    | ok bytes =>
      have hbytes : bytes = source.toUTF8 := toUTF8_of_decodeText h
      rw [hbytes]
  · rintro rfl
    exact decodeText_toUTF8 source

/-- There is nothing to read, or what there is is no text. -/
theorem bind_decodeText_eq_error_iff {content : Except ReadError ByteArray} {error : ReadError} :
    content.bind decodeText = .error error ↔
      content = .error error ∨
        error = .notText ∧ ∃ bytes, content = .ok bytes ∧ ¬ bytes.IsValidUTF8 := by
  cases content with
  | error failure =>
    have hread : (Except.error failure).bind decodeText = .error failure := rfl
    rw [hread]
    simp
  | ok bytes =>
    have hread : (Except.ok bytes).bind decodeText = decodeText bytes := rfl
    rw [hread, decodeText_eq_error_iff]
    simp

theorem unreadable_iff {content : Except ReadError ByteArray} :
    Unreadable content ↔ ∃ error, content.bind decodeText = .error error := by
  constructor
  · intro h
    cases hread : content.bind decodeText with
    | error error => exact ⟨error, rfl⟩
    | ok source => exact absurd (bind_decodeText_eq_ok_iff.mp hread) (h source)
  · rintro ⟨error, herror⟩ source hcontent
    have hread := bind_decodeText_eq_ok_iff.mpr hcontent
    rw [herror] at hread
    cases hread

/-! ## The two ways to take a file -/

theorem tokenizeFile_of_error {content : Except ReadError ByteArray} {error : ReadError}
    (h : content.bind decodeText = .error error) (console : Console) (out : Writer) :
    tokenizeFile content console out =
      { status := .ioError, console := console, out := out, unread := some error } := by
  unfold tokenizeFile
  rw [h]

/-- The status of a file that is a text, for whether all was printed and whether an error is
remembered. -/
def printedStatus (printed hadError : Bool) : Status :=
  if !printed then .ioError else if hadError then .dataError else .success

theorem tokenizeFile_of_text (source : String) (console : Console) (out : Writer) :
    tokenizeFile (.ok source.toUTF8) console out =
      { status := printedStatus (out.print (dump source)).1 (scan source console).2.hadError
        console := (scan source console).2
        out := (out.print (dump source)).2
        unread := none } := by
  have hread : (Except.ok source.toUTF8).bind decodeText = .ok source := decodeText_toUTF8 source
  unfold tokenizeFile
  simp only [hread, run_eq]
  rfl

theorem code_printedStatus (printed hadError : Bool) :
    (printedStatus printed hadError).code =
      if ¬ printed = true then 74 else if hadError = true then 65 else 0 := by
  cases printed <;> cases hadError <;> rfl

/-! ## Any file, any limits -/

/-- A fresh console after a scan. -/
theorem scan_fresh (source : String) (capacity flushes : Option Nat) :
    (scan source (Console.onto (.fresh capacity flushes))).2.writer.written =
        firstBytes capacity (renderAll (reportsOf source)).toUTF8 ∧
      (scan source (Console.onto (.fresh capacity flushes))).2.hadError =
        !(reportsOf source).isEmpty := by
  have hremaining : (Console.onto (.fresh capacity flushes)).writer.remaining = capacity :=
    Writer.remaining_fresh capacity flushes
  rw [scan_console, Writer.print_eq, hremaining]
  exact ⟨Writer.written_hold_fresh capacity flushes _, rfl⟩

/-- A fresh output after a text. -/
theorem print_fresh (text : String) (capacity flushes : Option Nat) :
    (Writer.fresh capacity flushes).print text =
      (decide (Fits capacity text.toUTF8),
        (Writer.fresh capacity flushes).hold (firstBytes capacity text.toUTF8)) := by
  rw [Writer.print_eq, Writer.remaining_fresh]

/-- Without limits a text is printed in full. -/
theorem tokenizeFile_unlimited (source : String) :
    (tokenizeFile (.ok source.toUTF8) (.onto .unbounded) .unbounded).status =
        (if reportsOf source = [] then .success else .dataError) ∧
      (tokenizeFile (.ok source.toUTF8) (.onto .unbounded) .unbounded).out.written =
        (dump source).toUTF8 ∧
      (tokenizeFile (.ok source.toUTF8) (.onto .unbounded) .unbounded).console.writer.written =
        (renderAll (reportsOf source)).toUTF8 ∧
      (tokenizeFile (.ok source.toUTF8) (.onto .unbounded) .unbounded).unread = none := by
  rcases scan_fresh source none none with ⟨hwritten, hflag⟩
  have hprint := print_fresh (dump source) none none
  have hstatus : printedStatus true (!(reportsOf source).isEmpty) =
      if reportsOf source = [] then .success else .dataError := by
    cases reportsOf source <;> rfl
  rw [tokenizeFile_of_text]
  unfold Writer.unbounded
  simp only [hwritten, hflag, hprint, ← hstatus]
  exact ⟨rfl, Writer.written_hold_fresh none none _, rfl, trivial⟩

/-- What the tokens of a file leave behind, however much the two writers take.  A file that is no
text is a failure to read and leaves nothing behind.  Of a text, the console has the first bytes of
all reports and remembers an error just if there is one, and the output has the first bytes of the
dump; the status tells of a dump that does not fit, and otherwise of an error.  So what is reported
does not depend on the output, nor the output and the status on the console's writer, and a run is
printed in full just if its dump fits. -/
theorem tokenizeFile_exact (content : Except ReadError ByteArray)
    (capacity flushes errorCapacity errorFlushes : Option Nat) :
    ∃ ending,
      tokenizeFile content (.onto (.fresh errorCapacity errorFlushes)) (.fresh capacity flushes) =
          ending ∧
      (Unreadable content ∧ ending.status.code = 74 ∧ ending.out.written = .empty ∧
          ending.console.writer.written = .empty ∧ ending.console.hadError = false ∨
        ∃ source : String, content = .ok source.toUTF8 ∧
          ending.console.writer.written =
            firstBytes errorCapacity (renderAll (reportsOf source)).toUTF8 ∧
          (ending.console.hadError = true ↔ reportsOf source ≠ []) ∧
          ending.out.written = firstBytes capacity (dump source).toUTF8 ∧
          ending.status.code =
            if ¬ Fits capacity (dump source).toUTF8 then 74
            else if ending.console.hadError then 65
            else 0) ∧
      (∀ capacity' flushes',
        (tokenizeFile content (.onto (.fresh errorCapacity errorFlushes))
          (.fresh capacity' flushes')).console = ending.console) ∧
      (∀ errorCapacity' errorFlushes', ∃ other,
        tokenizeFile content (.onto (.fresh errorCapacity' errorFlushes'))
            (.fresh capacity flushes) = other ∧
          other.out = ending.out ∧ other.status = ending.status) ∧
      ∀ source console, (run source console (.fresh capacity flushes)).ok = true ↔
        Fits capacity (dump source).toUTF8 := by
  have hrun : ∀ source console, (run source console (.fresh capacity flushes)).ok = true ↔
      Fits capacity (dump source).toUTF8 := by
    intro source console
    rw [run_eq, print_fresh]
    exact decide_eq_true_iff
  refine ⟨_, rfl, ?_⟩
  by_cases hunreadable : Unreadable content
  · -- nothing is touched, so there is nothing that could depend on a limit
    rcases unreadable_iff.mp hunreadable with ⟨error, herror⟩
    simp only [tokenizeFile_of_error herror]
    refine ⟨Or.inl ⟨hunreadable, rfl, rfl, rfl, rfl⟩, ?_, ?_, hrun⟩
    · intro capacity' flushes'
      trivial
    · intro errorCapacity' errorFlushes'
      exact ⟨_, rfl, rfl, rfl⟩
  · have htext : ∃ source : String, content = .ok source.toUTF8 := by
      simpa [Unreadable] using hunreadable
    rcases htext with ⟨source, rfl⟩
    rcases scan_fresh source errorCapacity errorFlushes with ⟨hwritten, hflag⟩
    simp only [tokenizeFile_of_text, print_fresh, code_printedStatus, decide_eq_true_iff]
    refine ⟨Or.inr ⟨source, rfl, hwritten, ?_, ?_, rfl⟩, ?_, ?_, hrun⟩
    · rw [hflag]
      simp
    · exact Writer.written_hold_fresh capacity flushes _
    · intro capacity' flushes'
      trivial
    · intro errorCapacity' errorFlushes'
      have hflag' := (scan_fresh source errorCapacity' errorFlushes').2
      refine ⟨_, rfl, rfl, ?_⟩
      rw [hflag, hflag']

end LoxTokens
