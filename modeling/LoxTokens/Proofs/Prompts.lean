import LoxTokens.Modes
import LoxTokens.Proofs.InputLines
import LoxTokens.Proofs.Sinks

/-!
# Prompting for lines

What a session at the prompt leaves behind, wherever it stops: at a prompt that cannot be written or
flushed, at a line that is no text, in the middle of a dump, or at the end of the input.

- `transcript` is all that such a session may print
- `Prompted` says that the prompt for a line arrives
- `ReplEnds` is what is left behind, and `ReplEnds.cons` is one round
- `repl_exact` is the result for a whole input
-/

namespace LoxTokens

universe u

/-! ## What is shown -/

/-- A prompt, and the dump of the line that answers it. -/
def exchange (text : String) : String :=
  "> " ++ dump text

/-- An exchange for each of these lines, and one more prompt. -/
def transcript : List String → String
  | [] => "> "
  | text :: others => exchange text ++ transcript others

/-- The lines that are read before a flush fails. -/
def flushed (flushes : Option Nat) (texts : List String) : List String :=
  match flushes with
  | none => texts
  | some count => texts.take count

/-- The prompt for the line with this many lines before it arrives: there is room for all that is
shown up to it, and as many flushes succeed. -/
def Prompted (capacity flushes : Option Nat) (texts : List String) (before : Nat) : Prop :=
  Fits capacity (transcript (texts.take before)).toUTF8 ∧ ∀ count ∈ flushes, before < count

instance (capacity flushes : Option Nat) (texts : List String) :
    DecidablePred (Prompted capacity flushes texts) :=
  fun before => inferInstanceAs (Decidable
    (Fits capacity (transcript (texts.take before)).toUTF8 ∧ ∀ count ∈ flushes, before < count))

/-- The lines whose prompts arrive. -/
def promptedLines (capacity flushes : Option Nat) (texts : List String) : List String :=
  (texts.zipIdx.filter fun numbered => Prompted capacity flushes texts numbered.2).map Prod.fst

/-- The printed reports about lines, one line after the other. -/
def renderLines (texts : List String) : String :=
  .join (texts.map fun text => renderAll (reportsOf text))

/-- Everything shown begins with a prompt. -/
theorem exists_transcript (texts : List String) : ∃ more, transcript texts = "> " ++ more := by
  cases texts with
  | nil => exact ⟨"", by rw [transcript, String.append_empty]⟩
  | cons text others =>
    exact ⟨dump text ++ transcript others, by rw [transcript, exchange, String.append_assoc]⟩

/-- What is behind the first exchange has the room that is left behind it. -/
theorem fits_exchange_append_iff {capacity : Option Nat} {text more : String} :
    Fits capacity (exchange text ++ more).toUTF8 ↔
      Fits capacity (exchange text).toUTF8 ∧
        Fits (limitAfter capacity (exchange text).toUTF8.size) more.toUTF8 := by
  rw [toUTF8_append, fits_append_iff]

theorem fits_prompt_of_fits {capacity : Option Nat} {texts : List String}
    (h : Fits capacity (transcript texts).toUTF8) : Fits capacity "> ".toUTF8 := by
  rcases exists_transcript texts with ⟨more, hmore⟩
  rw [hmore, toUTF8_append] at h
  exact (fits_append_iff.mp h).1

/-! ## Prompts that arrive -/

/-- Numbers that begin at one may be tested as if they began at zero. -/
theorem filter_zipIdx_succ {α : Type u} (list : List α) (passes : Nat → Bool) :
    ((list.zipIdx 1).filter fun numbered => passes numbered.2).map Prod.fst =
      ((list.zipIdx).filter fun numbered => passes (numbered.2 + 1)).map Prod.fst := by
  rw [List.zipIdx_succ, List.filter_map, List.map_map]
  rfl

section Prompts

variable {capacity flushes : Option Nat} {text : String} {texts : List String}

theorem prompted_zero_iff :
    Prompted capacity flushes texts 0 ↔
      Fits capacity "> ".toUTF8 ∧ ∀ count ∈ flushes, 0 < count :=
  Iff.rfl

/-- No prompt arrives if the first one does not. -/
theorem Prompted.zero {before : Nat} (h : Prompted capacity flushes texts before) :
    Prompted capacity flushes texts 0 :=
  ⟨fits_prompt_of_fits h.1, fun count hcount => Nat.zero_lt_of_lt (h.2 count hcount)⟩

/-- Behind the first exchange everything begins anew, with less room and one flush less. -/
theorem prompted_succ_iff {before : Nat} :
    Prompted capacity flushes (text :: texts) (before + 1) ↔
      Fits capacity (exchange text).toUTF8 ∧
        Prompted (limitAfter capacity (exchange text).toUTF8.size) (limitAfter flushes 1) texts
          before := by
  have hflushes : (∀ count ∈ flushes, before + 1 < count) ↔
      ∀ count ∈ limitAfter flushes 1, before < count := by
    cases flushes with
    | none => simp [limitAfter]
    | some count =>
      simp only [limitAfter, Option.mem_def, Option.map_some, Option.some.injEq, forall_eq']
      omega
  unfold Prompted
  rw [List.take_succ_cons, transcript, fits_exchange_append_iff, hflushes, and_assoc]

/-- The last prompt arrives if no flush fails and there is room for everything. -/
theorem prompted_length_iff :
    Prompted capacity flushes texts texts.length ↔
      Fits capacity (transcript (flushed flushes texts)).toUTF8 ∧
        ∀ count ∈ flushes, texts.length + 1 ≤ count := by
  unfold Prompted
  rw [List.take_length]
  refine and_congr_left fun hflush => ?_
  have hflushed : flushed flushes texts = texts := by
    cases flushes with
    | none => rfl
    | some count => exact List.take_of_length_le (Nat.le_of_lt (hflush count rfl))
  rw [hflushed]

theorem promptedLines_of_not_prompted (h : ¬ Prompted capacity flushes texts 0) :
    promptedLines capacity flushes texts = [] := by
  unfold promptedLines
  rw [List.map_eq_nil_iff, List.filter_eq_nil_iff]
  intro numbered _ hprompted
  exact h (of_decide_eq_true hprompted).zero

/-- The first line is prompted for if its prompt arrives, and the others if the first exchange is
printed in full and their prompts arrive behind it. -/
theorem promptedLines_cons :
    promptedLines capacity flushes (text :: texts) =
      (if Prompted capacity flushes (text :: texts) 0 then [text] else []) ++
        (if Fits capacity (exchange text).toUTF8 then
          promptedLines (limitAfter capacity (exchange text).toUTF8.size) (limitAfter flushes 1)
            texts
        else []) := by
  have hfirst : promptedLines capacity flushes (text :: texts) =
      (if Prompted capacity flushes (text :: texts) 0 then [text] else []) ++
        ((texts.zipIdx 1).filter fun numbered =>
          Prompted capacity flushes (text :: texts) numbered.2).map Prod.fst := by
    unfold promptedLines
    rw [List.zipIdx_cons, List.filter_cons]
    by_cases hzero : Prompted capacity flushes (text :: texts) 0 <;> simp [hzero]
  rw [hfirst,
    filter_zipIdx_succ texts fun before => Prompted capacity flushes (text :: texts) before]
  congr 1
  -- the others have one line more before them, which is what the first exchange accounts for
  simp only [prompted_succ_iff]
  by_cases hfits : Fits capacity (exchange text).toUTF8
  · simp only [hfits, true_and, if_true]
    rfl
  · simp only [hfits, false_and, if_false, decide_false]
    exact List.map_eq_nil_iff.mpr (List.filter_eq_nil_iff.mpr fun _ _ => Bool.false_ne_true)

end Prompts

/-! ## Showing the prompt -/

namespace Writer

/-- A flush that succeeds is one flush less. -/
theorem flush_of_pos {w : Writer} (h : ∀ count ∈ w.flushes, 0 < count) :
    w.flush = (true, { w with flushes := limitAfter w.flushes 1 }) := by
  rcases w with ⟨written, capacity, flushes⟩
  cases flushes with
  | none => rfl
  | some count =>
    cases count with
    | zero => exact absurd (h 0 rfl) (Nat.lt_irrefl 0)
    | succ left => rfl

theorem flush_of_not_pos {w : Writer} (h : ¬ ∀ count ∈ w.flushes, 0 < count) :
    w.flush = (false, w) := by
  rcases w with ⟨written, capacity, flushes⟩
  cases flushes with
  | none => exact absurd nofun h
  | some count =>
    cases count with
    | zero => rfl
    | succ left => exact absurd (by simp) h

theorem prompt_of_prompted {w : Writer} (hfits : Fits w.remaining "> ".toUTF8)
    (hflush : ∀ count ∈ w.flushes, 0 < count) :
    w.prompt = (true, { w.hold "> ".toUTF8 with flushes := limitAfter w.flushes 1 }) := by
  unfold prompt
  rw [print_eq, firstBytes_of_fits hfits, decide_eq_true hfits]
  exact flush_of_pos hflush

/-- A prompt that does not arrive is cut short, or shown in full and not flushed. -/
theorem prompt_of_not_prompted {w : Writer}
    (h : ¬ (Fits w.remaining "> ".toUTF8 ∧ ∀ count ∈ w.flushes, 0 < count)) :
    w.prompt = (false, w.hold (firstBytes w.remaining "> ".toUTF8)) := by
  unfold prompt
  rw [print_eq]
  by_cases hfits : Fits w.remaining "> ".toUTF8
  · rw [decide_eq_true hfits]
    exact flush_of_not_pos fun hflush => h ⟨hfits, hflush⟩
  · rw [decide_eq_false hfits]

end Writer

/-! ## One round -/

/-- What a session leaves behind, for the console and the output with which it began and the lines
that it could read, which may be all. -/
structure ReplEnds (console : Console) (out : Writer) (texts : List String) (readAll : Prop)
    (ending : Ending) : Prop where
  printed : ending.out.written =
    out.written ++ firstBytes out.remaining (transcript (flushed out.flushes texts)).toUTF8
  reported : ending.console.writer =
    (console.writer.print (renderLines (promptedLines out.remaining out.flushes texts))).2
  status : ending.status = .success ∨ ending.status = .ioError
  success : ending.status = .success ↔
    readAll ∧ Prompted out.remaining out.flushes texts texts.length
  hadError : ending.console.hadError = true ↔
    ∃ before text, texts[before]? = some text ∧
      Prompted out.remaining out.flushes texts before ∧
      ¬ Fits out.remaining (transcript (texts.take before) ++ dump text).toUTF8 ∧
      reportsOf text ≠ []

section Rounds

variable {console : Console} {out : Writer} {text : String} {texts : List String}
  {readAll : Prop}

theorem renderLines_cons (text : String) (others : List String) :
    renderLines (text :: others) = renderAll (reportsOf text) ++ renderLines others :=
  String.join_cons

theorem print_renderLines_nil (w : Writer) : (w.print (renderLines [])).2 = w := by
  have hnone : renderLines [] = "" := rfl
  rw [hnone, Writer.print_empty]

/-- The first prompt does not arrive. -/
theorem replEnds_of_not_prompted (hclean : console.hadError = false)
    (h : ¬ Prompted out.remaining out.flushes texts 0) :
    ReplEnds console out texts readAll
      { status := .ioError, console := console, out := out.prompt.2, unread := none } where
  printed := by
    rw [Writer.prompt_of_not_prompted h]
    by_cases hfits : Fits out.remaining "> ".toUTF8
    · -- the flush fails, so there is nothing behind the first prompt
      have hflushed : flushed out.flushes texts = [] := by
        cases hflushes : out.flushes with
        | none => exact absurd ⟨hfits, by simp [hflushes]⟩ h
        | some count =>
          cases count with
          | zero => rfl
          | succ left => exact absurd ⟨hfits, by simp [hflushes]⟩ h
      rw [hflushed]
      rfl
    · rcases exists_transcript (flushed out.flushes texts) with ⟨more, hmore⟩
      rw [hmore, toUTF8_append, firstBytes_append_of_not_fits hfits]
      rfl
  reported := by
    rw [promptedLines_of_not_prompted h, print_renderLines_nil]
  status := Or.inr rfl
  success := by
    exact iff_of_false nofun fun hall => h hall.2.zero
  hadError := by
    simp only [hclean, Bool.false_eq_true, false_iff]
    rintro ⟨before, text, -, hprompted, -⟩
    exact h hprompted.zero

/-- The first prompt arrives, and there is no line to read behind it. -/
theorem replEnds_nil (hclean : console.hadError = false)
    (h : Prompted out.remaining out.flushes [] 0) {status : Status} {unread : Option ReadError}
    (hstatus : status = .success ∧ readAll ∨ status = .ioError ∧ ¬ readAll) :
    ReplEnds console out [] readAll
      { status := status, console := console, out := out.prompt.2, unread := unread } where
  printed := by
    have hflushed : flushed out.flushes [] = [] := by
      unfold flushed
      split <;> simp
    have hfits : Fits out.remaining "> ".toUTF8 := (prompted_zero_iff.mp h).1
    rw [Writer.prompt_of_prompted hfits h.2, hflushed, transcript, firstBytes_of_fits hfits]
    rfl
  reported := (print_renderLines_nil console.writer).symm
  status := hstatus.imp And.left And.left
  success := by
    rcases hstatus with ⟨rfl, hread⟩ | ⟨rfl, hread⟩
    · exact iff_of_true rfl ⟨hread, h⟩
    · exact iff_of_false nofun fun hall => hread hall.1
  hadError := by
    simp only [hclean, Bool.false_eq_true, false_iff]
    rintro ⟨before, text, hmem, -⟩
    simp at hmem

theorem flushed_cons {flushes : Option Nat} (h : ∀ count ∈ flushes, 0 < count) :
    flushed flushes (text :: texts) = text :: flushed (limitAfter flushes 1) texts := by
  cases flushes with
  | none => rfl
  | some count =>
    cases count with
    | zero => exact absurd (h 0 rfl) (Nat.lt_irrefl 0)
    | succ left => rfl

/-- The output behind a prompt that arrived and a dump, which may have been cut short. -/
theorem print_dump_prompt (h : Prompted out.remaining out.flushes (text :: texts) 0) :
    out.prompt.2.print (dump text) =
      (decide (Fits out.remaining (exchange text).toUTF8),
        { out.hold (firstBytes out.remaining (exchange text).toUTF8) with
          flushes := limitAfter out.flushes 1 }) := by
  have hfits : Fits out.remaining "> ".toUTF8 := (prompted_zero_iff.mp h).1
  have hremaining : { out.hold "> ".toUTF8 with flushes := limitAfter out.flushes 1 }.remaining =
      limitAfter out.remaining "> ".toUTF8.size :=
    out.remaining_hold "> ".toUTF8
  rw [Writer.prompt_of_prompted hfits h.2, Writer.print_eq, hremaining, exchange, toUTF8_append,
    firstBytes_append, firstBytes_of_fits hfits, ← Writer.hold_hold]
  simp only [fits_append_iff, hfits, true_and]
  rfl

/-- The dump of the first line is cut short. -/
theorem replEnds_of_not_fits (hclean : console.hadError = false)
    (h : Prompted out.remaining out.flushes (text :: texts) 0)
    (hcut : ¬ Fits out.remaining (exchange text).toUTF8) :
    ReplEnds console out (text :: texts) readAll
      { status := .ioError
        console := (scan text console).2
        out := (out.prompt.2.print (dump text)).2
        unread := none } where
  printed := by
    rw [print_dump_prompt h, flushed_cons h.2, transcript, toUTF8_append,
      firstBytes_append_of_not_fits hcut]
    rfl
  reported := by
    rw [promptedLines_cons, if_pos h, if_neg hcut, scan_console, renderLines]
    simp
  status := Or.inr rfl
  success := by
    exact iff_of_false nofun fun hall => hcut (prompted_succ_iff.mp hall.2).1
  hadError := by
    rw [scan_console]
    simp only [hclean, Bool.false_or, Bool.not_eq_true', List.isEmpty_eq_false_iff]
    constructor
    · intro hreports
      exact ⟨0, text, rfl, h, hcut, hreports⟩
    · rintro ⟨before, other, hmem, hprompted, -, hreports⟩
      cases before with
      | zero =>
        cases hmem
        exact hreports
      | succ before => exact absurd (prompted_succ_iff.mp hprompted).1 hcut

/-- The first line is answered in full, and what the others leave behind is left behind. -/
theorem ReplEnds.cons {after : Writer} {ending : Ending}
    (hends : ReplEnds (scan text console).2.reset after texts readAll ending)
    (h : Prompted out.remaining out.flushes (text :: texts) 0)
    (hfits : Fits out.remaining (exchange text).toUTF8)
    (hwritten : after.written = out.written ++ (exchange text).toUTF8)
    (hremaining : after.remaining = limitAfter out.remaining (exchange text).toUTF8.size)
    (hflushes : after.flushes = limitAfter out.flushes 1) :
    ReplEnds console out (text :: texts) readAll ending where
  printed := by
    rw [hends.printed, hwritten, hremaining, hflushes, flushed_cons h.2, transcript, toUTF8_append,
      firstBytes_append, firstBytes_of_fits hfits, ByteArray.append_assoc]
  reported := by
    have hwriter : (scan text console).2.reset.writer =
        (console.writer.print (renderAll (reportsOf text))).2 := by
      rw [scan_console]
      rfl
    rw [hends.reported, hwriter, Writer.print_print_snd, hremaining, hflushes, promptedLines_cons,
      if_pos h, if_pos hfits, List.singleton_append, renderLines_cons]
  status := hends.status
  success := by
    rw [hends.success, hremaining, hflushes, List.length_cons, prompted_succ_iff,
      and_iff_right hfits]
  hadError := by
    -- the dump of a later line is cut short if it is so behind the first exchange
    have hcut : ∀ (before : Nat) (other : String),
        Fits out.remaining
            (transcript ((text :: texts).take (before + 1)) ++ dump other).toUTF8 ↔
          Fits after.remaining (transcript (texts.take before) ++ dump other).toUTF8 := by
      intro before other
      rw [hremaining, List.take_succ_cons, transcript, String.append_assoc,
        fits_exchange_append_iff, and_iff_right hfits]
    rw [hends.hadError]
    constructor
    · rintro ⟨before, other, hmem, hprompted, hshort, hreports⟩
      rw [hremaining, hflushes] at hprompted
      exact ⟨before + 1, other, hmem, prompted_succ_iff.mpr ⟨hfits, hprompted⟩,
        (hcut before other).not.mpr hshort, hreports⟩
    · rintro ⟨before, other, hmem, hprompted, hshort, hreports⟩
      cases before with
      | zero =>
        cases hmem
        exact absurd hfits hshort
      | succ before =>
        rw [prompted_succ_iff, ← hremaining, ← hflushes] at hprompted
        exact ⟨before, other, hmem, hprompted.2, (hcut before other).not.mp hshort, hreports⟩

end Rounds

/-! ## All rounds -/

section Lines

variable {console : Console} {out : Writer} {texts : List String} {line : ByteArray}
  {others : List ByteArray}

theorem takeTurn_of_error {error : ReadError} (hline : decodeText line = .error error) :
    takeTurn console out line =
      .ends { status := .ioError, console := console, out := out, unread := some error } := by
  unfold takeTurn
  rw [hline]

/-- The turn of a line that is a text, which ends the session if its dump is cut short. -/
theorem takeTurn_of_ok {text : String} (hline : decodeText line = .ok text) :
    takeTurn console out line =
      if (out.print (dump text)).1 then
        .goesOn (scan text console).2.reset (out.print (dump text)).2
      else
        .ends
          { status := .ioError
            console := (scan text console).2
            out := (out.print (dump text)).2
            unread := none } := by
  unfold takeTurn
  simp only [hline, run_eq]

theorem replLines_of_not_prompted (h : ¬ Prompted out.remaining out.flushes texts 0)
    (lines : List ByteArray) :
    replLines console out lines =
      { status := .ioError, console := console, out := out.prompt.2, unread := none } := by
  have hprompt : out.prompt = (false, out.prompt.2) := by
    rw [Writer.prompt_of_not_prompted h]
  unfold replLines
  rw [hprompt]

theorem prompt_of_prompted_zero (h : Prompted out.remaining out.flushes texts 0) :
    out.prompt = (true, out.prompt.2) := by
  rw [Writer.prompt_of_prompted (prompted_zero_iff.mp h).1 h.2]

theorem replLines_nil (h : Prompted out.remaining out.flushes texts 0) :
    replLines console out [] =
      { status := .success, console := console, out := out.prompt.2, unread := none } := by
  unfold replLines
  rw [prompt_of_prompted_zero h]

theorem replLines_cons_of_error (h : Prompted out.remaining out.flushes texts 0)
    {error : ReadError} (hline : decodeText line = .error error) :
    replLines console out (line :: others) =
      { status := .ioError, console := console, out := out.prompt.2, unread := some error } := by
  unfold replLines
  rw [prompt_of_prompted_zero h]
  simp only [takeTurn_of_error hline]

theorem replLines_cons_of_ok (h : Prompted out.remaining out.flushes texts 0) {text : String}
    (hline : decodeText line = .ok text) :
    replLines console out (line :: others) =
      if (out.prompt.2.print (dump text)).1 then
        replLines (scan text console).2.reset (out.prompt.2.print (dump text)).2 others
      else
        { status := .ioError
          console := (scan text console).2
          out := (out.prompt.2.print (dump text)).2
          unread := none } := by
  rw [replLines.eq_def, prompt_of_prompted_zero h]
  by_cases hprinted : (out.prompt.2.print (dump text)).1 = true
  · simp only [takeTurn_of_ok hline, if_pos hprinted]
  · simp only [takeTurn_of_ok hline, if_neg hprinted]

end Lines

/-- The induction is on the lines, with the console and the output generalised: each round begins
with a console that remembers no error. -/
theorem exists_replEnds (lines : List ByteArray) :
    ∃ texts unread,
      lines.map decodeText = texts.map Except.ok ++ unread ∧
      (∀ result ∈ unread.head?, result = .error .notText) ∧
      ∀ (console : Console) (out : Writer), console.hadError = false →
        ReplEnds console out texts (unread = []) (replLines console out lines) := by
  induction lines with
  | nil =>
    refine ⟨[], [], rfl, nofun, fun console out hclean => ?_⟩
    by_cases h : Prompted out.remaining out.flushes [] 0
    · rw [replLines_nil h]
      exact replEnds_nil hclean h (.inl ⟨rfl, rfl⟩)
    · rw [replLines_of_not_prompted h]
      exact replEnds_of_not_prompted hclean h
  | cons line others ih =>
    cases hline : decodeText line with
    | error error =>
      -- nothing is read behind a line that is no text
      refine ⟨[], .error error :: others.map decodeText, ?_, ?_, fun console out hclean => ?_⟩
      · rw [List.map_cons, hline]
        rfl
      · intro result hresult
        cases hresult
        rw [(decodeText_eq_error_iff.mp hline).1]
      · by_cases h : Prompted out.remaining out.flushes [] 0
        · rw [replLines_cons_of_error h hline]
          exact replEnds_nil hclean h (.inr ⟨rfl, nofun⟩)
        · rw [replLines_of_not_prompted h]
          exact replEnds_of_not_prompted hclean h
    | ok text =>
      rcases ih with ⟨texts, unread, hmap, hunread, hends⟩
      refine ⟨text :: texts, unread, ?_, hunread, fun console out hclean => ?_⟩
      · rw [List.map_cons, hline, hmap]
        rfl
      · by_cases h : Prompted out.remaining out.flushes (text :: texts) 0
        · rw [replLines_cons_of_ok h hline]
          by_cases hfits : Fits out.remaining (exchange text).toUTF8
          · have hprint := print_dump_prompt h
            rw [firstBytes_of_fits hfits, decide_eq_true hfits] at hprint
            rw [hprint, if_pos rfl]
            exact (hends (scan text console).2.reset _ rfl).cons h hfits rfl
              (out.remaining_hold _) rfl
          · have hprint := print_dump_prompt h
            rw [decide_eq_false hfits] at hprint
            rw [if_neg (by rw [hprint]; exact Bool.false_ne_true)]
            exact replEnds_of_not_fits hclean h hfits
        · rw [replLines_of_not_prompted h]
          exact replEnds_of_not_prompted hclean h

/-- What a session at the prompt leaves behind, however much the two writers take and however many
flushes succeed.  The lines are those of the input.  The texts are the lines in front of the first
one that is no text, and there is no such line just if nothing is left unread.  The output has the
first bytes of the prompts and dumps for these lines, up to a prompt that is not flushed; the
console has the first bytes of the reports about the lines whose prompts arrive, each line in full.
The session succeeds just if every line is a text and everything is printed and flushed, and is
otherwise a failure to read or write.  An error is remembered just if the dump of a line that has
reports is cut short. -/
theorem repl_exact (input : ByteArray) (capacity flushes errorCapacity errorFlushes : Option Nat) :
    ∃ texts unread ending,
      SplitsInto 10 13 input.data.toList
        ((inputLines input).map fun line => line.data.toList) ∧
      (inputLines input).map decodeText = texts.map Except.ok ++ unread ∧
      (∀ result ∈ unread.head?, result = .error .notText) ∧
      repl input (.onto (.fresh errorCapacity errorFlushes)) (.fresh capacity flushes) = ending ∧
      ending.out.written = firstBytes capacity (transcript (flushed flushes texts)).toUTF8 ∧
      ending.console.writer.written =
        firstBytes errorCapacity (renderLines (promptedLines capacity flushes texts)).toUTF8 ∧
      (ending.status.code = 0 ↔
        unread = [] ∧ Fits capacity (transcript (flushed flushes texts)).toUTF8 ∧
          ∀ count ∈ flushes, texts.length + 1 ≤ count) ∧
      (ending.status.code = 0 ∨ ending.status.code = 74) ∧
      (ending.console.hadError = true ↔
        ∃ before text, texts[before]? = some text ∧ Prompted capacity flushes texts before ∧
          ¬ Fits capacity (transcript (texts.take before) ++ dump text).toUTF8 ∧
          reportsOf text ≠ []) := by
  rcases exists_replEnds (inputLines input) with ⟨texts, unread, hmap, hunread, hends⟩
  have hall := hends (.onto (.fresh errorCapacity errorFlushes)) (.fresh capacity flushes) rfl
  have hflushes : (Writer.fresh capacity flushes).flushes = flushes := rfl
  have hcode : ∀ status : Status, status.code = 0 ↔ status = .success := by
    intro status
    cases status <;> decide
  refine ⟨texts, unread, _, splitsInto_inputLines input, hmap, hunread, rfl, ?_, ?_, ?_, ?_, ?_⟩
  · have hprinted := hall.printed
    rw [Writer.remaining_fresh, hflushes] at hprinted
    exact hprinted.trans ByteArray.empty_append
  · have hreported := hall.reported
    rw [Writer.remaining_fresh, hflushes] at hreported
    unfold repl
    rw [hreported, Writer.print_eq]
    unfold Console.onto
    rw [Writer.remaining_fresh, Writer.written_hold_fresh]
  · have hsuccess := hall.success
    rw [Writer.remaining_fresh, hflushes] at hsuccess
    rw [hcode, ← prompted_length_iff]
    exact hsuccess
  · rcases hall.status with hstatus | hstatus
    · exact Or.inl ((hcode _).mpr hstatus)
    · refine Or.inr ?_
      unfold repl
      rw [hstatus]
      rfl
  · have hflag := hall.hadError
    rwa [Writer.remaining_fresh, hflushes] at hflag

end LoxTokens
