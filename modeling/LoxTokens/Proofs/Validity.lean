import LoxTokens.Proofs.Rounds
import LoxTokens.Proofs.WholeFile

/-!
# Bytes that are no text

A file is decoded as a whole, and an input at the prompt line by line.  Both refuse the same bytes,
since a line end is never a part of another character.

- `isValidUTF8_iff_lines` says that an input is valid just if its lines are
- `exists_first_invalid` is a session at the prompt up to the first line that is not valid, and
  `code_tokenizeFile_iff` says when a file is refused
- `modes_refuse_alike` is the result
-/

namespace LoxTokens

/-! ## Valid bytes -/

theorem isValidUTF8_iff {bytes : ByteArray} :
    bytes.IsValidUTF8 ↔ ∃ text : String, bytes = text.toUTF8 := by
  constructor
  · intro h
    exact ⟨.ofByteArray bytes h, rfl⟩
  · rintro ⟨text, rfl⟩
    exact text.isValidUTF8

theorem isValidUTF8_of_mem_map {texts : List String} {bytes : ByteArray}
    (h : bytes ∈ texts.map String.toUTF8) : bytes.IsValidUTF8 := by
  rcases List.mem_map.mp h with ⟨text, -, rfl⟩
  exact text.isValidUTF8

/-- The induction is on the lines.  Line ends are valid by themselves, and valid bytes may be put
together. -/
theorem SplitsInto.isValidUTF8 {input : List UInt8} {lines : List (List UInt8)}
    (h : SplitsInto 10 13 input lines) (hlines : ∀ line ∈ lines, line.toByteArray.IsValidUTF8) :
    input.toByteArray.IsValidUTF8 := by
  induction h with
  | done => exact "".isValidUTF8
  | last _ _ => exact hlines _ List.mem_cons_self
  | @bare line rest others _ _ _ ih =>
    rcases List.forall_mem_cons.mp hlines with ⟨hline, hothers⟩
    have hend : [10].toByteArray.IsValidUTF8 := "\n".isValidUTF8
    rw [← List.singleton_append, List.toByteArray_append, List.toByteArray_append]
    exact hline.append (hend.append (ih hothers))
  | @returned line rest others _ _ ih =>
    rcases List.forall_mem_cons.mp hlines with ⟨hline, hothers⟩
    have hend : [13, 10].toByteArray.IsValidUTF8 := "\r\n".isValidUTF8
    have hsplit : 13 :: 10 :: rest = [13, 10] ++ rest := rfl
    rw [hsplit, List.toByteArray_append, List.toByteArray_append]
    exact hline.append (hend.append (ih hothers))

theorem toByteArray_toList_data (bytes : ByteArray) : bytes.data.toList.toByteArray = bytes := by
  ext1
  simp

/-- An input is valid just if each of its lines is valid. -/
theorem isValidUTF8_iff_lines (input : ByteArray) :
    input.IsValidUTF8 ↔ ∀ line ∈ inputLines input, line.IsValidUTF8 := by
  constructor
  · intro h
    rcases isValidUTF8_iff.mp h with ⟨text, rfl⟩
    rcases exists_lines text with ⟨lines, -, hlines⟩
    rw [hlines]
    exact fun line => isValidUTF8_of_mem_map
  · intro h
    rw [← toByteArray_toList_data input]
    apply (splitsInto_inputLines input).isValidUTF8
    intro line hline
    rcases List.mem_map.mp hline with ⟨bytes, hbytes, rfl⟩
    rw [toByteArray_toList_data]
    exact h bytes hbytes

/-! ## A session up to the first line that is not valid -/

theorem eq_map_toUTF8 {lines : List ByteArray} {texts : List String}
    (h : lines.map decodeText = texts.map Except.ok) : lines = texts.map String.toUTF8 := by
  induction texts generalizing lines with
  | nil => simpa using h
  | cons text texts ih =>
    rcases List.map_eq_cons_iff.mp h with ⟨line, others, rfl, hline, hothers⟩
    rw [List.map_cons, toUTF8_of_decodeText hline, ih hothers]

/-- A session at the prompt goes up to the first line that is not valid. -/
theorem exists_first_invalid (input : ByteArray) :
    ∃ texts others,
      inputLines input = texts.map String.toUTF8 ++ others ∧
      (∀ line ∈ others.head?, ¬ line.IsValidUTF8) ∧
      (repl input (.onto .unbounded) .unbounded).status =
        (if others = [] then .success else .ioError) ∧
      (repl input (.onto .unbounded) .unbounded).out.written = (transcript texts).toUTF8 ∧
      (repl input (.onto .unbounded) .unbounded).console.writer.written =
        (renderLines texts).toUTF8 := by
  rcases exists_unlimited_repl input with
    ⟨texts, unread, hmap, hunread, hstatus, hprinted, hreported, -⟩
  rcases List.map_eq_append_iff.mp hmap with ⟨front, others, hlines, hfront, rfl⟩
  refine ⟨texts, others, ?_, ?_, ?_, hprinted, hreported⟩
  · rw [hlines, eq_map_toUTF8 hfront]
  · intro line hline
    have hread : decodeText line = .error .notText := by
      apply hunread
      rw [List.head?_map, hline]
      rfl
    exact (decodeText_eq_error_iff.mp hread).2
  · simpa using hstatus

/-- Nothing is left unread just if the whole input is valid. -/
theorem eq_nil_iff_isValidUTF8 {input : ByteArray} {texts : List String} {others : List ByteArray}
    (hlines : inputLines input = texts.map String.toUTF8 ++ others)
    (hothers : ∀ line ∈ others.head?, ¬ line.IsValidUTF8) : others = [] ↔ input.IsValidUTF8 := by
  rw [isValidUTF8_iff_lines, hlines, List.forall_mem_append]
  cases others with
  | nil => exact iff_of_true rfl ⟨fun line => isValidUTF8_of_mem_map, nofun⟩
  | cons line others =>
    refine iff_of_false (List.cons_ne_nil line others) fun hall => ?_
    exact hothers line rfl (hall.2 line List.mem_cons_self)

/-! ## The two modes -/

theorem tokenizeFile_of_not_valid {input : ByteArray} (h : ¬ input.IsValidUTF8)
    (console : Console) (out : Writer) :
    tokenizeFile (.ok input) console out =
      { status := .ioError, console := console, out := out, unread := some .notText } :=
  tokenizeFile_of_error (bind_decodeText_eq_error_iff.mpr (.inr ⟨rfl, input, rfl, h⟩)) console out

/-- Without limits only what is not valid is a failure. -/
theorem code_tokenizeFile_iff (input : ByteArray) :
    (tokenizeFile (.ok input) (.onto .unbounded) .unbounded).status.code = 74 ↔
      ¬ input.IsValidUTF8 := by
  constructor
  · intro hcode hvalid
    rcases isValidUTF8_iff.mp hvalid with ⟨source, rfl⟩
    rw [(tokenizeFile_unlimited source).1] at hcode
    split at hcode <;> cases hcode
  · intro hinvalid
    rw [tokenizeFile_of_not_valid hinvalid]
    rfl

/-- The two modes refuse the same bytes.  An input is valid just if each of its lines is, and
without limits both modes fail to read just the inputs that are not valid.  The file is then refused
before anything is written.  At the prompt, the lines in front of the first one that is not valid
have been answered, and that line has been prompted for. -/
theorem modes_refuse_alike (input : ByteArray) :
    SplitsInto 10 13 input.data.toList
      ((inputLines input).map fun line => line.data.toList) ∧
    (input.IsValidUTF8 ↔ ∀ line ∈ inputLines input, line.IsValidUTF8) ∧
    ∃ session file,
      repl input (.onto .unbounded) .unbounded = session ∧
      tokenizeFile (.ok input) (.onto .unbounded) .unbounded = file ∧
      (session.status.code = 74 ↔ ¬ input.IsValidUTF8) ∧
      (file.status.code = 74 ↔ ¬ input.IsValidUTF8) ∧
      (¬ input.IsValidUTF8 →
        (∃ texts line others,
          inputLines input = texts.map String.toUTF8 ++ line :: others ∧
          ¬ line.IsValidUTF8 ∧
          session.out.written = (transcript texts).toUTF8 ∧
          session.console.writer.written = (renderLines texts).toUTF8) ∧
        file.out.written = .empty ∧
        file.console.writer.written = .empty) := by
  rcases exists_first_invalid input with
    ⟨texts, others, hlines, hothers, hstatus, hprinted, hreported⟩
  have hread := eq_nil_iff_isValidUTF8 hlines hothers
  refine ⟨splitsInto_inputLines input, isValidUTF8_iff_lines input, _, _, rfl, rfl, ?_,
    code_tokenizeFile_iff input, fun hinvalid => ⟨?_, ?_⟩⟩
  · rw [hstatus, ← hread]
    cases others with
    | nil => decide
    | cons line others => exact iff_of_true rfl (List.cons_ne_nil line others)
  · cases others with
    | nil => exact absurd (hread.mp rfl) hinvalid
    | cons line others =>
      exact ⟨texts, line, others, hlines, hothers line rfl, hprinted, hreported⟩
  · rw [tokenizeFile_of_not_valid hinvalid]
    exact ⟨rfl, rfl⟩

/-- A character of two bytes with a newline between them, behind a line with a fault. -/
theorem modes_refuse_split_character :
    ∃ input : ByteArray, input = ⟨#[64, 32, 49, 13, 10, 0xc3, 10, 0xa9]⟩ ∧
      ¬ input.IsValidUTF8 ∧
      (repl input (.onto .unbounded) .unbounded).status.code = 74 ∧
      (repl input (.onto .unbounded) .unbounded).out.written = (transcript ["@ 1"]).toUTF8 ∧
      (repl input (.onto .unbounded) .unbounded).console.writer.written =
        (renderLines ["@ 1"]).toUTF8 ∧
      (tokenizeFile (.ok input) (.onto .unbounded) .unbounded).status.code = 74 ∧
      (tokenizeFile (.ok input) (.onto .unbounded) .unbounded).out.written = .empty := by
  refine ⟨_, rfl, ?_⟩
  have hinvalid : ¬ ByteArray.IsValidUTF8 ⟨#[64, 32, 49, 13, 10, 0xc3, 10, 0xa9]⟩ := by
    decide +kernel
  have hinput : inputLines ⟨#[64, 32, 49, 13, 10, 0xc3, 10, 0xa9]⟩ =
      ["@ 1".toUTF8, ⟨#[0xc3]⟩, ⟨#[0xa9]⟩] := by
    decide +kernel
  rcases modes_refuse_alike ⟨#[64, 32, 49, 13, 10, 0xc3, 10, 0xa9]⟩ with
    ⟨-, -, _, _, rfl, rfl, hsession, hfile, hends⟩
  rcases hends hinvalid with
    ⟨⟨texts, line, others, hlines, hline, hprinted, hreported⟩, hnothing, -⟩
  have htexts : texts = ["@ 1"] := by
    rw [hinput] at hlines
    rcases texts with _ | ⟨text, _ | ⟨text', texts⟩⟩
    · cases hlines
      exact absurd "@ 1".isValidUTF8 hline
    · have hfirst : "@ 1".toUTF8 = text.toUTF8 := (List.cons.inj hlines).1
      rw [String.toByteArray_inj.mp hfirst]
    · have hsecond : (⟨#[0xc3]⟩ : ByteArray) = text'.toUTF8 :=
        (List.cons.inj (List.cons.inj hlines).2).1
      have hvalid : ByteArray.IsValidUTF8 ⟨#[0xc3]⟩ := by
        rw [hsecond]
        exact text'.isValidUTF8
      exact absurd hvalid (by decide +kernel)
  subst htexts
  exact ⟨hinvalid, hsession.mpr hinvalid, hprinted, hreported, hfile.mpr hinvalid, hnothing⟩

end LoxTokens
