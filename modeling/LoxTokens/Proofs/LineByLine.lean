import LoxTokens.Proofs.Insertion
import LoxTokens.Proofs.Validity

/-!
# Scanning line by line

A text may be given as a file, which is scanned as a whole, or at the prompt, where it is scanned
line by line.  Both find the same, as long as no text is open at the end of a line.

- `Grammar.Cut.append_blanks` says that blanks at the end of an input are not noticed, so it does
  not matter that a line is read without its ending
- `tokensOfLines` and `reportsOfLines` are what the lines contribute
- `repl_of_text` is the prompt for a text; `tokenizeFile_unlimited` is the file mode
- `scan_line_by_line` is the result
-/

namespace LoxTokens

universe u

open Grammar

/-! ## Blanks at the end -/

/-- Blanks at the end of an input are not noticed, unless a text is open there. -/
theorem Grammar.Cut.append_blanks {input : List Char} {cut : List Segment} (h : Cut input cut)
    (hclosed : Closed cut) {blanks : List Char}
    (hblanks : ∀ c ∈ blanks, c ∈ [' ', '\r', '\t', '\n']) :
    ∃ cut', Cut (input ++ blanks) cut' ∧ Closed cut' ∧ SameFindings cut' cut := by
  have hend : CutTo (input ++ []) cut [] := by
    rw [List.append_nil]
    exact h.cutTo
  rcases hend.insert_blanks hclosed hblanks with ⟨cut', hcut, hclosed', hsame⟩
  rw [List.append_nil] at hcut
  exact ⟨cut', hcut.cut_of_nil, hclosed', hsame⟩

/-! ## One line and what follows it -/

/-- A line finds the same with its ending as without it. -/
theorem scan_append_blanks {line ending : String} (hclosed : ¬ ReportsUnterminated line)
    (hblanks : ∀ c ∈ ending.toList, c ∈ [' ', '\r', '\t', '\n']) :
    ¬ ReportsUnterminated (line ++ ending) ∧
      (tokensOf (line ++ ending)).dropLast = (tokensOf line).dropLast ∧
      reportsOf (line ++ ending) = reportsOf line := by
  rcases (cut_segments line).append_blanks (closed_segments hclosed) hblanks with
    ⟨cut, hcut, hclosed', hsame⟩
  rw [← String.toList_append] at hcut
  rw [cut_iff.mp hcut] at hclosed' hsame
  rcases hsame [] with ⟨htokens, hreports⟩
  refine ⟨?_, ?_, ?_⟩
  · intro hunterminated
    rcases reportsUnterminated_iff.mp hunterminated with ⟨s, hs, hshape⟩
    exact hclosed' s hs hshape
  · rw [dropLast_tokensOf, dropLast_tokensOf, htokens]
  · rw [reportsOf_eq, reportsOf_eq, hreports]

/-- A line with its ending, and then a text one line farther down. -/
theorem scan_line_append {line ending : String} (hline : '\n' ∉ line.toList)
    (hclosed : ¬ ReportsUnterminated line) (hending : ending = "\n" ∨ ending = "\r\n")
    (rest : String) :
    (tokensOf (line ++ ending ++ rest)).dropLast =
        (tokensOf line).dropLast ++ ((tokensOf rest).dropLast.map (Token.shift 1)) ∧
      reportsOf (line ++ ending ++ rest) =
        reportsOf line ++ (reportsOf rest).map (Diagnostic.shift 1) := by
  have hblanks : ∀ c ∈ ending.toList, c ∈ [' ', '\r', '\t', '\n'] := by
    have hall : ending.toList.all isBlank = true := by
      rcases hending with rfl | rfl <;> decide
    exact fun c hc => isBlank_iff.mp (List.all_eq_true.mp hall c hc)
  have hlast : (line ++ ending).toList.getLast? = some '\n' := by
    rw [String.toList_append, List.getLast?_append]
    rcases hending with rfl | rfl <;> rfl
  have hcount : (line ++ ending).toList.count '\n' = 1 := by
    rw [String.toList_append, List.count_append, List.count_eq_zero_of_not_mem hline]
    rcases hending with rfl | rfl <;> rfl
  rcases scan_append_blanks hclosed hblanks with ⟨hclosed', htokens, hreports⟩
  have hbegins := beginsAt_of_newline hlast hclosed' rest
  -- the end token is that of the rest
  have hne : (tokensOf rest).map (Token.shift 1) ≠ [] := by
    rw [tokensOf_eq]
    simp
  rw [tokensOf_append hbegins, reportsOf_append hbegins, hcount, htokens, hreports,
    List.dropLast_append_of_ne_nil hne, List.map_dropLast]
  exact ⟨rfl, rfl⟩

/-! ## All lines -/

/-- A token on a given line. -/
def Token.onLine (line : Nat) (t : Token) : Token :=
  { t with line := line }

/-- A report on a given line. -/
def Diagnostic.onLine (line : Nat) (d : Diagnostic) : Diagnostic :=
  { d with line := line }

/-- What is found in each line, on the line that has its number. -/
def foundInLines {β : Type u} (find : String → List β) (onLine : Nat → β → β)
    (lines : List String) : List β :=
  (lines.zipIdx 1).flatMap fun numbered => (find numbered.1).map (onLine numbered.2)

/-- The tokens of each line, end tokens apart, on the line that has its number. -/
def tokensOfLines (lines : List String) : List Token :=
  foundInLines (fun line => (tokensOf line).dropLast) Token.onLine lines

/-- The reports about each line, on the line that has its number. -/
def reportsOfLines (lines : List String) : List Diagnostic :=
  foundInLines reportsOf Diagnostic.onLine lines

/-- What is found in the first line stands on line one, and the others are numbered from there. -/
theorem foundInLines_cons {β : Type u} {find : String → List β} {onLine down : Nat → β → β}
    (h : ∀ number, onLine (number + 1) = down 1 ∘ onLine number) (line : String)
    (others : List String) :
    foundInLines find onLine (line :: others) =
      (find line).map (onLine 1) ++ (foundInLines find onLine others).map (down 1) := by
  unfold foundInLines
  rw [List.zipIdx_cons, List.flatMap_cons, List.zipIdx_succ, List.flatMap_map, List.map_flatMap]
  congr 1
  apply List.flatMap_congr
  intro numbered _
  rw [List.map_map, h]

theorem tokensOfLines_cons (line : String) (others : List String) :
    tokensOfLines (line :: others) =
      (tokensOf line).dropLast.map (Token.onLine 1) ++
        (tokensOfLines others).map (Token.shift 1) :=
  foundInLines_cons (fun _ => rfl) line others

theorem reportsOfLines_cons (line : String) (others : List String) :
    reportsOfLines (line :: others) =
      (reportsOf line).map (Diagnostic.onLine 1) ++
        (reportsOfLines others).map (Diagnostic.shift 1) :=
  foundInLines_cons (fun _ => rfl) line others

/-- All that is found in a text without a newline is found on the first line. -/
theorem line_of_notMem_newline {source : String} (h : '\n' ∉ source.toList) :
    (∀ t ∈ tokensOf source, t.line = 1) ∧ ∀ d ∈ reportsOf source, d.line = 1 := by
  have hlast : lineAfter source.toList = 1 := by
    unfold lineAfter
    rw [List.count_eq_zero_of_not_mem h]
  rcases lines_scan source (#[] : Array Diagnostic) with ⟨htokens, -⟩
  rcases lines_reportsOf source with ⟨hreports, -⟩
  rw [hlast] at htokens hreports
  refine ⟨?_, ?_⟩
  · intro t ht
    exact Nat.le_antisymm (htokens t ht).2 (htokens t ht).1
  · intro d hd
    exact Nat.le_antisymm (hreports d hd).2 (hreports d hd).1

/-- What stands on a line already stays as it is when it is put there. -/
theorem map_onLine {β : Type u} {onLine : Nat → β → β} {line : β → Nat}
    (hself : ∀ b, onLine (line b) b = b) {found : List β} {number : Nat}
    (h : ∀ b ∈ found, line b = number) : found.map (onLine number) = found := by
  have hsame : ∀ b ∈ found, onLine number b = id b := by
    intro b hb
    rw [← h b hb, hself]
    rfl
  rw [List.map_congr_left hsame, List.map_id]

/-- What a scan of one line finds stands on line one. -/
theorem map_onLine_one {line : String} (h : '\n' ∉ line.toList) :
    (tokensOf line).dropLast.map (Token.onLine 1) = (tokensOf line).dropLast ∧
      (reportsOf line).map (Diagnostic.onLine 1) = reportsOf line := by
  rcases line_of_notMem_newline h with ⟨htokens, hreports⟩
  have htokens' : ∀ t ∈ (tokensOf line).dropLast, t.line = 1 :=
    fun t ht => htokens t (List.dropLast_subset _ ht)
  exact ⟨map_onLine (fun _ => rfl) htokens', map_onLine (fun _ => rfl) hreports⟩

/-- A text whose lines are scanned one by one finds the same as a whole. -/
def FoundByLines (text : String) (lines : List String) : Prop :=
  (tokensOf text).dropLast = tokensOfLines lines ∧ reportsOf text = reportsOfLines lines

theorem foundByLines_empty : FoundByLines "" [] := by
  have hcut : Cut "".toList [] := .done
  have hsegments : [] = segments "" := cut_iff.mp hcut
  unfold FoundByLines
  rw [dropLast_tokensOf, reportsOf_eq, ← hsegments]
  exact ⟨rfl, rfl⟩

theorem foundByLines_last {line : String} (hline : '\n' ∉ line.toList) :
    FoundByLines line [line] := by
  unfold FoundByLines
  rw [tokensOfLines_cons, reportsOfLines_cons, (map_onLine_one hline).1,
    (map_onLine_one hline).2]
  simp [tokensOfLines, reportsOfLines, foundInLines]

theorem FoundByLines.cons {line ending rest : String} {others : List String}
    (h : FoundByLines rest others) (hline : '\n' ∉ line.toList)
    (hclosed : ¬ ReportsUnterminated line) (hending : ending = "\n" ∨ ending = "\r\n") :
    FoundByLines (line ++ ending ++ rest) (line :: others) := by
  rcases scan_line_append hline hclosed hending rest with ⟨htokens, hreports⟩
  unfold FoundByLines
  rw [htokens, hreports, tokensOfLines_cons, reportsOfLines_cons, (map_onLine_one hline).1,
    (map_onLine_one hline).2, h.1, h.2]
  exact ⟨rfl, rfl⟩

/-- The induction goes over the lines; `FoundByLines.cons` cuts one line off. -/
theorem foundByLines_of_splitsInto {text : List Char} {lines : List (List Char)}
    (h : SplitsInto '\n' '\r' text lines)
    (hclosed : ∀ line ∈ lines, ¬ ReportsUnterminated (.ofList line)) :
    FoundByLines (.ofList text) (lines.map String.ofList) := by
  induction h with
  | done => exact foundByLines_empty
  | @last line _ hline =>
    rw [← String.toList_ofList (l := line)] at hline
    exact foundByLines_last hline
  | @bare line rest others hline _ _ ih =>
    have htext : String.ofList (line ++ '\n' :: rest) = .ofList line ++ "\n" ++ .ofList rest := by
      simp [← String.toList_inj]
    have hrest := ih fun other hother => hclosed other (List.mem_cons_of_mem line hother)
    rw [← String.toList_ofList (l := line)] at hline
    rw [htext, List.map_cons]
    exact hrest.cons hline (hclosed line List.mem_cons_self) (.inl rfl)
  | @returned line rest others hline _ ih =>
    have htext : String.ofList (line ++ '\r' :: '\n' :: rest) =
        .ofList line ++ "\r\n" ++ .ofList rest := by
      simp [← String.toList_inj]
    have hrest := ih fun other hother => hclosed other (List.mem_cons_of_mem line hother)
    rw [← String.toList_ofList (l := line)] at hline
    rw [htext, List.map_cons]
    exact hrest.cons hline (hclosed line List.mem_cons_self) (.inr rfl)

/-! ## The two modes -/

/-- A text is answered at the prompt in full, line by line. -/
theorem repl_of_text {text : String} {lines : List String}
    (h : inputLines text.toUTF8 = lines.map String.toUTF8) :
    (repl text.toUTF8 (.onto .unbounded) .unbounded).status = .success ∧
      (repl text.toUTF8 (.onto .unbounded) .unbounded).out.written = (transcript lines).toUTF8 ∧
      (repl text.toUTF8 (.onto .unbounded) .unbounded).console.writer.written =
        (renderLines lines).toUTF8 := by
  rcases exists_first_invalid text.toUTF8 with
    ⟨texts, others, hlines, hothers, hstatus, hprinted, hreported⟩
  have hnone : others = [] := (eq_nil_iff_isValidUTF8 hlines hothers).mpr text.isValidUTF8
  have htexts : texts = lines := by
    rw [h, hnone, List.append_nil] at hlines
    exact ((List.map_inj_right fun _ _ => String.toByteArray_inj.mp).mp hlines).symm
  rw [hnone, if_pos rfl] at hstatus
  rw [htexts] at hprinted hreported
  exact ⟨hstatus, hprinted, hreported⟩

/-- The file mode and the prompt agree.  Whatever the text, its bytes decode to it, and the lines in
which they are read decode to the lines of the text.  The prompt answers each line with the dump and
the reports of a scan of that line alone, and the file mode answers the whole with those of one
scan.  If no line leaves a text open, then the scan of the whole finds the tokens of the lines one
after the other, end tokens apart, and the reports about the lines one after the other, each on the
line that has its number; in a scan of one line they all stand on line one. -/
theorem scan_line_by_line (text : String) :
    ∃ lines : List String, ∃ session file : Ending,
      SplitsInto '\n' '\r' text.toList (lines.map String.toList) ∧
      decodeText text.toUTF8 = .ok text ∧
      (inputLines text.toUTF8).map decodeText = lines.map Except.ok ∧
      repl text.toUTF8 (.onto .unbounded) .unbounded = session ∧
      session.status.code = 0 ∧
      session.out.written = (transcript lines).toUTF8 ∧
      session.console.writer.written = (renderLines lines).toUTF8 ∧
      tokenizeFile (.ok text.toUTF8) (.onto .unbounded) .unbounded = file ∧
      (file.status.code = if reportsOf text = [] then 0 else 65) ∧
      file.out.written = (dump text).toUTF8 ∧
      file.console.writer.written = (renderAll (reportsOf text)).toUTF8 ∧
      ((∀ line ∈ lines, ¬ ReportsUnterminated line) →
        (tokensOf text).dropLast = tokensOfLines lines ∧
          reportsOf text = reportsOfLines lines ∧
          ∀ line ∈ lines,
            (∀ t ∈ tokensOf line, t.line = 1) ∧ ∀ d ∈ reportsOf line, d.line = 1) := by
  rcases exists_lines text with ⟨lines, hlines, hbytes⟩
  rcases repl_of_text hbytes with ⟨hended, hprompted, hlinewise⟩
  rcases tokenizeFile_unlimited text with ⟨hstatus, hprinted, hreported, -⟩
  refine ⟨lines, _, _, hlines, decodeText_toUTF8 text, ?_, rfl, ?_, hprompted, hlinewise, rfl, ?_,
    hprinted, hreported, ?_⟩
  · rw [hbytes, List.map_map]
    exact List.map_congr_left fun line _ => decodeText_toUTF8 line
  · rw [hended]
    rfl
  · rw [hstatus, apply_ite Status.code]
    rfl
  · intro hclosed
    have hsame : String.ofList ∘ String.toList = id := funext fun _ => String.ofList_toList
    have hclosed' : ∀ line ∈ lines.map String.toList, ¬ ReportsUnterminated (.ofList line) := by
      intro line hline
      rcases List.mem_map.mp hline with ⟨line, hmem, rfl⟩
      rw [String.ofList_toList]
      exact hclosed line hmem
    have hfound := foundByLines_of_splitsInto hlines hclosed'
    rw [String.ofList_toList, List.map_map, hsame, List.map_id] at hfound
    refine ⟨hfound.1, hfound.2, fun line hline => ?_⟩
    exact line_of_notMem_newline (hlines.notMem _ (List.mem_map_of_mem hline))

/-- Carriage returns before newlines and elsewhere, an empty line, a comment that ends its line, a
stray character, and a last line without a newline.  The character is reported on line one at the
prompt and on line three in the file. -/
theorem scan_line_by_line_returns :
    (∀ line ∈ ["var x = \"a\";", "", "x.1\r@ // \"", "1.5"], ¬ ReportsUnterminated line) ∧
      (tokensOf "var x = \"a\";\r\n\nx.1\r@ // \"\r\n1.5").dropLast =
        tokensOfLines ["var x = \"a\";", "", "x.1\r@ // \"", "1.5"] ∧
      reportsOf "var x = \"a\";\r\n\nx.1\r@ // \"\r\n1.5" =
        reportsOfLines ["var x = \"a\";", "", "x.1\r@ // \"", "1.5"] ∧
      (repl "var x = \"a\";\r\n\nx.1\r@ // \"\r\n1.5".toUTF8 (.onto .unbounded)
          .unbounded).console.writer.written =
        "[line 1] Error: Unexpected character '@'.\n".toUTF8 ∧
      (tokenizeFile (.ok "var x = \"a\";\r\n\nx.1\r@ // \"\r\n1.5".toUTF8) (.onto .unbounded)
          .unbounded).console.writer.written =
        "[line 3] Error: Unexpected character '@'.\n".toUTF8 := by
  have hclosed : ∀ line ∈ ["var x = \"a\";", "", "x.1\r@ // \"", "1.5"],
      ¬ ReportsUnterminated line := by
    decide +kernel
  rcases scan_line_by_line "var x = \"a\";\r\n\nx.1\r@ // \"\r\n1.5" with
    ⟨lines, _, _, -, -, hread, rfl, -, -, hprompt, rfl, -, -, hfile, hscan⟩
  have hbytes : (inputLines "var x = \"a\";\r\n\nx.1\r@ // \"\r\n1.5".toUTF8).map decodeText =
      ["var x = \"a\";", "", "x.1\r@ // \"", "1.5"].map Except.ok := by
    decide +kernel
  have hlines : ["var x = \"a\";", "", "x.1\r@ // \"", "1.5"] = lines := by
    rw [hbytes] at hread
    exact (List.map_inj_right fun _ _ => Except.ok.inj).mp hread
  subst hlines
  rcases hscan hclosed with ⟨htokens, hreports, -⟩
  refine ⟨hclosed, htokens, hreports, ?_, ?_⟩
  · rw [hprompt]
    decide +kernel
  · rw [hfile]
    decide +kernel

end LoxTokens
