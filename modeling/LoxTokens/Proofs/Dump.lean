import LoxTokens.Proofs.Sinks
import LoxTokens.Proofs.Spelling

/-!
# Reading printed tokens and reports back

Nothing is escaped in a printed token, and a text may hold newlines and what looks like another
token.  Still the printed form of a scan determines its tokens: the kind tells how far the lexeme
goes, and the literal follows from the two.  Of a report the message is what stands up to the end of
its line.

- `flatMap_inj` and `join_map_inj` take records apart that do not begin each other
- `Token.Spelled.eq_of_dumpLine_append` reads one token, `Diagnostic.Plain.eq_of_render_append`
  one report
- `dump_lossless` is the result
-/

namespace LoxTokens

universe u v

open Grammar

/-! ## Records -/

/-- What stands in front of a character is determined if the character does not stand in it. -/
theorem append_cons_inj {stop : Char} {front front' rest rest' : List Char} (h : stop ∉ front)
    (h' : stop ∉ front') (heq : front ++ stop :: rest = front' ++ stop :: rest') :
    front = front' ∧ rest = rest' := by
  have hstop : (stop != stop) = false := bne_self_eq_false stop
  have htake := congrArg (List.takeWhile (· != stop)) heq
  have hdrop := congrArg (List.dropWhile (· != stop)) heq
  rw [takeWhile_append_cons (forall_ne_of_notMem h) hstop,
    takeWhile_append_cons (forall_ne_of_notMem h') hstop] at htake
  rw [dropWhile_append_cons (forall_ne_of_notMem h) hstop,
    dropWhile_append_cons (forall_ne_of_notMem h') hstop, List.cons.injEq] at hdrop
  exact ⟨htake, hdrop.2⟩

/-- Records that are not empty, and of which none begins another, may be written one after the
other. -/
theorem flatMap_inj {α : Type u} {β : Type v} {code : α → List β} {Valid : α → Prop}
    (hne : ∀ a, Valid a → code a ≠ [])
    (hsplit : ∀ a b rest rest', Valid a → Valid b → code a ++ rest = code b ++ rest' → a = b)
    {list list' : List α} (h : ∀ a ∈ list, Valid a) (h' : ∀ a ∈ list', Valid a)
    (heq : list.flatMap code = list'.flatMap code) : list = list' := by
  induction list generalizing list' with
  | nil =>
    cases list' with
    | nil => rfl
    | cons b others' =>
      rw [List.flatMap_nil, List.flatMap_cons] at heq
      exact absurd (List.append_eq_nil_iff.mp heq.symm).1 (hne b (h' b List.mem_cons_self))
  | cons a others ih =>
    cases list' with
    | nil =>
      rw [List.flatMap_nil, List.flatMap_cons] at heq
      exact absurd (List.append_eq_nil_iff.mp heq).1 (hne a (h a List.mem_cons_self))
    | cons b others' =>
      rw [List.flatMap_cons, List.flatMap_cons] at heq
      have hfirst : a = b :=
        hsplit a b _ _ (h a List.mem_cons_self) (h' b List.mem_cons_self) heq
      subst hfirst
      rw [ih (fun c hc => h c (List.mem_cons_of_mem a hc))
        (fun c hc => h' c (List.mem_cons_of_mem a hc)) (List.append_cancel_left heq)]

/-- The same for records that are printed. -/
theorem join_map_inj {α : Type u} {print : α → String} {Valid : α → Prop}
    (hne : ∀ a, Valid a → (print a).toList ≠ [])
    (hsplit : ∀ a b rest rest', Valid a → Valid b →
      (print a).toList ++ rest = (print b).toList ++ rest' → a = b)
    {list list' : List α} (h : ∀ a ∈ list, Valid a) (h' : ∀ a ∈ list', Valid a)
    (heq : String.join (list.map print) = String.join (list'.map print)) : list = list' := by
  have hlist := congrArg String.toList heq
  rw [String.toList_join, String.toList_join, List.flatMap_map, List.flatMap_map] at hlist
  exact flatMap_inj hne hsplit h h' hlist

/-! ## Fields -/

/-- A number is written in digits. -/
theorem notMem_repr {c : Char} (hc : c.isDigit = false) (number : Nat) :
    c ∉ number.repr.toList := by
  intro hmem
  rw [Nat.toList_repr] at hmem
  have hdigit := Nat.isDigit_of_mem_toDigits (by decide) (by decide) hmem
  rw [hc] at hdigit
  exact nomatch hdigit

theorem eq_of_toList_repr {number number' : Nat}
    (h : number.repr.toList = number'.repr.toList) : number = number' := by
  rw [Nat.toList_repr, Nat.toList_repr] at h
  have hvalue := congrArg (fun digits => Nat.ofDigitChars 10 digits 0) h
  simpa only [Nat.ofDigitChars_ten_toDigits] using hvalue

theorem ofName?_name (kind : TokenKind) : TokenKind.ofName? kind.name = some kind := by
  cases kind <;> decide

theorem name_injective {kind kind' : TokenKind} (h : kind.name = kind'.name) : kind = kind' := by
  have hsome : some kind = some kind' := by
    rw [← ofName?_name kind, ← ofName?_name kind', h]
  exact Option.some.inj hsome

theorem notMem_name (kind : TokenKind) : ' ' ∉ kind.name.toList := by
  cases kind <;> decide

namespace Token.Spelled

theorem exists_body {t : Token} (h : t.Spelled) (hkind : t.kind = .text) :
    ∃ body, '"' ∉ body ∧ t.lexeme.toList = '"' :: (body ++ ['"']) := by
  cases h with
  | eof => cases hkind
  | @lexeme kind text line hmatches =>
    have htext : kind = .text := hkind
    rw [htext] at hmatches
    rcases matches_text_iff.mp hmatches with ⟨body, hbody, rfl⟩
    exact ⟨body, hbody, String.toList_ofList⟩

/-- Only a text has a space in it. -/
theorem notMem_lexeme {t : Token} (h : t.Spelled) (hkind : t.kind ≠ .text) :
    ' ' ∉ t.lexeme.toList := by
  cases h with
  | eof => exact nofun
  | @lexeme kind text line hmatches =>
    have hlist : (Token.ofLexeme kind text line).lexeme.toList = text := String.toList_ofList
    rw [hlist]
    intro hmem
    rcases text with _ | ⟨first, text⟩
    · exact nomatch hmem
    rcases List.mem_cons.mp hmem with rfl | hmem
    · -- a space in front is a segment by itself
      have hcontinues : Lead.blank.Continues ' ' (.token kind) text :=
        continues_of_matches hmatches
      exact nomatch hcontinues.1
    · rcases hmatches.over_separator hmem (by decide) with hshape | ⟨hshape, -⟩
      · cases hshape
        exact hkind rfl
      · exact nomatch hshape

/-- The kind tells where a lexeme ends. -/
theorem lexeme_eq_of_append {t u : Token} (h : t.Spelled) (h' : u.Spelled)
    (hkind : t.kind = u.kind) {rest rest' : List Char}
    (heq : t.lexeme.toList ++ ' ' :: rest = u.lexeme.toList ++ ' ' :: rest') :
    t.lexeme = u.lexeme ∧ rest = rest' := by
  by_cases htext : t.kind = .text
  · -- a text ends at its second quote
    rcases h.exists_body htext with ⟨body, hbody, hlexeme⟩
    rcases h'.exists_body (hkind ▸ htext) with ⟨body', hbody', hlexeme'⟩
    rw [hlexeme, hlexeme'] at heq
    simp only [List.cons_append, List.append_assoc, List.nil_append, List.cons.injEq,
      true_and] at heq
    rcases append_cons_inj hbody hbody' heq with ⟨rfl, hrest⟩
    rw [List.cons.injEq] at hrest
    exact ⟨String.toList_injective (hlexeme.trans hlexeme'.symm), hrest.2⟩
  · -- any other lexeme ends at the first space
    have htext' : u.kind ≠ .text := fun hu => htext (hkind.trans hu)
    rcases append_cons_inj (h.notMem_lexeme htext) (h'.notMem_lexeme htext') heq with
      ⟨hlexeme, hrest⟩
    exact ⟨String.toList_injective hlexeme, hrest⟩

end Token.Spelled

/-! ## Printed tokens -/

theorem toList_dumpLine (t : Token) :
    t.dumpLine.toList =
      t.kind.name.toList ++ ' ' :: (t.lexeme.toList ++ ' ' :: (t.line.repr.toList ++
        ' ' :: (t.literal.display.toList ++ ['\n']))) := by
  simp [Token.dumpLine, Token.display, String.toList_append]

theorem Token.Spelled.eq_of_dumpLine_append {t u : Token} {rest rest' : List Char}
    (h : t.Spelled) (h' : u.Spelled)
    (heq : t.dumpLine.toList ++ rest = u.dumpLine.toList ++ rest') : t = u := by
  rw [toList_dumpLine, toList_dumpLine] at heq
  simp only [List.append_assoc, List.cons_append] at heq
  -- the fields are read one after the other
  rcases append_cons_inj (notMem_name t.kind) (notMem_name u.kind) heq with ⟨hname, hlexemes⟩
  have hkind : t.kind = u.kind := name_injective (String.toList_injective hname)
  rcases h.lexeme_eq_of_append h' hkind hlexemes with ⟨hlexeme, hlines⟩
  rcases append_cons_inj (notMem_repr rfl t.line) (notMem_repr rfl u.line) hlines with ⟨hrepr, -⟩
  have hline : t.line = u.line := eq_of_toList_repr hrepr
  -- the literal is not read: it follows from the lexeme
  have hliteral : t.literal = u.literal :=
    congrArg (fun content => content.2.2) (h.content_eq h' hlexeme)
  cases t
  cases u
  rw [Token.mk.injEq]
  exact ⟨hkind, hlexeme, hliteral, hline⟩

theorem dumpLine_ne_nil (t : Token) : t.dumpLine.toList ≠ [] := by
  rw [toList_dumpLine]
  simp

theorem tokensOf_eq_of_dump_eq {source source' : String} (h : dump source = dump source') :
    tokensOf source = tokensOf source' :=
  join_map_inj (fun t _ => dumpLine_ne_nil t)
    (fun _ _ _ _ ht hu hsplit => ht.eq_of_dumpLine_append hu hsplit)
    (fun _ ht => spelled_of_mem_tokensOf ht) (fun _ ht => spelled_of_mem_tokensOf ht) h

/-! ## Printed reports -/

/-- Reports about scans have no remark on the place, and their messages do not go over a line. -/
structure Diagnostic.Plain (d : Diagnostic) : Prop where
  place : d.place = ""
  message : '\n' ∉ d.message.toList

theorem notMem_message {input rest before : List Char} {s : Segment} {error : LexicalError}
    (h : Begins input s rest) (herror : s.error? before = some error) :
    '\n' ∉ error.message.toList := by
  unfold Segment.error? at herror
  cases hshape : s.shape with rw [hshape] at herror
  | stray c =>
    cases herror
    have hne := h.ne_newline_of_stray hshape
    have hfront : '\n' ∉ "Unexpected character '".toList := by decide
    have hback : '\n' ∉ "'.".toList := by decide
    unfold LexicalError.message
    rw [String.toList_append, String.toList_append, String.toList_singleton]
    simp only [List.mem_append, List.mem_singleton, not_or]
    exact ⟨⟨hfront, hne.symm⟩, hback⟩
  | openText =>
    cases herror
    have hmessage : '\n' ∉ "Unterminated string.".toList := by decide
    exact hmessage
  | _ => cases herror

theorem plain_of_mem_foundAfter {input : List Char} {cut : List Segment} (h : Cut input cut)
    {before : List Char} {d : Diagnostic} (hd : d ∈ foundAfter Segment.report? before cut) :
    d.Plain := by
  induction h generalizing before with
  | done => exact nomatch hd
  | @next input rest s others hbegins _ ih =>
    rw [foundAfter_cons, List.mem_append] at hd
    rcases hd with hd | hd
    · rcases Option.map_eq_some_iff.mp (Option.mem_toList.mp hd) with ⟨error, herror, rfl⟩
      exact ⟨rfl, notMem_message hbegins herror⟩
    · exact ih hd

theorem plain_of_mem_reportsOf {source : String} {d : Diagnostic} (h : d ∈ reportsOf source) :
    d.Plain := by
  rw [reportsOf_eq] at h
  exact plain_of_mem_foundAfter (cut_segments source) h

namespace Diagnostic.Plain

theorem toList_render {d : Diagnostic} (h : d.Plain) :
    d.render.toList =
      "[line ".toList ++ (d.line.repr.toList ++ ']' :: (" Error: ".toList ++
        (d.message.toList ++ ['\n']))) := by
  simp [Diagnostic.render, h.place, String.toList_append]

theorem render_ne_nil {d : Diagnostic} (h : d.Plain) : d.render.toList ≠ [] := by
  rw [h.toList_render]
  simp

theorem eq_of_render_append {d e : Diagnostic} {rest rest' : List Char} (h : d.Plain)
    (h' : e.Plain) (heq : d.render.toList ++ rest = e.render.toList ++ rest') : d = e := by
  rw [h.toList_render, h'.toList_render] at heq
  simp only [List.append_assoc, List.cons_append, List.append_cancel_left_eq] at heq
  rcases append_cons_inj (notMem_repr rfl d.line) (notMem_repr rfl e.line) heq with
    ⟨hrepr, hmessages⟩
  rw [List.append_cancel_left_eq] at hmessages
  rcases append_cons_inj h.message h'.message hmessages with ⟨hmessage, -⟩
  cases d
  cases e
  rw [Diagnostic.mk.injEq]
  exact ⟨eq_of_toList_repr hrepr, h.place.trans h'.place.symm, String.toList_injective hmessage⟩

/-- A report is a line, with the newline at its end and no other one. -/
theorem exists_line {d : Diagnostic} (h : d.Plain) :
    ∃ line, '\n' ∉ line.toList ∧ d.render = line ++ "\n" := by
  refine ⟨"[line " ++ d.line.repr ++ "] Error" ++ d.place ++ ": " ++ d.message, ?_, rfl⟩
  have hrepr : '\n' ∉ d.line.repr.toList := notMem_repr rfl d.line
  simp only [String.toList_append, List.mem_append, h.place, hrepr, h.message, not_or]
  decide

end Diagnostic.Plain

theorem reportsOf_eq_of_renderAll_eq {source source' : String}
    (h : renderAll (reportsOf source) = renderAll (reportsOf source')) :
    reportsOf source = reportsOf source' :=
  join_map_inj (fun _ hd => hd.render_ne_nil)
    (fun _ _ _ _ hd he hsplit => hd.eq_of_render_append he hsplit)
    (fun _ hd => plain_of_mem_reportsOf hd) (fun _ hd => plain_of_mem_reportsOf hd) h

/-! ## What is written -/

/-- A run that prints everything prints the whole dump. -/
theorem written_of_run_ok {source : String} {console : Console} {capacity flushes : Option Nat}
    (h : (run source console (.fresh capacity flushes)).ok = true) :
    (run source console (.fresh capacity flushes)).out.written = (dump source).toUTF8 := by
  rw [run_eq, Writer.print_eq] at h ⊢
  rw [firstBytes_of_fits (of_decide_eq_true h)]
  exact Writer.written_hold_fresh capacity flushes _

theorem written_scan_unbounded (source : String) :
    (scan source (Console.onto .unbounded)).2.writer.written =
      (renderAll (reportsOf source)).toUTF8 := by
  have hremaining : Writer.unbounded.remaining = none := Writer.remaining_fresh none none
  rw [scan_console]
  unfold Console.onto
  rw [Writer.print_eq, hremaining]
  exact Writer.written_hold_fresh none none _

/-- What is printed about a source determines what a scan finds in it.  If two runs print everything
and print the same, then the tokens of the two sources are the same, whatever their texts hold.  If
two scans send the same to a console, then the reports about the two sources are the same, and each
report is one line of what was sent. -/
theorem dump_lossless (source source' : String) :
    (∀ (console console' : Console) (capacity capacity' flushes flushes' : Option Nat),
      (run source console (.fresh capacity flushes)).ok = true →
      (run source' console' (.fresh capacity' flushes')).ok = true →
      (run source console (.fresh capacity flushes)).out.written =
        (run source' console' (.fresh capacity' flushes')).out.written →
      tokensOf source = tokensOf source') ∧
      ((scan source (Console.onto .unbounded)).2.writer.written =
          (scan source' (Console.onto .unbounded)).2.writer.written →
        reportsOf source = reportsOf source') ∧
      (scan source (Console.onto .unbounded)).2.writer.written =
        (String.join ((reportsOf source).map Diagnostic.render)).toUTF8 ∧
      ∀ d ∈ reportsOf source, ∃ line, '\n' ∉ line.toList ∧ d.render = line ++ "\n" := by
  refine ⟨?_, fun hwritten => ?_, written_scan_unbounded source, fun d hd => ?_⟩
  · intro console console' capacity capacity' flushes flushes' hok hok' hwritten
    rw [written_of_run_ok hok, written_of_run_ok hok'] at hwritten
    exact tokensOf_eq_of_dump_eq (String.toByteArray_inj.mp hwritten)
  · rw [written_scan_unbounded, written_scan_unbounded] at hwritten
    exact reportsOf_eq_of_renderAll_eq (String.toByteArray_inj.mp hwritten)
  · exact (plain_of_mem_reportsOf hd).exists_line

/-- A text that holds what looks like two printed tokens, and two stray characters. -/
theorem dump_lossless_nested :
    tokensOf "\"y 1 z\nEof  2 null\n\" @ # // c" = tokensOf "\"y 1 z\nEof  2 null\n\"@#" ∧
      reportsOf "\"y 1 z\nEof  2 null\n\" @ # // c" =
        reportsOf "\"y 1 z\nEof  2 null\n\"@#" ∧
      ∃ line, '\n' ∉ line.toList ∧
        (Diagnostic.mk 3 "" "Unexpected character '@'.").render = line ++ "\n" := by
  have hlossless := dump_lossless "\"y 1 z\nEof  2 null\n\" @ # // c"
    "\"y 1 z\nEof  2 null\n\"@#"
  refine ⟨?_, ?_, ?_⟩
  · exact hlossless.1 (.onto .unbounded) (.onto .unbounded) (some 100) none none (some 0)
      (by decide +kernel) (by decide +kernel) (by decide +kernel)
  · exact hlossless.2.1 (by decide +kernel)
  · exact hlossless.2.2.2 _ (by decide +kernel)

end LoxTokens
