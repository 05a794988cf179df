import LoxTokens.Proofs.Findings

/-!
# Offsets

A place in a text is known to a scan in three ways: by byte offsets, by the characters that are
left, and by the lexeme read so far.  Whatever is read, character by character, these stay in step,
so offsets always stand between characters and what lies between two of them can be cut out.

- `Slice` is a piece of a text between two offsets
- `Reaches` lists the states of a scan, one for each character that is taken
- `Cursor.Stands.of_moves` is the step and `exists_stands_of_reaches` the run
- `offsets_in_step` is the result
-/

namespace LoxTokens

universe u

open Grammar

/-! ## Pieces of a text -/

/-- A piece of a text between two byte offsets, both of them between characters. -/
structure Slice (text : String) (first last : Nat) (piece : String) : Prop where
  ordered : first ≤ last
  inside : last ≤ text.utf8ByteSize
  first_valid : (String.Pos.Raw.mk first).IsValid text
  last_valid : (String.Pos.Raw.mk last).IsValid text
  bytes : text.toUTF8.extract first last = piece.toUTF8

theorem sum_utf8Size_append (front back : List Char) :
    ((front ++ back).map Char.utf8Size).sum =
      (front.map Char.utf8Size).sum + (back.map Char.utf8Size).sum := by
  rw [List.map_append, List.sum_append]

theorem utf8ByteSize_ofList (text : List Char) :
    (String.ofList text).utf8ByteSize = (text.map Char.utf8Size).sum := by
  induction text with
  | nil => rfl
  | cons c rest ih =>
    rw [String.ofList_cons, String.utf8ByteSize_append, String.utf8ByteSize_singleton, ih,
      List.map_cons, List.sum_cons]

/-- What stands between two parts of a text is the piece between the sizes of these parts. -/
theorem slice_append (front piece back : String) :
    Slice (front ++ (piece ++ back)) front.utf8ByteSize
      (front.utf8ByteSize + piece.utf8ByteSize) piece where
  ordered := Nat.le_add_right _ _
  inside := by
    rw [String.utf8ByteSize_append, String.utf8ByteSize_append]
    omega
  first_valid := String.Pos.Raw.isValid_iff_exists_append.mpr ⟨front, piece ++ back, rfl, rfl⟩
  last_valid := by
    refine String.Pos.Raw.isValid_iff_exists_append.mpr ⟨front ++ piece, back, ?_, ?_⟩
    · rw [String.append_assoc]
    · rw [String.rawEndPos, String.utf8ByteSize_append]
  bytes := by
    have hpiece : (piece ++ back).toByteArray.extract 0 piece.toByteArray.size =
        piece.toByteArray := by
      rw [String.toByteArray_append]
      exact ByteArray.extract_append_eq_left rfl
    calc
      (front ++ (piece ++ back)).toByteArray.extract front.utf8ByteSize
            (front.utf8ByteSize + piece.utf8ByteSize)
          = (front.toByteArray ++ (piece ++ back).toByteArray).extract
              (front.toByteArray.size + 0)
              (front.toByteArray.size + piece.toByteArray.size) := by
            rw [String.toByteArray_append]
            rfl
      _ = (piece ++ back).toByteArray.extract 0 piece.toByteArray.size :=
            ByteArray.extract_append_size_add
      _ = piece.toByteArray := hpiece

theorem slice_of_toList {text : String} {front piece back : List Char}
    (h : text.toList = front ++ (piece ++ back)) :
    Slice text (front.map Char.utf8Size).sum ((front ++ piece).map Char.utf8Size).sum
      (.ofList piece) := by
  have htext : text = String.ofList front ++ (String.ofList piece ++ String.ofList back) := by
    rw [← String.toList_inj, h]
    simp
  have hslice := slice_append (.ofList front) (.ofList piece) (.ofList back)
  rw [← htext, utf8ByteSize_ofList, utf8ByteSize_ofList, ← sum_utf8Size_append] at hslice
  exact hslice

/-! ## Cursors in a text -/

namespace Cursor

/-- The cursor stands in a text behind this part of it: the lexeme and what is left make up the
others, and the offsets are where the lexeme starts and stops. -/
structure Stands (c : Cursor) (text front : List Char) : Prop where
  text_eq : text = front ++ (c.lexeme ++ c.rest)
  start_eq : c.start = (front.map Char.utf8Size).sum
  stop_eq : c.stop = ((front ++ c.lexeme).map Char.utf8Size).sum

theorem stands_ofText (text : List Char) : (ofText text).Stands text [] where
  text_eq := rfl
  start_eq := rfl
  stop_eq := rfl

theorem Stands.restart {c : Cursor} {text front : List Char} (h : c.Stands text front) :
    c.restart.Stands text (front ++ c.lexeme) where
  text_eq := by
    rw [h.text_eq, lexeme_restart, restart_rest, List.nil_append, List.append_assoc]
  start_eq := h.stop_eq
  stop_eq := by
    rw [lexeme_restart, List.append_nil]
    exact h.stop_eq

/-- Whatever is moved over, the cursor stands in the text as before. -/
theorem Stands.of_moves {c after : Cursor} {text front piece : List Char} (h : c.Stands text front)
    (hmoves : c.Moves piece after) : after.Stands text front where
  text_eq := by rw [h.text_eq, hmoves.lexeme, hmoves.rest, List.append_assoc]
  start_eq := hmoves.start.trans h.start_eq
  stop_eq := by
    rw [hmoves.stop, h.stop_eq, hmoves.lexeme, ← List.append_assoc,
      ← sum_utf8Size_append (front ++ c.lexeme) piece]

theorem Stands.slice_lexeme {c : Cursor} {text : String} {front : List Char}
    (h : c.Stands text.toList front) : Slice text c.start c.stop (.ofList c.lexeme) := by
  rw [h.start_eq, h.stop_eq]
  exact slice_of_toList h.text_eq

theorem Stands.utf8ByteSize_eq {c : Cursor} {text : String} {front : List Char}
    (h : c.Stands text.toList front) :
    text.utf8ByteSize = c.stop + (c.rest.map Char.utf8Size).sum := by
  calc
    text.utf8ByteSize = (text.toList.map Char.utf8Size).sum := by
          rw [← utf8ByteSize_ofList, String.ofList_toList]
    _ = ((front ++ c.lexeme ++ c.rest).map Char.utf8Size).sum := by
          rw [h.text_eq, List.append_assoc]
    _ = c.stop + (c.rest.map Char.utf8Size).sum := by
          rw [sum_utf8Size_append, h.stop_eq]

theorem Stands.slice_rest {c : Cursor} {text : String} {front : List Char}
    (h : c.Stands text.toList front) :
    Slice text c.stop text.utf8ByteSize (.ofList c.rest) := by
  have htext : text.toList = (front ++ c.lexeme) ++ (c.rest ++ []) := by
    rw [h.text_eq, List.append_nil, List.append_assoc]
  have hslice := slice_of_toList htext
  rw [sum_utf8Size_append (front ++ c.lexeme), ← h.stop_eq, ← h.utf8ByteSize_eq] at hslice
  exact hslice

/-- What stands between the quotes of a lexeme can be cut out. -/
theorem Stands.slice_body {c : Cursor} {text : String} {front body : List Char}
    (h : c.Stands text.toList front) (hlexeme : c.lexeme = '"' :: (body ++ ['"'])) :
    c.start + 2 ≤ c.stop ∧ Slice text (c.start + 1) (c.stop - 1) (.ofList body) := by
  have htext : text.toList = (front ++ ['"']) ++ (body ++ '"' :: c.rest) := by
    rw [h.text_eq, hlexeme]
    simp
  have hslice := slice_of_toList htext
  have hquote : Char.utf8Size '"' = 1 := rfl
  have hstart : c.start + 1 = ((front ++ ['"']).map Char.utf8Size).sum := by
    rw [h.start_eq]
    simp [hquote]
  have hstop : c.stop - 1 = ((front ++ ['"'] ++ body).map Char.utf8Size).sum := by
    rw [h.stop_eq, hlexeme]
    simp [hquote]
    omega
  rw [← hstart, ← hstop] at hslice
  have hordered := hslice.ordered
  exact ⟨by omega, hslice⟩

/-! ## Character by character -/

/-- One cursor is reached from another by taking characters one by one. -/
inductive Advances (c : Cursor) : Cursor → Prop where
  | refl : Advances c c
  | next {mid after : Cursor} {taken : Char} :
      Advances c mid → mid.advance? = some (taken, after) → Advances c after

theorem Advances.moves {c after : Cursor} (h : c.Advances after) :
    ∃ piece, c.Moves piece after := by
  induction h with
  | refl => exact ⟨[], .refl c⟩
  | @next mid after taken _ hadvance ih =>
    rcases ih with ⟨piece, hmoves⟩
    exact ⟨piece ++ [taken], hmoves.trans (moves_of_advance? hadvance)⟩

theorem Advances.of_advance? {c mid after : Cursor} {taken : Char}
    (hadvance : c.advance? = some (taken, mid)) (h : mid.Advances after) : c.Advances after := by
  induction h with
  | refl => exact .next .refl hadvance
  | next _ hlast ih => exact .next ih hlast

theorem Moves.eq_of_nil {c after : Cursor} (h : c.Moves [] after) : after = c := by
  have htaken : after.taken = c.taken :=
    List.reverse_inj.mp (h.lexeme.trans (List.append_nil c.lexeme))
  have hrest : c.rest = after.rest := h.rest
  have hstart := h.start
  have hstop : after.stop = c.stop := h.stop
  rcases c with ⟨start, stop, taken, rest⟩
  rcases after with ⟨start', stop', taken', rest'⟩
  simp_all

theorem Moves.tail {c mid after : Cursor} {first : Char} {piece : List Char}
    (h : c.Moves (first :: piece) after) (hfirst : c.Moves [first] mid) :
    mid.Moves piece after where
  start := h.start.trans hfirst.start.symm
  stop := by
    rw [h.stop, hfirst.stop]
    simp [Nat.add_assoc]
  lexeme := by
    rw [h.lexeme, hfirst.lexeme]
    simp
  rest := by
    have hboth := hfirst.rest.symm.trans h.rest
    simpa using hboth

/-- Any movement takes characters one by one. -/
theorem Moves.advances {c after : Cursor} {piece : List Char} (h : c.Moves piece after) :
    c.Advances after := by
  induction piece generalizing c with
  | nil =>
    rw [h.eq_of_nil]
    exact .refl
  | cons first piece ih =>
    rcases advance?_of_rest h.rest with ⟨mid, hadvance, hfirst⟩
    exact .of_advance? hadvance (ih (h.tail hfirst))

/-- A segment is read character by character. -/
theorem advances_next? {c after : Cursor} {s : Segment} (h : c.next? = some (s, after)) :
    c.restart.Advances after :=
  (next?_spec h).2.advances

theorem peekNext?_eq (c : Cursor) : c.peekNext? = c.rest[1]? := by
  rw [peekNext?, List.head?_eq_getElem?, List.getElem?_tail]

theorem advanceIf_fst_eq_true_iff (c : Cursor) (expected : Char) :
    (c.advanceIf expected).1 = true ↔ c.rest.head? = some expected := by
  constructor
  · intro h
    by_contra hne
    rw [advanceIf_of_head?_ne hne] at h
    cases h
  · intro h
    rcases List.head?_eq_some_iff.mp h with ⟨rest, hrest⟩
    rcases advanceIf_of_rest hrest with ⟨moved, hmoved, -⟩
    rw [hmoved]

/-- A cursor that fails to find what it expects is left as it is. -/
theorem advanceIf_snd_of_false {c : Cursor} {expected : Char}
    (h : (c.advanceIf expected).1 = false) : (c.advanceIf expected).2 = c := by
  have hne : c.rest.head? ≠ some expected := by
    rw [ne_eq, ← advanceIf_fst_eq_true_iff, h]
    decide
  rw [advanceIf_of_head?_ne hne]

end Cursor

/-! ## The states of a scan -/

section States

variable {σ : Type u} [Reporter σ] {source : String} {sink : σ}

/-- The states in which a segment is about to be read, or the end to be found. -/
inductive AtHead (source : String) (sink : σ) : Cursor → Scan σ → Prop where
  | start : AtHead source sink (.ofText source.toList) (.start sink)
  | next {head after : Cursor} {state : Scan σ} {s : Segment} :
      AtHead source sink head state → head.next? = some (s, after) →
        AtHead source sink after (state.absorb s)

/-- All states of a scan: those at the head of a segment, and behind each character of it. -/
inductive Reaches (source : String) (sink : σ) : Cursor → Scan σ → Prop where
  | head {c : Cursor} {state : Scan σ} : AtHead source sink c state → Reaches source sink c state
  | restart {c : Cursor} {state : Scan σ} :
      AtHead source sink c state → Reaches source sink c.restart state
  | within {head mid after : Cursor} {state : Scan σ} {s : Segment} :
      AtHead source sink head state → head.next? = some (s, after) →
        head.restart.Advances mid → mid.Advances after → Reaches source sink mid state

theorem exists_stands_of_atHead {c : Cursor} {state : Scan σ} (h : AtHead source sink c state) :
    ∃ front, c.Stands source.toList front := by
  induction h with
  | start => exact ⟨[], Cursor.stands_ofText _⟩
  | next _ hnext ih =>
    rcases ih with ⟨front, hstands⟩
    exact ⟨_, hstands.restart.of_moves (Cursor.next?_spec hnext).2⟩

theorem exists_stands_of_reaches {c : Cursor} {state : Scan σ} (h : Reaches source sink c state) :
    ∃ front, c.Stands source.toList front := by
  cases h with
  | head hhead => exact exists_stands_of_atHead hhead
  | restart hhead =>
    rcases exists_stands_of_atHead hhead with ⟨front, hstands⟩
    exact ⟨_, hstands.restart⟩
  | within hhead _ hmid _ =>
    rcases exists_stands_of_atHead hhead with ⟨front, hstands⟩
    rcases hmid.moves with ⟨piece, hmoves⟩
    exact ⟨_, hstands.restart.of_moves hmoves⟩

/-- A scan goes on from head to head until it finds the end.  The induction follows the reading of
the segments, with the state generalised, because each segment changes it. -/
theorem exists_last (done : Array Segment) {c : Cursor} {state : Scan σ}
    (h : AtHead source sink c state) :
    ∃ cut last, (c.segmentsOnto done).toList = done.toList ++ cut ∧
      AtHead source sink last (cut.foldl Scan.absorb state) ∧ last.next? = none := by
  fun_induction Cursor.segmentsOnto done c generalizing state with
  | case1 done c hnone => exact ⟨[], c, by simp, h, hnone⟩
  | case2 done c s after hnext ih =>
    rcases ih (.next h hnext) with ⟨cut, last, hsegments, hlast, hnone⟩
    refine ⟨s :: cut, last, ?_, hlast, hnone⟩
    rw [hsegments]
    simp

/-- The last state of a scan is the one from which its result is made. -/
theorem exists_finish (source : String) (sink : σ) :
    ∃ last state, AtHead source sink last state ∧ last.next? = none ∧
      state.finish = scan source sink := by
  have hstart : AtHead source sink (.ofText source.toList) (.start sink) := .start
  rcases exists_last #[] hstart with ⟨cut, last, hsegments, hlast, hnone⟩
  refine ⟨last, _, hlast, hnone, ?_⟩
  have hcut : segments source = cut := by simpa [segments] using hsegments
  unfold scan
  rw [hcut]

/-! ## One segment -/

/-- A token is found, or a fault is reported, or neither; never both. -/
inductive FindsOne (state after : Scan σ) : Prop where
  | nothing : after.tokens = state.tokens → after.sink = state.sink → FindsOne state after
  | token (t : Token) :
      after.tokens = state.tokens.push t → after.sink = state.sink → FindsOne state after
  | report (line : Nat) (message : String) :
      after.tokens = state.tokens → after.sink = Reporter.error state.sink line message →
        FindsOne state after

theorem findsOne_absorb (state : Scan σ) (s : Segment) : FindsOne state (state.absorb s) := by
  unfold Scan.absorb
  cases s.shape with
  | blank => exact .nothing rfl rfl
  | comment => exact .nothing rfl rfl
  | token kind => exact .token _ rfl rfl
  | stray character => exact .report _ _ rfl rfl
  | openText => exact .report _ _ rfl rfl

/-- The token that a segment adds. -/
theorem shape_of_absorb_push {state : Scan σ} {s : Segment} {t : Token}
    (h : (state.absorb s).tokens = state.tokens.push t) :
    ∃ kind, s.shape = .token kind ∧ t = .ofLexeme kind s.text state.line := by
  -- only a token makes the list longer
  have hsize := congrArg Array.size h
  rw [Array.size_push] at hsize
  unfold Scan.absorb at h hsize
  cases hshape : s.shape with
  | token kind =>
    rw [hshape] at h
    exact ⟨kind, rfl, (Array.push_inj_right.mp h).symm⟩
  | _ =>
    rw [hshape] at hsize
    exact absurd hsize (Nat.ne_of_lt (Nat.lt_succ_self _))

/-- Every segment moves the offsets on. -/
theorem stop_lt_of_next? {head after : Cursor} {s : Segment} (h : head.next? = some (s, after)) :
    after.start = head.stop ∧ head.stop < after.stop := by
  rcases Cursor.next?_spec h with ⟨hbegins, hmoves⟩
  have hstop : after.stop = head.stop + (s.text.map Char.utf8Size).sum := hmoves.stop
  refine ⟨hmoves.start, ?_⟩
  cases htext : s.text with
  | nil => exact absurd htext hbegins.text_ne_nil
  | cons first others =>
    have hfirst := Char.utf8Size_pos first
    rw [hstop, htext, List.map_cons, List.sum_cons]
    omega

/-- What a segment adds is cut out of the source: the lexeme whole, and the value of a text without
its quotes. -/
theorem slices_of_token {head after : Cursor} {state : Scan σ} {s : Segment}
    (hhead : AtHead source sink head state) (hnext : head.next? = some (s, after)) {t : Token}
    (htoken : (state.absorb s).tokens = state.tokens.push t) :
    Slice source after.start after.stop t.lexeme ∧
      ∀ value, t.literal = .text value →
        after.start + 2 ≤ after.stop ∧ Slice source (after.start + 1) (after.stop - 1) value := by
  rcases exists_stands_of_atHead hhead with ⟨front, hstands⟩
  rcases Cursor.next?_spec hnext with ⟨hbegins, hmoves⟩
  have hafter := hstands.restart.of_moves hmoves
  have hlexeme : after.lexeme = s.text := hmoves.lexeme
  rcases shape_of_absorb_push htoken with ⟨kind, hshape, rfl⟩
  refine ⟨?_, fun value hvalue => ?_⟩
  · have hslice := hafter.slice_lexeme
    rwa [hlexeme] at hslice
  · -- a token is no fault, so its lexeme is grammatical
    have hmatches : Matches s.shape s.text :=
      hbegins.grammatical (by simp [hshape]) (by simp [hshape])
    rw [hshape] at hmatches
    have hkind : Literal.ofLexeme kind s.text = .text value := hvalue
    unfold Literal.ofLexeme at hkind
    split at hkind
    · cases hkind
    · -- only a text has a text as its value
      rcases matches_text_iff.mp hmatches with ⟨body, -, hbody⟩
      have hinside : value = .ofList body := by
        rw [← Literal.text.inj hkind, hbody]
        simp
      rw [hinside]
      exact hafter.slice_body (hlexeme.trans hbody)
    · cases hkind

end States

/-- Offsets, characters and the text stay in step.  In every state of a scan the lexeme lies between
the two offsets and what is left lies behind the second one, each cut out of the source between
characters; looking ahead shows the characters that are left, and a cursor that fails to find what
it expects is left as it is.  Every segment is read character by character, moves the second offset
on, and finds one token or one fault at most; the lexeme of a token is cut out of the source, and so
is the value of a text, which has two quotes around it.  A scan comes to its end, and the result is
what is found up to there. -/
theorem offsets_in_step {σ : Type u} [Reporter σ] (source : String) (sink : σ) :
    (∀ c state, Reaches source sink c state →
      c.start ≤ c.stop ∧ c.stop ≤ source.utf8ByteSize ∧
        Slice source c.start c.stop (.ofList c.lexeme) ∧
        Slice source c.stop source.utf8ByteSize (.ofList c.rest) ∧
        c.peek? = c.rest[0]? ∧ c.peekNext? = c.rest[1]? ∧
        ∀ expected, ((c.advanceIf expected).1 = true ↔ c.rest.head? = some expected) ∧
          ((c.advanceIf expected).1 = false → (c.advanceIf expected).2 = c)) ∧
    (∀ head state s after, AtHead source sink head state → head.next? = some (s, after) →
      head.restart.Advances after ∧ after.start = head.stop ∧ head.stop < after.stop ∧
        FindsOne state (state.absorb s) ∧
        ∀ t, (state.absorb s).tokens = state.tokens.push t →
          Slice source after.start after.stop t.lexeme ∧
            ∀ value, t.literal = .text value →
              after.start + 2 ≤ after.stop ∧
                Slice source (after.start + 1) (after.stop - 1) value) ∧
    ∃ last state, AtHead source sink last state ∧ last.next? = none ∧
      last.stop = source.utf8ByteSize ∧ state.finish = scan source sink := by
  refine ⟨fun c state hreaches => ?_, fun head state s after hhead hnext => ?_, ?_⟩
  · rcases exists_stands_of_reaches hreaches with ⟨front, hstands⟩
    have hlexeme := hstands.slice_lexeme
    refine ⟨hlexeme.ordered, hlexeme.inside, hlexeme, hstands.slice_rest, ?_, ?_,
      fun expected => ?_⟩
    · exact List.head?_eq_getElem?
    · exact c.peekNext?_eq
    · exact ⟨c.advanceIf_fst_eq_true_iff expected, Cursor.advanceIf_snd_of_false⟩
  · rcases stop_lt_of_next? hnext with ⟨hstart, hstop⟩
    exact ⟨Cursor.advances_next? hnext, hstart, hstop, findsOne_absorb state s,
      fun t => slices_of_token hhead hnext⟩
  · rcases exists_finish source sink with ⟨last, state, hlast, hnone, hfinish⟩
    rcases exists_stands_of_atHead hlast with ⟨front, hstands⟩
    have hsize := hstands.utf8ByteSize_eq
    rw [(Cursor.next?_eq_none_iff last).mp hnone] at hsize
    exact ⟨last, state, hlast, hnone, hsize.symm, hfinish⟩

/-- A fault of two bytes in front of a text of four: inside the text the offsets stand around the
character of two bytes, and the value is cut out between them. -/
theorem offsets_in_step_umlaut :
    let source := "é\"ü\""
    let sink : Array Diagnostic := #[]
    let fault : Segment := { shape := .stray 'é', text := ['é'] }
    let text : Segment := { shape := .token .text, text := ['"', 'ü', '"'] }
    let head : Cursor := { start := 0, stop := 2, taken := ['é'], rest := ['"', 'ü', '"'] }
    let mid : Cursor := { start := 2, stop := 5, taken := ['ü', '"'], rest := ['"'] }
    let after : Cursor := { start := 2, stop := 6, taken := ['"', 'ü', '"'], rest := [] }
    let state := (Scan.start sink).absorb fault
    AtHead source sink head state ∧ head.next? = some (text, after) ∧
      Reaches source sink mid state ∧ Slice source 2 5 "\"ü" ∧
      Slice source 5 source.utf8ByteSize "\"" ∧
      (state.absorb text).tokens = state.tokens.push (.ofLexeme .text text.text 1) ∧
      Slice source 2 6 "\"ü\"" ∧ Slice source 3 5 "ü" := by
  intro source sink fault text head mid after state
  have hsource : source.toList = ['é', '"', 'ü', '"'] := by decide +kernel
  -- the fault is read first, and the middle state is two characters into the text
  have hfault : (Cursor.ofText source.toList).next? = some (fault, head) := by
    rw [hsource]
    rfl
  have htext : head.next? = some (text, after) := rfl
  have hhead : AtHead source sink head state := .next .start hfault
  have hmid : Reaches source sink mid state :=
    .within hhead htext (.next (.next .refl rfl) rfl) (.next .refl rfl)
  have htoken : (state.absorb text).tokens = state.tokens.push (.ofLexeme .text text.text 1) := rfl
  have hall := offsets_in_step source sink
  have hinside := hall.1 mid state hmid
  have hread := hall.2.1 head state text after hhead htext
  have hslices := hread.2.2.2.2 _ htoken
  exact ⟨hhead, htext, hmid, hinside.2.2.1, hinside.2.2.2.1, htoken, hslices.1,
    (hslices.2 "ü" rfl).2⟩

end LoxTokens
