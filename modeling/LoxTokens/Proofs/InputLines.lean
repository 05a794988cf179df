import LoxTokens.InputLines
import LoxTokens.ReadError

/-!
# Lines of bytes and lines of characters

An input is split into lines before it is decoded.  In UTF-8 a newline and a carriage return are
never part of another character, so the lines of an encoded text are the lines of the text, encoded.

- `SplitsInto` says which lines a list has
- `splitsInto_inputLines` says that an input is split into these lines
- `SplitsInto.encode` goes from characters to bytes
- `exists_lines` is the result for texts
-/

namespace LoxTokens

universe u

/-! ## Lines of a list -/

section Splitting

variable {α : Type u}

/-- The lines of a list.  A newline ends a line, and a return right before it goes with it; what
stands behind the last newline is a line of its own, unless it is empty. -/
inductive SplitsInto (newline back : α) : List α → List (List α) → Prop where
  | done : SplitsInto newline back [] []
  | last {line : List α} : line ≠ [] → newline ∉ line → SplitsInto newline back line [line]
  | bare {line rest : List α} {others : List (List α)} :
      newline ∉ line → line.getLast? ≠ some back → SplitsInto newline back rest others →
        SplitsInto newline back (line ++ newline :: rest) (line :: others)
  | returned {line rest : List α} {others : List (List α)} :
      newline ∉ line → SplitsInto newline back rest others →
        SplitsInto newline back (line ++ back :: newline :: rest) (line :: others)

/-- Every list has lines. -/
theorem exists_splitsInto (newline back : α) (input : List α) :
    ∃ lines, SplitsInto newline back input lines := by
  by_cases hmem : newline ∈ input
  · rcases List.eq_append_cons_of_mem hmem with ⟨line, rest, hinput, hline⟩
    have hshorter : rest.length < input.length := by
      rw [hinput, List.length_append, List.length_cons]
      omega
    rcases exists_splitsInto newline back rest with ⟨others, hothers⟩
    rw [hinput]
    -- the first newline ends the first line, whose last character decides how
    by_cases hback : line.getLast? = some back
    · rcases List.getLast?_eq_some_iff.mp hback with ⟨front, rfl⟩
      rw [List.append_assoc]
      refine ⟨front :: others, .returned ?_ hothers⟩
      exact fun hfront => hline (List.mem_append_left _ hfront)
    · exact ⟨line :: others, .bare hline hback hothers⟩
  · by_cases hnil : input = []
    · rw [hnil]
      exact ⟨[], .done⟩
    · exact ⟨[input], .last hnil hmem⟩
termination_by input.length

/-- A line has no newline. -/
theorem SplitsInto.notMem {newline back : α} {input : List α} {lines : List (List α)}
    (h : SplitsInto newline back input lines) : ∀ line ∈ lines, newline ∉ line := by
  induction h with
  | done => exact nofun
  | last _ hline => simpa using hline
  | bare hline _ _ ih => exact List.forall_mem_cons.mpr ⟨hline, ih⟩
  | returned hline _ ih => exact List.forall_mem_cons.mpr ⟨hline, ih⟩

end Splitting

/-! ## Splitting an input -/

theorem linesOnto_append (done : Array ByteArray) {line : List UInt8} (h : 10 ∉ line)
    (back rest : List UInt8) :
    linesOnto done back (line ++ rest) = linesOnto done (line.reverse ++ back) rest := by
  induction line generalizing back with
  | nil => rfl
  | cons byte line ih =>
    have hbyte : byte ≠ 10 := fun heq => h (heq ▸ List.mem_cons_self)
    have hline : 10 ∉ line := fun hmem => h (List.mem_cons_of_mem byte hmem)
    rw [List.cons_append, linesOnto, if_neg hbyte, ih hline]
    simp

/-- Bytes without a newline, and then a newline, are a line without its carriage return. -/
theorem linesOnto_newline (done : Array ByteArray) {line : List UInt8} (h : 10 ∉ line)
    (rest : List UInt8) :
    linesOnto done [] (line ++ 10 :: rest) =
      linesOnto (done.push (dropReturn line.reverse).reverse.toByteArray) [] rest := by
  rw [linesOnto_append done h, linesOnto, if_pos rfl, List.append_nil]

theorem dropReturn_of_head?_ne {line : List UInt8} (h : line.head? ≠ some 13) :
    dropReturn line = line := by
  unfold dropReturn
  split
  · exact absurd rfl h
  · rfl

theorem toList_linesOnto {input : List UInt8} {lines : List (List UInt8)}
    (h : SplitsInto 10 13 input lines) (done : Array ByteArray) :
    (linesOnto done [] input).toList = done.toList ++ lines.map List.toByteArray := by
  induction h generalizing done with
  | done => simp [linesOnto]
  | @last line hne hline =>
    have hstep := linesOnto_append done hline [] []
    rw [List.append_nil] at hstep
    have hlast : (line.reverse ++ []).isEmpty = false := by simp [hne]
    rw [hstep, linesOnto, hlast]
    simp
  | @bare line rest others hline hback _ ih =>
    have hreturn : dropReturn line.reverse = line.reverse :=
      dropReturn_of_head?_ne (by simpa using hback)
    rw [linesOnto_newline done hline, hreturn, List.reverse_reverse, ih]
    simp
  | @returned line rest others hline _ ih =>
    -- the return is collected with the line and then dropped from it
    have hall : 10 ∉ line ++ [13] := by simp [hline]
    have hstep := linesOnto_newline done hall rest
    rw [List.append_assoc, List.singleton_append] at hstep
    have hreturn : dropReturn (line ++ [13]).reverse = line.reverse := by simp [dropReturn]
    rw [hstep, hreturn, List.reverse_reverse, ih]
    simp

/-- An input has the lines of its bytes. -/
theorem inputLines_eq {input : ByteArray} {lines : List (List UInt8)}
    (h : SplitsInto 10 13 input.data.toList lines) :
    inputLines input = lines.map List.toByteArray := by
  unfold inputLines
  simpa using toList_linesOnto h #[]

/-- The lines of an input, as the bytes that they are. -/
theorem splitsInto_inputLines (input : ByteArray) :
    SplitsInto 10 13 input.data.toList
      ((inputLines input).map fun line => line.data.toList) := by
  rcases exists_splitsInto 10 13 input.data.toList with ⟨lines, hlines⟩
  have hsame : (fun line : ByteArray => line.data.toList) ∘ List.toByteArray = id :=
    funext fun _ => List.toList_data_toByteArray
  rwa [inputLines_eq hlines, List.map_map, hsame, List.map_id]

/-! ## Encoding -/

/-- The bytes of characters. -/
def encode (text : List Char) : List UInt8 :=
  text.flatMap String.utf8EncodeChar

@[simp] theorem encode_nil : encode [] = [] :=
  rfl

@[simp] theorem encode_append (text more : List Char) :
    encode (text ++ more) = encode text ++ encode more :=
  List.flatMap_append

theorem encode_cons (c : Char) (text : List Char) :
    encode (c :: text) = String.utf8EncodeChar c ++ encode text :=
  List.flatMap_cons

/-- A byte below 128 is a character by itself, and no part of another one. -/
theorem toNat_eq_of_mem_utf8EncodeChar {c : Char} {byte : UInt8} (hbyte : byte.toNat < 128)
    (h : byte ∈ String.utf8EncodeChar c) : c.toNat = byte.toNat := by
  revert h
  fun_cases String.utf8EncodeChar c with
  | case1 v hv =>
    intro h
    rw [List.mem_singleton.mp h, UInt8.toNat_ofNat',
      Nat.mod_eq_of_lt (Nat.lt_of_le_of_lt hv (by decide))]
    rfl
  | _ v =>
    -- the bytes of a longer encoding are all 128 or more
    intro h
    simp only [List.mem_cons, List.not_mem_nil, or_false] at h
    rcases h with rfl | rfl | rfl | rfl <;>
      simp only [UInt8.toNat_ofNat'] at hbyte <;>
      omega

theorem eq_newline_of_mem {c : Char} (h : 10 ∈ String.utf8EncodeChar c) : c = '\n' :=
  Char.toNat_inj.mp (toNat_eq_of_mem_utf8EncodeChar (by decide) h)

theorem eq_return_of_mem {c : Char} (h : 13 ∈ String.utf8EncodeChar c) : c = '\r' :=
  Char.toNat_inj.mp (toNat_eq_of_mem_utf8EncodeChar (by decide) h)

theorem notMem_encode {line : List Char} (h : '\n' ∉ line) : 10 ∉ encode line := by
  intro hmem
  rcases List.mem_flatMap.mp hmem with ⟨c, hc, hbyte⟩
  rw [eq_newline_of_mem hbyte] at hc
  exact h hc

theorem encode_ne_nil {line : List Char} (h : line ≠ []) : encode line ≠ [] := by
  rcases line with _ | ⟨c, line⟩
  · exact absurd rfl h
  · rw [encode_cons]
    simp

theorem getLast?_encode_ne {line : List Char} (h : line.getLast? ≠ some '\r') :
    (encode line).getLast? ≠ some 13 := by
  rcases List.eq_nil_or_concat line with rfl | ⟨front, c, rfl⟩
  · simp
  · rw [List.concat_eq_append] at h ⊢
    intro hlast
    have hne : String.utf8EncodeChar c ≠ [] := String.utf8EncodeChar_ne_nil
    have hbytes : encode [c] = String.utf8EncodeChar c := by simp [encode_cons]
    -- the last byte belongs to the last character
    have hend : (String.utf8EncodeChar c).getLast? = some 13 := by
      rw [encode_append, hbytes, List.getLast?_append] at hlast
      rw [List.getLast?_eq_some_getLast hne] at hlast ⊢
      exact hlast
    rw [eq_return_of_mem (List.mem_of_getLast? hend)] at h
    simp at h

/-- The lines of the bytes are the bytes of the lines. -/
theorem SplitsInto.encode {text : List Char} {lines : List (List Char)}
    (h : SplitsInto '\n' '\r' text lines) :
    SplitsInto 10 13 (LoxTokens.encode text) (lines.map LoxTokens.encode) := by
  induction h with
  | done => exact .done
  | last hne hline => exact .last (encode_ne_nil hne) (notMem_encode hline)
  | @bare line rest others hline hback _ ih =>
    have hnewline : LoxTokens.encode ('\n' :: rest) = 10 :: LoxTokens.encode rest := rfl
    rw [encode_append, hnewline]
    exact .bare (notMem_encode hline) (getLast?_encode_ne hback) ih
  | @returned line rest others hline _ ih =>
    have hending :
        LoxTokens.encode ('\r' :: '\n' :: rest) = 13 :: 10 :: LoxTokens.encode rest := rfl
    rw [encode_append, hending]
    exact .returned (notMem_encode hline) ih

theorem toUTF8_eq (text : String) : text.toUTF8 = (encode text.toList).toByteArray := by
  have htext := String.toByteArray_ofList (l := text.toList)
  rw [String.ofList_toList] at htext
  exact htext

/-! ## Decoding -/

theorem decodeText_toUTF8 (text : String) : decodeText text.toUTF8 = .ok text := by
  have hvalid : text.toUTF8.IsValidUTF8 := text.isValidUTF8
  have hread : String.fromUTF8? text.toUTF8 = some text := by
    unfold String.fromUTF8?
    rw [dif_pos hvalid]
    rfl
  unfold decodeText
  rw [hread]

theorem toUTF8_of_decodeText {bytes : ByteArray} {source : String}
    (h : decodeText bytes = .ok source) : bytes = source.toUTF8 := by
  unfold decodeText at h
  split at h
  · next text htext =>
    cases h
    unfold String.fromUTF8? at htext
    split at htext
    · cases htext
      rfl
    · cases htext
  · cases h

/-- Just the bytes that are not valid are no text. -/
theorem decodeText_eq_error_iff {bytes : ByteArray} {error : ReadError} :
    decodeText bytes = .error error ↔ error = .notText ∧ ¬ bytes.IsValidUTF8 := by
  by_cases hvalid : bytes.IsValidUTF8
  · have hread : decodeText bytes = .ok (.ofByteArray bytes hvalid) :=
      decodeText_toUTF8 (.ofByteArray bytes hvalid)
    rw [hread]
    exact iff_of_false nofun fun h => h.2 hvalid
  · have hread : decodeText bytes = .error .notText := by
      unfold decodeText String.fromUTF8?
      rw [dif_neg hvalid]
    rw [hread]
    constructor
    · intro h
      cases h
      exact ⟨rfl, hvalid⟩
    · rintro ⟨rfl, -⟩
      rfl

/-- The lines of a text, and that its bytes are read as these lines. -/
theorem exists_lines (text : String) :
    ∃ lines : List String, SplitsInto '\n' '\r' text.toList (lines.map String.toList) ∧
      inputLines text.toUTF8 = lines.map String.toUTF8 := by
  rcases exists_splitsInto '\n' '\r' text.toList with ⟨lines, hlines⟩
  refine ⟨lines.map String.ofList, ?_, ?_⟩
  · have hsame : String.toList ∘ String.ofList = id := funext fun _ => String.toList_ofList
    rwa [List.map_map, hsame, List.map_id]
  · have hbytes : SplitsInto 10 13 text.toUTF8.data.toList (lines.map encode) := by
      rw [toUTF8_eq, List.toList_data_toByteArray]
      exact hlines.encode
    rw [inputLines_eq hbytes, List.map_map, List.map_map]
    apply List.map_congr_left
    intro line _
    have hline := toUTF8_eq (.ofList line)
    rw [String.toList_ofList] at hline
    exact hline.symm

end LoxTokens
