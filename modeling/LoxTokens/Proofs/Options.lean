import LoxTokens.CommandLine.Request

/-!
# How options are written

The ways to write down an option and its value, said without reading them: the value stands in an
argument of its own, behind an equals sign, or right behind the letter of a short option.

- `Occurrence` lists the ways to write one option with its value
- `Writes` says which values a list of arguments gives, in order
- `Argument.ofString_flag` and `Argument.ofString_attached` read what is written
- `Argument.ofString_eq_parameter` and `Argument.ofString_eq_separator` say that nothing else is
  read
-/

namespace LoxTokens

namespace Parameter

/-- The name of an option that is written out. -/
def name : Parameter → String
  | script => "script"
  | mode => "mode"

/-- The letter of a short option. -/
def letter : Parameter → Char
  | script => 's'
  | mode => 'm'

def long (parameter : Parameter) : String :=
  "--" ++ parameter.name

def short (parameter : Parameter) : String :=
  "-" ++ String.singleton parameter.letter

theorem toList_long (parameter : Parameter) :
    parameter.long.toList = '-' :: '-' :: parameter.name.toList := by
  simp [long]

theorem toList_short (parameter : Parameter) :
    parameter.short.toList = ['-', parameter.letter] := by
  simp [short]

theorem letter_ne_dash (parameter : Parameter) : parameter.letter ≠ '-' := by
  cases parameter <;> decide

end Parameter

/-- One argument with an option and its value in it. -/
inductive Attached (parameter : Parameter) (value : String) : String → Prop where
  | long : Attached parameter value (parameter.long ++ "=" ++ value)
  | short : Attached parameter value (parameter.short ++ "=" ++ value)
  | joined : value.toList.head? ≠ some '=' → Attached parameter value (parameter.short ++ value)

/-- An option with its value.  In an argument of its own the value begins with no dash, unless it is
nothing but a dash. -/
inductive Occurrence (parameter : Parameter) (value : String) : List String → Prop where
  | apart {flag : String} :
      flag = parameter.short ∨ flag = parameter.long →
        value = "-" ∨ value.toList.head? ≠ some '-' → Occurrence parameter value [flag, value]
  | attached {argument : String} :
      Attached parameter value argument → Occurrence parameter value [argument]

/-- The values that a list of arguments gives, if it is made of options with values and perhaps a
separator at the end. -/
inductive Writes : List (Parameter × String) → List String → Prop where
  | nothing : Writes [] []
  | separator : Writes [] ["--"]
  | option {parameter : Parameter} {value : String} {written arguments : List String}
      {values : List (Parameter × String)} :
      value ≠ "" → Occurrence parameter value written → Writes values arguments →
        Writes ((parameter, value) :: values) (written ++ arguments)

theorem Writes.ne_empty {values : List (Parameter × String)} {arguments : List String}
    (h : Writes values arguments) : ∀ given ∈ values, given.2 ≠ "" := by
  induction h with
  | nothing => exact nofun
  | separator => exact nofun
  | option hvalue _ _ ih => exact List.forall_mem_cons.mpr ⟨hvalue, ih⟩

/-! ## Single arguments -/

namespace Argument

theorem ofString_of_long {argument : String} {text : List Char}
    (h : argument.toList = '-' :: '-' :: text) (htext : text ≠ []) :
    ofString argument = ofLong text := by
  unfold ofString
  rw [h]
  cases text with
  | nil => exact absurd rfl htext
  | cons c text => rfl

theorem ofString_of_short {argument : String} {letter : Char} {text : List Char}
    (h : argument.toList = '-' :: letter :: text) (hletter : letter ≠ '-') :
    ofString argument = ofShort letter text := by
  unfold ofString
  rw [h]
  split <;> simp_all

theorem ofShort_letter (parameter : Parameter) (text : List Char) :
    ofShort parameter.letter text = .parameter parameter (joinedValue? text) := by
  cases parameter <;> rfl

theorem ofString_flag {parameter : Parameter} {flag : String}
    (h : flag = parameter.short ∨ flag = parameter.long) :
    ofString flag = .parameter parameter none := by
  rcases h with rfl | rfl <;> cases parameter <;> rfl

theorem ofString_attached {parameter : Parameter} {value argument : String} (hvalue : value ≠ "")
    (h : Attached parameter value argument) :
    ofString argument = .parameter parameter (some value) := by
  cases h with
  | long =>
    have htext : (parameter.long ++ "=" ++ value).toList =
        '-' :: '-' :: (parameter.name.toList ++ '=' :: value.toList) := by
      simp [parameter.toList_long]
    rw [ofString_of_long htext (by simp)]
    cases parameter <;> simp [ofLong, Parameter.name]
  | short =>
    have htext : (parameter.short ++ "=" ++ value).toList =
        '-' :: parameter.letter :: '=' :: value.toList := by
      simp [parameter.toList_short]
    rw [ofString_of_short htext parameter.letter_ne_dash, ofShort_letter]
    simp [joinedValue?]
  | joined hequals =>
    have htext : (parameter.short ++ value).toList = '-' :: parameter.letter :: value.toList := by
      simp [parameter.toList_short]
    rw [ofString_of_short htext parameter.letter_ne_dash, ofShort_letter]
    -- the value is not empty, and it begins with no equals sign
    have hjoined : joinedValue? value.toList = some (.ofList value.toList) := by
      unfold joinedValue?
      split
      · next hnil => exact absurd (String.toList_eq_nil_iff.mp hnil) hvalue
      · next heq => exact absurd (by rw [heq]; rfl) hequals
      · rfl
    rw [hjoined, String.ofList_toList]

/-- A value joined to a name stands behind the first equals sign. -/
theorem eq_of_joined {text : List Char} {name : String} {joined : Option String}
    (hname : String.ofList (text.takeWhile (· != '=')) = name)
    (hjoined : (text.dropWhile (· != '=')).tail?.map String.ofList = joined) :
    joined = none ∧ text = name.toList ∨
      ∃ value, joined = some value ∧ text = name.toList ++ '=' :: value.toList := by
  subst hname hjoined
  have hsplit := List.takeWhile_append_dropWhile (p := (· != '=')) (l := text)
  rw [String.toList_ofList]
  cases hrest : text.dropWhile (· != '=') with
  | nil =>
    rw [hrest, List.append_nil] at hsplit
    exact Or.inl ⟨rfl, hsplit.symm⟩
  | cons c value =>
    have hstop := List.head?_dropWhile_not (· != '=') text
    rw [hrest] at hstop hsplit
    have hc : c = '=' := by simpa using hstop
    subst hc
    refine Or.inr ⟨.ofList value, rfl, ?_⟩
    rw [String.toList_ofList, hsplit]

theorem of_ofLong_eq {text : List Char} {parameter : Parameter} {joined : Option String}
    (h : ofLong text = .parameter parameter joined) :
    joined = none ∧ text = parameter.name.toList ∨
      ∃ value, joined = some value ∧ text = parameter.name.toList ++ '=' :: value.toList := by
  unfold ofLong at h
  dsimp only at h
  split at h
  · next hname =>
    cases h
    exact eq_of_joined hname rfl
  · next hname =>
    cases h
    exact eq_of_joined hname rfl
  all_goals cases h

theorem of_ofShort_eq {letter : Char} {text : List Char} {parameter : Parameter}
    {joined : Option String} (h : ofShort letter text = .parameter parameter joined) :
    letter = parameter.letter ∧ joined = joinedValue? text := by
  unfold ofShort at h
  split at h
  · cases h
    exact ⟨rfl, rfl⟩
  · cases h
    exact ⟨rfl, rfl⟩
  all_goals cases h

theorem joinedValue?_cases (text : List Char) :
    joinedValue? text = none ∧ text = [] ∨
      ∃ value, joinedValue? text = some value ∧
        (text = '=' :: value.toList ∨ text = value.toList ∧ value.toList.head? ≠ some '=') := by
  unfold joinedValue?
  split
  · exact Or.inl ⟨rfl, rfl⟩
  · next value => exact Or.inr ⟨.ofList value, rfl, Or.inl (by rw [String.toList_ofList])⟩
  · next hnil hequals =>
    refine Or.inr ⟨.ofList text, rfl, Or.inr ⟨by rw [String.toList_ofList], ?_⟩⟩
    rw [String.toList_ofList]
    intro hhead
    rcases List.head?_eq_some_iff.mp hhead with ⟨value, hvalue⟩
    exact hequals value hvalue

/-- An argument that is an option has no value in it just if it is the bare option. -/
theorem ofString_eq_parameter {argument : String} {parameter : Parameter} {joined : Option String}
    (h : ofString argument = .parameter parameter joined) :
    joined = none ∧ (argument = parameter.short ∨ argument = parameter.long) ∨
      ∃ value, joined = some value ∧ Attached parameter value argument := by
  unfold ofString at h
  split at h
  · cases h
  · next text _ htext =>
    rcases of_ofLong_eq h with ⟨rfl, hname⟩ | ⟨value, rfl, hname⟩
    · have hlong : argument = parameter.long := by
        rw [← String.toList_inj, htext, hname, parameter.toList_long]
      exact Or.inl ⟨rfl, Or.inr hlong⟩
    · have hlong : argument = parameter.long ++ "=" ++ value := by
        rw [← String.toList_inj, htext, hname]
        simp [parameter.toList_long]
      rw [hlong]
      exact Or.inr ⟨value, rfl, .long⟩
  · next letter text _ _ htext =>
    rcases of_ofShort_eq h with ⟨rfl, rfl⟩
    rcases joinedValue?_cases text with ⟨hnone, rfl⟩ | ⟨value, hsome, hvalue⟩
    · have hshort : argument = parameter.short := by
        rw [← String.toList_inj, htext, parameter.toList_short]
      exact Or.inl ⟨hnone, Or.inl hshort⟩
    · refine Or.inr ⟨value, hsome, ?_⟩
      rcases hvalue with rfl | ⟨rfl, hequals⟩
      · have hshort : argument = parameter.short ++ "=" ++ value := by
          rw [← String.toList_inj, htext]
          simp [parameter.toList_short]
        rw [hshort]
        exact .short
      · have hshort : argument = parameter.short ++ value := by
          rw [← String.toList_inj, htext]
          simp [parameter.toList_short]
        rw [hshort]
        exact .joined hequals
  · cases h

theorem ofString_eq_separator {argument : String} (h : ofString argument = .separator) :
    argument = "--" := by
  unfold ofString at h
  split at h
  · next htext => exact String.toList_inj.mp htext
  · next text _ _ =>
    unfold ofLong at h
    dsimp only at h
    split at h <;> cases h
  · next letter text _ _ _ =>
    unfold ofShort at h
    split at h <;> cases h
  · cases h

theorem isValue_iff {value : String} :
    isValue value = true ↔ value = "-" ∨ value.toList.head? ≠ some '-' := by
  simp [isValue]

end Argument

end LoxTokens
