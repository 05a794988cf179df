import Mathlib.Data.List.Nodup
import LoxTokens.Proofs.ModesApart
import LoxTokens.Proofs.Options

/-!
# The command line

Which lists of arguments ask for a mode.  The arguments are taken from left to right by a machine
that leaves a value unchecked until the next option comes; all the same it takes just the lists that
write out values, and nothing but these values decides, whatever their order and spelling.

- `Acceptable` says which values may be given together, and `Asks` what they ask for
- `Given.Holds.exists_addAll` and `Given.Holds.addAll` are the two sides for the values
- `Request.takeArguments_eq` and `Request.finishes_of_takeArguments` are those for the arguments
- `asks_for_mode_iff` is the result
-/

/-- What is done in two steps succeeds only if both do. -/
theorem Except.exists_of_bind_eq_ok {ε α β : Type} {x : Except ε α} {f : α → Except ε β} {b : β}
    (h : x >>= f = .ok b) : ∃ a, x = .ok a ∧ f a = .ok b := by
  cases x with
  | error e => cases h
  | ok a => exact ⟨a, rfl, h⟩

namespace LoxTokens

/-! ## Values that go together -/

/-- The way a mode is named. -/
def Mode.name : Mode → String
  | tokenize => "tokenize"
  | repl => "repl"

/-- The mode that is used: the one that is given, and `tokenize` if none is. -/
def UsesMode (values : List (Parameter × String)) (mode : Mode) : Prop :=
  (.mode, mode.name) ∈ values ∨ mode = .tokenize ∧ ∀ name, (.mode, name) ∉ values

/-- Values that may be given together: one for each parameter at most, and existing modes. -/
structure Compatible (values : List (Parameter × String)) : Prop where
  once : (values.map Prod.fst).Nodup
  known : ∀ name, (.mode, name) ∈ values → name = "tokenize" ∨ name = "repl"

theorem Compatible.of_append {values more : List (Parameter × String)}
    (h : Compatible (values ++ more)) : Compatible values where
  once := by
    have honce := h.once
    rw [List.map_append] at honce
    exact honce.of_append_left
  known name hmem := h.known name (List.mem_append_left more hmem)

/-- Values that ask for a mode: the script may be missing in the mode `repl` only. -/
structure Acceptable (values : List (Parameter × String)) : Prop extends Compatible values where
  script : UsesMode values .repl ∨ ∃ script, (.script, script) ∈ values

/-- What values ask for. -/
inductive Asks (values : List (Parameter × String)) : Request → Prop where
  | tokenize {script : String} :
      UsesMode values .tokenize → (.script, script) ∈ values → Asks values (.tokenize script)
  | repl : UsesMode values .repl → Asks values .repl

theorem Mode.ofName?_eq_some_iff {name : String} {mode : Mode} :
    Mode.ofName? name = some mode ↔ name = mode.name := by
  unfold Mode.ofName?
  split
  · cases mode <;> simp [Mode.name]
  · cases mode <;> simp [Mode.name]
  · next htokenize hrepl =>
    cases mode with
    | tokenize => simpa [Mode.name] using htokenize
    | repl => simpa [Mode.name] using hrepl

theorem Mode.name_injective : Function.Injective Mode.name := by
  intro mode mode' h
  have hname := Mode.ofName?_eq_some_iff.mpr h
  rw [Mode.ofName?_eq_some_iff.mpr rfl] at hname
  exact Option.some.inj hname

theorem Mode.exists_ofName?_iff {name : String} :
    (∃ mode, Mode.ofName? name = some mode) ↔ name = "tokenize" ∨ name = "repl" := by
  simp only [Mode.ofName?_eq_some_iff]
  constructor
  · rintro ⟨_ | _, rfl⟩
    · exact Or.inl rfl
    · exact Or.inr rfl
  · rintro (rfl | rfl)
    · exact ⟨.tokenize, rfl⟩
    · exact ⟨.repl, rfl⟩

/-! ## Adding values -/

namespace Given

/-- The value given for a parameter, as it was written. -/
def value? (given : Given) : Parameter → Option String
  | .script => given.script
  | .mode => given.mode.map Mode.name

/-- What is given is what was written so far, and that was all right. -/
structure Holds (given : Given) (values : List (Parameter × String)) : Prop
    extends Compatible values where
  mem_iff : ∀ parameter value, given.value? parameter = some value ↔ (parameter, value) ∈ values

/-- Values added one by one, up to the first that is refused. -/
def addAll (given : Given) (values : List (Parameter × String)) : Except UsageError Given :=
  values.foldlM (fun given entry => given.add entry.1 entry.2) given

theorem addAll_cons (given : Given) (entry : Parameter × String)
    (values : List (Parameter × String)) :
    given.addAll (entry :: values) =
      (given.add entry.1 entry.2).bind fun given => given.addAll values :=
  List.foldlM_cons

theorem holds_nothing : Holds { script := none, mode := none } [] where
  once := List.nodup_nil
  known := nofun
  mem_iff := by
    rintro (_ | _) value <;> simp [value?]

/-- A value that may be added is what is given for its parameter from then on. -/
theorem exists_add {given : Given} {parameter : Parameter} {value : String}
    (hfirst : given.value? parameter = none) (hvalue : value ≠ "")
    (hknown : parameter = .mode → value = "tokenize" ∨ value = "repl") :
    ∃ given', given.add parameter value = .ok given' ∧
      ∀ other, given'.value? other =
        if other = parameter then some value else given.value? other := by
  have hempty : value.isEmpty = false := by simpa using hvalue
  cases parameter with
  | script =>
    have hscript : given.script = none := hfirst
    refine ⟨{ given with script := some value }, by simp [add, hscript, hempty], ?_⟩
    rintro (_ | _) <;> rfl
  | mode =>
    have hmode : given.mode = none := Option.map_eq_none_iff.mp hfirst
    rcases Mode.exists_ofName?_iff.mpr (hknown rfl) with ⟨mode, hname⟩
    refine ⟨{ given with mode := some mode }, by simp [add, hmode, hempty, hname], ?_⟩
    rw [Mode.ofName?_eq_some_iff.mp hname]
    rintro (_ | _) <;> rfl

/-- Nothing else can be added. -/
theorem of_add_eq_ok {given given' : Given} {parameter : Parameter} {value : String}
    (h : given.add parameter value = .ok given') :
    given.value? parameter = none ∧ value ≠ "" ∧
      (parameter = .mode → value = "tokenize" ∨ value = "repl") := by
  cases parameter with
  | script =>
    unfold add at h
    dsimp only at h
    split at h
    · cases h
    · next hfirst =>
      split at h
      · cases h
      · next hvalue => exact ⟨by simpa [value?] using hfirst, by simpa using hvalue, nofun⟩
  | mode =>
    unfold add at h
    dsimp only at h
    split at h
    · cases h
    · next hfirst =>
      split at h
      · cases h
      · next hvalue =>
        split at h
        · next mode hname =>
          have hmode : given.value? .mode = none := by simpa [value?] using hfirst
          have hknown := Mode.exists_ofName?_iff.mp ⟨mode, hname⟩
          exact ⟨hmode, by simpa using hvalue, fun _ => hknown⟩
        · cases h

/-! ## All values -/

/-- A further value goes with those before it just if it can be added to them. -/
theorem Holds.compatible_concat_iff {given : Given} {values : List (Parameter × String)}
    (h : given.Holds values) {parameter : Parameter} {value : String} :
    Compatible (values ++ [(parameter, value)]) ↔
      given.value? parameter = none ∧
        (parameter = .mode → value = "tokenize" ∨ value = "repl") := by
  -- nothing is given for a parameter just if it was not written
  have hnone : given.value? parameter = none ↔ parameter ∉ values.map Prod.fst := by
    rw [Option.eq_none_iff_forall_ne_some]
    simp [h.mem_iff]
  rw [hnone]
  constructor
  · intro hboth
    have honce := hboth.once
    rw [List.map_append, List.map_singleton, List.nodup_append] at honce
    refine ⟨fun hmem => honce.2.2 _ hmem _ (by simp) rfl, ?_⟩
    rintro rfl
    exact hboth.known value (by simp)
  · rintro ⟨hnew, hknown⟩
    refine ⟨?_, ?_⟩
    · rw [List.map_append, List.map_singleton]
      refine List.nodup_append.mpr ⟨h.once, List.nodup_singleton _, ?_⟩
      rintro other hother _ hnext rfl
      rw [List.mem_singleton.mp hnext] at hother
      exact hnew hother
    · intro name hmem
      rcases List.mem_append.mp hmem with hmem | hmem
      · exact h.known name hmem
      · have heq := List.mem_singleton.mp hmem
        cases heq
        exact hknown rfl

theorem Holds.concat {given given' : Given} {values : List (Parameter × String)}
    (h : given.Holds values) {parameter : Parameter} {value : String}
    (hadd : given.add parameter value = .ok given') :
    given'.Holds (values ++ [(parameter, value)]) := by
  rcases of_add_eq_ok hadd with ⟨hfirst, hvalue, hknown⟩
  rcases exists_add hfirst hvalue hknown with ⟨added, hadded, hvalues⟩
  rw [hadd, Except.ok.injEq] at hadded
  subst hadded
  refine { h.compatible_concat_iff.mpr ⟨hfirst, hknown⟩ with mem_iff := ?_ }
  intro other name
  rw [hvalues, List.mem_append, List.mem_singleton, Prod.mk.injEq, ← h.mem_iff]
  by_cases hother : other = parameter
  · subst hother
    simp [hfirst, eq_comm]
  · simp [hother]

/-- What is added value by value holds all of them. -/
theorem Holds.addAll {given given' : Given} {done values : List (Parameter × String)}
    (h : given.Holds done) (hall : given.addAll values = .ok given') :
    given'.Holds (done ++ values) := by
  induction values generalizing given done with
  | nil =>
    cases hall
    simpa using h
  | cons entry values ih =>
    rw [addAll_cons] at hall
    cases hadd : given.add entry.1 entry.2 with
    | error error =>
      rw [hadd] at hall
      cases hall
    | ok next =>
      rw [hadd] at hall
      simpa using ih (h.concat hadd) hall

/-- Values that go together can be added one by one. -/
theorem Holds.exists_addAll {given : Given} {done values : List (Parameter × String)}
    (h : given.Holds done) (hvalues : ∀ entry ∈ values, entry.2 ≠ "")
    (hall : Compatible (done ++ values)) : ∃ given', given.addAll values = .ok given' := by
  induction values generalizing given done with
  | nil => exact ⟨given, rfl⟩
  | cons entry values ih =>
    rcases List.forall_mem_cons.mp hvalues with ⟨hvalue, hothers⟩
    rw [List.append_cons] at hall
    rcases h.compatible_concat_iff.mp hall.of_append with ⟨hfirst, hknown⟩
    rcases exists_add hfirst hvalue hknown with ⟨next, hadd, -⟩
    rcases ih (h.concat hadd) hothers hall with ⟨given', hgiven⟩
    refine ⟨given', ?_⟩
    rw [addAll_cons, hadd]
    exact hgiven

/-! ## What values ask for -/

theorem Holds.usesMode_iff {given : Given} {values : List (Parameter × String)}
    (h : given.Holds values) {mode : Mode} :
    UsesMode values mode ↔ given.mode.getD .tokenize = mode := by
  unfold UsesMode
  simp only [← h.mem_iff]
  cases hgiven : given.mode with
  | none => simp [value?, hgiven, eq_comm]
  | some other => simp [value?, hgiven, Mode.name_injective.eq_iff]

/-- The request that is made of all values is what they ask for, and there is none if they ask for
nothing. -/
theorem Holds.ofGiven_eq_ok_iff {given : Given} {values : List (Parameter × String)}
    (h : given.Holds values) {request : Request} :
    Request.ofGiven given = .ok request ↔ Asks values request := by
  have hscript : ∀ script, given.script = some script ↔ (.script, script) ∈ values :=
    h.mem_iff .script
  unfold Request.ofGiven
  constructor
  · intro hasked
    split at hasked
    · next hmode =>
      cases hasked
      exact .repl (h.usesMode_iff.mpr hmode)
    · next script hmode hgiven =>
      cases hasked
      exact .tokenize (h.usesMode_iff.mpr hmode) ((hscript script).mp hgiven)
    · cases hasked
  · rintro (⟨hmode, hmem⟩ | hmode)
    · rw [h.usesMode_iff.mp hmode, (hscript _).mpr hmem]
    · rw [h.usesMode_iff.mp hmode]

end Given

/-! ## Taking arguments -/

namespace Pending

/-- What the arguments still have to be, by what the option before lacks. -/
inductive Finishes : Pending → List String → Prop where
  | nothing {values : List (Parameter × String)} {arguments : List String} :
      Writes values arguments → Finishes nothing arguments
  | due {parameter : Parameter} {value : String} {values : List (Parameter × String)}
      {arguments : List String} :
      value = "-" ∨ value.toList.head? ≠ some '-' → value ≠ "" → Writes values arguments →
        Finishes (due parameter) (value :: arguments)
  | unchecked {parameter : Parameter} {value : String} {values : List (Parameter × String)}
      {arguments : List String} :
      value ≠ "" → Writes values arguments → Finishes (unchecked parameter value) arguments

theorem finishes_of_settle {pending : Pending} {given given' : Given}
    (h : pending.settle given = .ok given') {values : List (Parameter × String)}
    {arguments : List String} (hwrites : Writes values arguments) :
    pending.Finishes arguments := by
  cases pending with
  | nothing => exact .nothing hwrites
  | due parameter => cases h
  | unchecked parameter value => exact .unchecked (Given.of_add_eq_ok h).2.1 hwrites

theorem of_accept?_eq_some {pending next : Pending} {argument : String}
    (h : pending.accept? argument = some next) :
    ∃ parameter, pending = .due parameter ∧ next = .unchecked parameter argument ∧
      Argument.isValue argument = true := by
  cases pending with
  | due parameter =>
    unfold accept? at h
    dsimp only at h
    split at h
    · next hvalue =>
      cases h
      exact ⟨parameter, rfl, rfl, hvalue⟩
    · cases h
  | nothing => cases h
  | unchecked parameter value => cases h

end Pending

namespace Request

/-- Arguments that ask for a mode write out values.  The induction is on the arguments, with what
is given and what is pending generalised. -/
theorem finishes_of_takeArguments {given : Given} {pending : Pending} {arguments : List String}
    {request : Request} (h : takeArguments given pending arguments = .ok request)
    (hhelp : request ≠ .help) (hversion : request ≠ .version) : pending.Finishes arguments := by
  induction arguments generalizing given pending with
  | nil =>
    rcases Except.exists_of_bind_eq_ok h with ⟨settled, hsettle, -⟩
    exact Pending.finishes_of_settle hsettle .nothing
  | cons argument others ih =>
    rw [takeArguments.eq_def] at h
    dsimp only at h
    split at h
    · next next haccept =>
      -- the argument is the value that was due
      rcases Pending.of_accept?_eq_some haccept with ⟨parameter, rfl, rfl, hvalue⟩
      cases ih h with
      | unchecked hempty hwrites =>
        exact .due (Argument.isValue_iff.mp hvalue) hempty hwrites
    · split at h
      · cases h
      · next hargument =>
        split at h
        · rcases Except.exists_of_bind_eq_ok h with ⟨settled, hsettle, -⟩
          rw [Argument.ofString_eq_separator hargument]
          exact Pending.finishes_of_settle hsettle .separator
        · cases h
      · -- help and the version are answers, but no modes
        rcases Except.exists_of_bind_eq_ok h with ⟨_, -, hanswer⟩
        cases hanswer
        exact absurd rfl hhelp
      · rcases Except.exists_of_bind_eq_ok h with ⟨_, -, hanswer⟩
        cases hanswer
        exact absurd rfl hversion
      · next parameter hargument =>
        -- a bare option: by induction its value comes next
        rcases Except.exists_of_bind_eq_ok h with ⟨settled, hsettle, hothers⟩
        cases ih hothers with
        | due hvalue hempty hwrites =>
          have hflag := (Argument.ofString_eq_parameter hargument).resolve_right (by simp)
          exact Pending.finishes_of_settle hsettle
            (.option hempty (.apart hflag.2 hvalue) hwrites)
      · next parameter value hargument =>
        rcases Except.exists_of_bind_eq_ok h with ⟨settled, hsettle, hadd⟩
        rcases Except.exists_of_bind_eq_ok hadd with ⟨added, hadded, hothers⟩
        -- the value stands in the argument, and it was looked at
        cases ih hothers with
        | nothing hwrites =>
          rcases Argument.ofString_eq_parameter hargument with ⟨hnone, -⟩ | ⟨_, hsome, hattached⟩
          · cases hnone
          · cases hsome
            exact Pending.finishes_of_settle hsettle
              (.option (Given.of_add_eq_ok hadded).2.1 (.attached hattached) hwrites)

theorem takeArguments_value {given : Given} {parameter : Parameter} {value : String}
    (hvalue : Argument.isValue value = true) (others : List String) :
    takeArguments given (.due parameter) (value :: others) =
      takeArguments given (.unchecked parameter value) others := by
  rw [takeArguments.eq_def]
  simp [Pending.accept?, hvalue]

theorem takeArguments_flag {given : Given} {pending : Pending} {flag : String}
    {parameter : Parameter} (hpending : pending.accept? flag = none)
    (hflag : Argument.ofString flag = .parameter parameter none) (others : List String) :
    takeArguments given pending (flag :: others) =
      pending.settle given >>= fun given => takeArguments given (.due parameter) others := by
  rw [takeArguments.eq_def]
  simp only [hpending, hflag]

theorem takeArguments_attached {given : Given} {pending : Pending} {argument value : String}
    {parameter : Parameter} (hpending : pending.accept? argument = none)
    (hargument : Argument.ofString argument = .parameter parameter (some value))
    (others : List String) :
    takeArguments given pending (argument :: others) =
      pending.settle given >>= fun given => given.add parameter value >>= fun given =>
        takeArguments given .nothing others := by
  rw [takeArguments.eq_def]
  simp only [hpending, hargument]

theorem takeArguments_separator {given : Given} {pending : Pending}
    (hpending : pending.accept? "--" = none) :
    takeArguments given pending ["--"] = pending.settle given >>= ofGiven := by
  have hseparator : Argument.ofString "--" = .separator := rfl
  rw [takeArguments.eq_def]
  simp only [hpending, hseparator]

/-- A value that is left unchecked is looked at before anything else that is written. -/
theorem takeArguments_unchecked {values : List (Parameter × String)} {arguments : List String}
    (h : Writes values arguments) (given : Given) (parameter : Parameter) (value : String) :
    takeArguments given (.unchecked parameter value) arguments =
      given.add parameter value >>= fun given => takeArguments given .nothing arguments := by
  cases h with
  | nothing => rfl
  | separator =>
    rw [takeArguments_separator rfl]
    rfl
  | option hempty hwritten _ =>
    cases hwritten with
    | apart hflag _ =>
      -- on both sides the option settles first, and nothing is pending behind that
      have hargument := Argument.ofString_flag hflag
      rw [List.cons_append, takeArguments_flag rfl hargument]
      congr 1
      funext settled
      rw [takeArguments_flag rfl hargument]
      rfl
    | attached hattached =>
      have hargument := Argument.ofString_attached hempty hattached
      rw [List.cons_append, takeArguments_attached rfl hargument]
      congr 1
      funext settled
      rw [takeArguments_attached rfl hargument]
      rfl

/-- Arguments that write out values give them one by one.  The induction is on the way they are
written, with what is given before generalised. -/
theorem takeArguments_eq {values : List (Parameter × String)} {arguments : List String}
    (h : Writes values arguments) (given : Given) :
    takeArguments given .nothing arguments = given.addAll values >>= ofGiven := by
  induction h generalizing given with
  | nothing => rfl
  | separator => rfl
  | @option parameter value written arguments values hempty hwritten hothers ih =>
    have hnext : takeArguments given .nothing (written ++ arguments) =
        given.add parameter value >>= fun given => takeArguments given .nothing arguments := by
      cases hwritten with
      | apart hflag hvalue =>
        have hargument := Argument.ofString_flag hflag
        calc
          takeArguments given .nothing (_ :: value :: arguments)
              = takeArguments given (.due parameter) (value :: arguments) :=
                takeArguments_flag rfl hargument _
          _ = takeArguments given (.unchecked parameter value) arguments :=
                takeArguments_value (Argument.isValue_iff.mpr hvalue) _
          _ = _ := takeArguments_unchecked hothers given parameter value
      | attached hattached =>
        exact takeArguments_attached rfl (Argument.ofString_attached hempty hattached) _
    rw [hnext, Given.addAll_cons]
    simp only [ih]
    cases given.add parameter value <;> rfl

/-- What arguments ask for that write out acceptable values. -/
theorem ofArguments_eq_ok_iff {values : List (Parameter × String)} {arguments : List String}
    (h : Writes values arguments) (hcompatible : Compatible values) {request : Request} :
    ofArguments arguments = .ok request ↔ Asks values request := by
  rcases Given.holds_nothing.exists_addAll h.ne_empty hcompatible with ⟨given, hgiven⟩
  have hholds : given.Holds values := Given.holds_nothing.addAll hgiven
  unfold ofArguments
  rw [takeArguments_eq h, hgiven]
  exact hholds.ofGiven_eq_ok_iff

/-- Arguments that ask for a mode write out acceptable values. -/
theorem exists_acceptable {arguments : List String} {request : Request}
    (h : ofArguments arguments = .ok request) (hhelp : request ≠ .help)
    (hversion : request ≠ .version) : ∃ values, Writes values arguments ∧ Acceptable values := by
  cases finishes_of_takeArguments h hhelp hversion with
  | @nothing values _ hwrites =>
    refine ⟨values, hwrites, ?_⟩
    unfold ofArguments at h
    rw [takeArguments_eq hwrites] at h
    rcases Except.exists_of_bind_eq_ok h with ⟨given, hgiven, hasked⟩
    have hholds : given.Holds values := Given.holds_nothing.addAll hgiven
    refine { hholds.toCompatible with script := ?_ }
    cases hholds.ofGiven_eq_ok_iff.mp hasked with
    | tokenize _ hmem => exact Or.inr ⟨_, hmem⟩
    | repl hmode => exact Or.inl hmode

end Request

/-! ## Asking for a mode -/

theorem Compatible.exists_usesMode {values : List (Parameter × String)} (h : Compatible values) :
    UsesMode values .tokenize ∨ UsesMode values .repl := by
  by_cases hgiven : ∃ name, (.mode, name) ∈ values
  · rcases hgiven with ⟨name, hmem⟩
    rcases h.known name hmem with rfl | rfl
    · exact Or.inl (Or.inl hmem)
    · exact Or.inr (Or.inl hmem)
  · exact Or.inl (Or.inr ⟨rfl, not_exists.mp hgiven⟩)

/-- Acceptable values ask for a mode. -/
theorem Acceptable.exists_asks {values : List (Parameter × String)} (h : Acceptable values) :
    (∃ script, Asks values (.tokenize script)) ∨ Asks values .repl := by
  rcases h.exists_usesMode with hmode | hmode
  · rcases h.script with hrepl | ⟨script, hmem⟩
    · exact Or.inr (.repl hrepl)
    · exact Or.inl ⟨script, .tokenize hmode hmem⟩
  · exact Or.inr (.repl hmode)

/-- The same mode is used, and the same script is given. -/
structure SameValues (values values' : List (Parameter × String)) : Prop where
  mode : ∀ mode, UsesMode values mode ↔ UsesMode values' mode
  script : ∀ script, (.script, script) ∈ values ↔ (.script, script) ∈ values'

/-- Values in another order are the same values. -/
theorem sameValues_of_perm {values values' : List (Parameter × String)}
    (h : values.Perm values') : SameValues values values' where
  mode mode := by
    unfold UsesMode
    simp only [h.mem_iff]
  script _ := h.mem_iff

theorem SameValues.asks {values values' : List (Parameter × String)}
    (h : SameValues values values') {request : Request} (hasks : Asks values request) :
    Asks values' request := by
  cases hasks with
  | tokenize hmode hmem => exact .tokenize ((h.mode _).mp hmode) ((h.script _).mp hmem)
  | repl hmode => exact .repl ((h.mode _).mp hmode)

/-- A mode is asked for just by the lists of arguments that write out acceptable values: options
with values that are not empty, each parameter once at most, a mode that exists, and a script unless
the mode is `repl`; a separator may stand at the end.  The mode that is used, `tokenize` if none is
given, and the script are the values that are written, so that two lists run alike if these are the
same, whatever their order and spelling. -/
theorem asks_for_mode_iff (arguments : List String) :
    (((∃ script, Request.ofArguments arguments = .ok (.tokenize script)) ∨
        Request.ofArguments arguments = .ok .repl) ↔
      ∃ values, Writes values arguments ∧ Acceptable values) ∧
    ∀ values, Writes values arguments → Acceptable values →
      (∀ request, Request.ofArguments arguments = .ok request ↔ Asks values request) ∧
      (∀ script, UsesMode values .tokenize → (.script, script) ∈ values →
        ∀ stdin directory, execute arguments stdin directory =
          (tokenizeFile (directory.read script) (.onto .unbounded) .unbounded).outcome script) ∧
      (UsesMode values .repl → ∀ stdin directory, execute arguments stdin directory =
        (repl stdin (.onto .unbounded) .unbounded).outcome "stdin") ∧
      ∀ arguments' values', Writes values' arguments' → Acceptable values' →
        SameValues values values' →
        ∀ stdin directory, execute arguments stdin directory =
          execute arguments' stdin directory := by
  refine ⟨⟨?_, ?_⟩, fun values hwrites hvalues => ?_⟩
  · rintro (⟨script, hasked⟩ | hasked)
    · exact Request.exists_acceptable hasked nofun nofun
    · exact Request.exists_acceptable hasked nofun nofun
  · rintro ⟨values, hwrites, hvalues⟩
    have hiff := @Request.ofArguments_eq_ok_iff values arguments hwrites hvalues.toCompatible
    rcases hvalues.exists_asks with ⟨script, hasks⟩ | hasks
    · exact Or.inl ⟨script, hiff.mpr hasks⟩
    · exact Or.inr (hiff.mpr hasks)
  · have hiff := @Request.ofArguments_eq_ok_iff values arguments hwrites hvalues.toCompatible
    refine ⟨fun _ => hiff, ?_, ?_, ?_⟩
    · intro script hmode hmem stdin directory
      exact execute_of_ok (hiff.mpr (.tokenize hmode hmem)) stdin directory
    · intro hmode stdin directory
      exact execute_of_ok (hiff.mpr (.repl hmode)) stdin directory
    · intro arguments' values' hwrites' hvalues' hsame stdin directory
      -- what the first values ask for, the others ask for too
      have hrun : ∀ request, Asks values request →
          execute arguments stdin directory = execute arguments' stdin directory := by
        intro request hasks
        have hasked' := (Request.ofArguments_eq_ok_iff hwrites' hvalues'.toCompatible).mpr
          (hsame.asks hasks)
        rw [execute_of_ok (hiff.mpr hasks), execute_of_ok hasked']
      rcases hvalues.exists_asks with ⟨script, hasks⟩ | hasks
      · exact hrun _ hasks
      · exact hrun _ hasks

/-- A script that is named like an option in front of a mode and behind it, the values written in
four of the ways. -/
theorem asks_for_mode_iff_dash :
    (Writes [(.mode, "tokenize"), (.script, "-")] ["-mtokenize", "--script", "-", "--"] ∧
      Acceptable [(.mode, "tokenize"), (.script, "-")]) ∧
    (Writes [(.script, "-"), (.mode, "tokenize")] ["-s=-", "--mode=tokenize"] ∧
      Acceptable [(.script, "-"), (.mode, "tokenize")]) ∧
    ((∃ script, Request.ofArguments ["-mtokenize", "--script", "-", "--"] =
        .ok (.tokenize script)) ∨
      Request.ofArguments ["-mtokenize", "--script", "-", "--"] = .ok .repl) ∧
    execute ["-mtokenize", "--script", "-", "--"] "1".toUTF8 { entries := [] } =
      execute ["-s=-", "--mode=tokenize"] "1".toUTF8 { entries := [] } := by
  have hwrites : Writes [(.mode, "tokenize"), (.script, "-")]
      ["-mtokenize", "--script", "-", "--"] := by
    have hmode : Attached .mode "tokenize" "-mtokenize" := .joined (by decide)
    exact .option (by decide) (.attached hmode)
      (.option (by decide) (.apart (Or.inr rfl) (Or.inl rfl)) .separator)
  have hwrites' : Writes [(.script, "-"), (.mode, "tokenize")] ["-s=-", "--mode=tokenize"] := by
    have hscript : Attached .script "-" "-s=-" := .short
    have hmode : Attached .mode "tokenize" "--mode=tokenize" := .long
    exact .option (by decide) (.attached hscript)
      (.option (by decide) (.attached hmode) .nothing)
  have hvalues : Acceptable [(.mode, "tokenize"), (.script, "-")] :=
    { once := by decide, known := by simp, script := Or.inr ⟨"-", by simp⟩ }
  have hvalues' : Acceptable [(.script, "-"), (.mode, "tokenize")] :=
    { once := by decide, known := by simp, script := Or.inr ⟨"-", by simp⟩ }
  have hsame : SameValues [(.mode, "tokenize"), (.script, "-")]
      [(.script, "-"), (.mode, "tokenize")] :=
    sameValues_of_perm (List.Perm.swap _ _ _)
  have hall := asks_for_mode_iff ["-mtokenize", "--script", "-", "--"]
  exact ⟨⟨hwrites, hvalues⟩, ⟨hwrites', hvalues'⟩, hall.1.mpr ⟨_, hwrites, hvalues⟩,
    (hall.2 _ hwrites hvalues).2.2.2 _ _ hwrites' hvalues' hsame _ _⟩

end LoxTokens
