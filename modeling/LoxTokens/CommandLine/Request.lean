import LoxTokens.CommandLine.Argument

/-!
# Requests

The arguments of the program, taken from left to right.

- `Pending` is what an option still lacks when the next argument comes
- `Request.ofArguments` says what a list of arguments asks for, or what is wrong with it
- `helpText` and `versionText` are the answers that need no input
-/

namespace LoxTokens

/-- The values given so far. -/
structure Given where
  script : Option String
  mode : Option Mode
  deriving DecidableEq

/-- Adds the value of a parameter: it must be the first for it, it must not be empty, and a
mode must exist. -/
def Given.add (given : Given) (parameter : Parameter) (value : String) :
    Except UsageError Given :=
  match parameter with
  | .script =>
    if given.script.isSome then .error (.repeated .script)
    else if value.isEmpty then .error (.missingValue .script)
    else .ok { given with script := some value }
  | .mode =>
    if given.mode.isSome then .error (.repeated .mode)
    else if value.isEmpty then .error (.missingValue .mode)
    else
      match Mode.ofName? value with
      | some mode => .ok { given with mode := some mode }
      | none => .error (.invalidMode value)

/-- What the option before still lacks.  A value that is an argument of its own is not looked at
where it stands, but with the next option, or at the end. -/
inductive Pending where
  | nothing
  | due (parameter : Parameter)
  | unchecked (parameter : Parameter) (value : String)
  deriving DecidableEq

namespace Pending

/-- Takes an argument as the value that is due, if one is due and the argument can be one. -/
def accept? : Pending → String → Option Pending
  | due parameter, argument =>
    if Argument.isValue argument then some (unchecked parameter argument) else none
  | _, _ => none

/-- Adds the value that was left unchecked.  One that is still due is missing. -/
def settle (pending : Pending) (given : Given) : Except UsageError Given :=
  match pending with
  | nothing => .ok given
  | due parameter => .error (.missingValue parameter)
  | unchecked parameter value => given.add parameter value

end Pending

/-- What a list of arguments asks for. -/
inductive Request where
  | help
  | version
  | tokenize (script : String)
  | repl
  deriving DecidableEq

namespace Request

/-- What the given values ask for: tokens of a script, unless another mode is given. -/
def ofGiven (given : Given) : Except UsageError Request :=
  match given.mode.getD .tokenize, given.script with
  | .repl, _ => .ok .repl
  | .tokenize, some script => .ok (.tokenize script)
  | .tokenize, none => .error .scriptRequired

/-- Takes the arguments one by one.  An argument that is refused answers at once, before anything
pending is looked at; an option settles what is pending first, and so does the end.  Behind the
separator nothing may follow. -/
def takeArguments (given : Given) (pending : Pending) :
    List String → Except UsageError Request
  | [] => do ofGiven (← pending.settle given)
  | argument :: others =>
    match pending.accept? argument with
    | some pending => takeArguments given pending others
    | none =>
      match Argument.ofString argument with
      | .refused error => .error error
      | .separator =>
        match others with
        | [] => do ofGiven (← pending.settle given)
        | extra :: _ => .error (.unexpectedArgument extra)
      | .help => do
        let _ ← pending.settle given
        return .help
      | .version => do
        let _ ← pending.settle given
        return .version
      | .parameter parameter none => do
        takeArguments (← pending.settle given) (.due parameter) others
      | .parameter parameter (some value) => do
        takeArguments (← (← pending.settle given).add parameter value) .nothing others

/-- What a list of arguments asks for, or what is wrong with it. -/
def ofArguments (arguments : List String) : Except UsageError Request :=
  takeArguments { script := none, mode := none } .nothing arguments

end Request

/-! ## Answers in words -/

def versionText : String :=
  "lox-lexer 0.1.0\n"

def helpText : String :=
  "Print the tokens of a Lox script\n" ++
  "\n" ++
  "Usage: lox-lexer [OPTIONS]\n" ++
  "\n" ++
  "Options:\n" ++
  "  -s, --script <SCRIPT>  \n" ++
  "  -m, --mode <MODE>      [default: tokenize] [possible values: tokenize, repl]\n" ++
  "  -h, --help             Print help\n" ++
  "  -V, --version          Print version\n"

end LoxTokens
