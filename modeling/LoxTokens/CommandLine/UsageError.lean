import LoxTokens.PlainText

/-!
# Usage errors

What the command line can ask for, and what can be wrong with it.

- `Mode` and `Parameter` are the modes and the options that take a value
- `UsageError.message` says in words what is wrong
-/

namespace LoxTokens

/-- What the program does with its input. -/
inductive Mode where
  | tokenize
  | repl
  deriving DecidableEq

/-- A mode is named in exactly one way. -/
def Mode.ofName? : String → Option Mode
  | "tokenize" => some tokenize
  | "repl" => some repl
  | _ => none

/-- An option that takes a value. -/
inductive Parameter where
  | script
  | mode
  deriving DecidableEq

/-- The way a parameter is written in messages. -/
def Parameter.usage : Parameter → String
  | script => "--script <SCRIPT>"
  | mode => "--mode <MODE>"

/-- What can be wrong with a list of arguments. -/
inductive UsageError where
  | unexpectedArgument (argument : String)
  | unexpectedValue (value flag : String)
  | missingValue (parameter : Parameter)
  | repeated (parameter : Parameter)
  | invalidMode (name : String)
  | scriptRequired
  deriving DecidableEq

/-- The wording of a usage error.  What was given on the command line is quoted as plain text. -/
def UsageError.message : UsageError → String
  | unexpectedArgument argument =>
    "error: unexpected argument '" ++ plainText argument ++ "' found"
  | unexpectedValue value flag =>
    "error: unexpected value '" ++ plainText value ++ "' for '" ++ flag ++
      "' found; no more were expected"
  | missingValue parameter =>
    "error: a value is required for '" ++ parameter.usage ++ "' but none was supplied"
  | repeated parameter =>
    "error: the argument '" ++ parameter.usage ++ "' cannot be used multiple times"
  | invalidMode name =>
    "error: invalid value '" ++ plainText name ++ "' for '" ++ Parameter.mode.usage ++ "'"
  | scriptRequired => "error: --script is required in tokenize mode"

end LoxTokens
