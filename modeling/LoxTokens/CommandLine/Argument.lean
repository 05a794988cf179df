import LoxTokens.CommandLine.UsageError

/-!
# Single arguments

What one argument of the command line is by itself, whatever stands around it.

- `Argument.ofString` classifies an argument
- `Argument.isValue` tells which arguments can be values of the option before them
-/

namespace LoxTokens

/-- What an argument is by itself.  A parameter may have its value joined to it. -/
inductive Argument where
  | separator
  | help
  | version
  | parameter (parameter : Parameter) (joined : Option String)
  | refused (error : UsageError)
  deriving DecidableEq

namespace Argument

/-- An option written out, after its two dashes: a name, and perhaps an equals sign and a value. -/
def ofLong (text : List Char) : Argument :=
  let name := String.ofList (text.takeWhile (· != '='))
  let joined := (text.dropWhile (· != '=')).tail?.map String.ofList
  match name, joined with
  | "script", joined => .parameter .script joined
  | "mode", joined => .parameter .mode joined
  | "help", none => .help
  | "help", some value => .refused (.unexpectedValue value "--help")
  | "version", none => .version
  | "version", some value => .refused (.unexpectedValue value "--version")
  | name, _ => .refused (.unexpectedArgument ("--" ++ name))

/-- The value joined to a one-letter option; an equals sign between the two is not part of it. -/
def joinedValue? : List Char → Option String
  | [] => none
  | '=' :: value => some (.ofList value)
  | value => some (.ofList value)

/-- An option of one letter, after its dash.  What follows the letter of an option that takes no
value is not looked at. -/
def ofShort (letter : Char) (text : List Char) : Argument :=
  match letter with
  | 's' => .parameter .script (joinedValue? text)
  | 'm' => .parameter .mode (joinedValue? text)
  | 'h' => .help
  | 'V' => .version
  | _ => .refused (.unexpectedArgument (.ofList ['-', letter]))

/-- What an argument is by itself.  One that is no option is refused. -/
def ofString (argument : String) : Argument :=
  match argument.toList with
  | ['-', '-'] => .separator
  | '-' :: '-' :: text => ofLong text
  | '-' :: letter :: text => ofShort letter text
  | _ => .refused (.unexpectedArgument argument)

/-- Whether an argument can be the value of the parameter before it: it must not look like an
option, which a lone dash does not. -/
def isValue (argument : String) : Bool :=
  argument == "-" || argument.toList.head? != some '-'

end Argument

end LoxTokens
