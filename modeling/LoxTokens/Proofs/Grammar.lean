import Mathlib.Algebra.Ring.Nat
import LoxTokens.Scan

/-!
# The lexical grammar

Which texts are segments, said without a cursor.  A source is cut into segments by always taking
the longest beginning that the grammar knows.

- `Grammar.operators` and `Grammar.reservedWords` are the spellings that are fixed
- `Grammar.Matches` lists the shapes of segments and the texts of each shape
- `Grammar.Denotes` is the value of a token
- `Grammar.Begins` takes the first segment by longest match, or a fault where nothing matches
- `Grammar.Cut` cuts a whole input
-/

namespace LoxTokens

namespace Grammar

/-! ## Character classes and words -/

def IsDigit (c : Char) : Prop :=
  '0' ≤ c ∧ c ≤ '9'

/-- The letters of the English alphabet, and the underscore. -/
def IsLetter (c : Char) : Prop :=
  ('a' ≤ c ∧ c ≤ 'z') ∨ ('A' ≤ c ∧ c ≤ 'Z') ∨ c = '_'

instance : DecidablePred IsDigit :=
  fun c => inferInstanceAs (Decidable ('0' ≤ c ∧ c ≤ '9'))

instance : DecidablePred IsLetter :=
  fun c => inferInstanceAs (Decidable (('a' ≤ c ∧ c ≤ 'z') ∨ ('A' ≤ c ∧ c ≤ 'Z') ∨ c = '_'))

/-- One digit or more. -/
def IsDigits (text : List Char) : Prop :=
  text ≠ [] ∧ ∀ c ∈ text, IsDigit c

/-- Digits, or digits on either side of a point. -/
inductive IsNumeral : List Char → Prop where
  | whole {digits : List Char} : IsDigits digits → IsNumeral digits
  | fraction {whole part : List Char} :
      IsDigits whole → IsDigits part → IsNumeral (whole ++ '.' :: part)

/-- A letter, and then letters and digits. -/
inductive IsWord : List Char → Prop where
  | mk {first : Char} {others : List Char} :
      IsLetter first → (∀ c ∈ others, IsLetter c ∨ IsDigit c) → IsWord (first :: others)

/-- The operators, each with the kind of its token. -/
def operators : List (List Char × TokenKind) :=
  [(['('], .leftParen), ([')'], .rightParen), (['{'], .leftBrace), (['}'], .rightBrace),
    ([','], .comma), (['.'], .dot), (['-'], .minus), (['+'], .plus), ([';'], .semicolon),
    (['*'], .star), (['/'], .slash),
    (['!'], .bang), (['!', '='], .bangEqual), (['='], .equal), (['=', '='], .equalEqual),
    (['<'], .less), (['<', '='], .lessEqual), (['>'], .greater), (['>', '='], .greaterEqual)]

/-- The reserved words, each with the kind of its token. -/
def reservedWords : List (List Char × TokenKind) :=
  [("and".toList, .andKeyword), ("class".toList, .classKeyword), ("else".toList, .elseKeyword),
    ("false".toList, .falseKeyword), ("for".toList, .forKeyword), ("fun".toList, .funKeyword),
    ("if".toList, .ifKeyword), ("nil".toList, .nilKeyword), ("or".toList, .orKeyword),
    ("print".toList, .printKeyword), ("return".toList, .returnKeyword),
    ("super".toList, .superKeyword), ("this".toList, .thisKeyword), ("true".toList, .trueKeyword),
    ("var".toList, .varKeyword), ("while".toList, .whileKeyword)]

/-! ## Segments -/

/-- The texts that are segments of a shape.  No fault is among them: faults are what is left where
nothing matches. -/
inductive Matches : Shape → List Char → Prop where
  | blank {c : Char} : c ∈ [' ', '\r', '\t', '\n'] → Matches .blank [c]
  | comment {body : List Char} : '\n' ∉ body → Matches .comment ('/' :: '/' :: body)
  | operator {spelling : List Char} {kind : TokenKind} :
      (spelling, kind) ∈ operators → Matches (.token kind) spelling
  | text {body : List Char} : '"' ∉ body → Matches (.token .text) ('"' :: (body ++ ['"']))
  | number {numeral : List Char} : IsNumeral numeral → Matches (.token .number) numeral
  | reserved {word : List Char} {kind : TokenKind} :
      (word, kind) ∈ reservedWords → Matches (.token kind) word
  | identifier {word : List Char} :
      IsWord word → (∀ entry ∈ reservedWords, entry.1 ≠ word) →
        Matches (.token .identifier) word

/-- The value of a token with this text: a text has what stands between its quotes, a number the
double-precision number nearest to its numeral, and no other token has a value. -/
inductive Denotes : TokenKind → List Char → Literal → Prop where
  | text {body : List Char} : Denotes .text ('"' :: (body ++ ['"'])) (.text (.ofList body))
  | whole {digits : List Char} :
      IsDigits digits →
        Denotes .number digits (.number (.ofRatio (Nat.ofDigitChars 10 digits 0) 1))
  | fraction {whole part : List Char} :
      IsDigits whole → IsDigits part →
        Denotes .number (whole ++ '.' :: part)
          (.number (.ofRatio (Nat.ofDigitChars 10 (whole ++ part) 0) (10 ^ part.length)))
  | absent {kind : TokenKind} {lexeme : List Char} :
      kind ≠ .text → kind ≠ .number → Denotes kind lexeme .absent

/-- No beginning of the input is a segment. -/
def NoMatch (input : List Char) : Prop :=
  ∀ shape text, Matches shape text → ¬ text <+: input

/-- A beginning of the input that is a segment, and no longer one is. -/
structure Longest (shape : Shape) (text input : List Char) : Prop where
  grammatical : Matches shape text
  starts : text <+: input
  longest : ∀ shape' other, Matches shape' other → other <+: input → other.length ≤ text.length

/-- The first segment of an input, and what is left behind it.  Where nothing matches, a fault takes
all of the input if a quote begins it, and otherwise one character. -/
inductive Begins : List Char → Segment → List Char → Prop where
  | longest {shape : Shape} {text rest : List Char} :
      Longest shape text (text ++ rest) →
        Begins (text ++ rest) { shape := shape, text := text } rest
  | openText {rest : List Char} :
      NoMatch ('"' :: rest) →
        Begins ('"' :: rest) { shape := .openText, text := '"' :: rest } []
  | stray {c : Char} {rest : List Char} :
      c ≠ '"' → NoMatch (c :: rest) → Begins (c :: rest) { shape := .stray c, text := [c] } rest

/-- An input cut into segments from left to right. -/
inductive Cut : List Char → List Segment → Prop where
  | done : Cut [] []
  | next {input rest : List Char} {s : Segment} {others : List Segment} :
      Begins input s rest → Cut rest others → Cut input (s :: others)

end Grammar

end LoxTokens
