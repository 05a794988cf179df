/-!
# Kinds of token

- `TokenKind` lists the kinds, `TokenKind.name` their printed names
- `TokenKind.keywords` is the table of reserved words, `TokenKind.keyword?` looks a word up in it
- `TokenKind.ofPunctuation?` and `TokenKind.ofComparison?` are the tables of the operators
-/

namespace LoxTokens

/-- What a token is. -/
inductive TokenKind where
  | leftParen
  | rightParen
  | leftBrace
  | rightBrace
  | comma
  | dot
  | minus
  | plus
  | semicolon
  | slash
  | star
  | bang
  | bangEqual
  | equal
  | equalEqual
  | greater
  | greaterEqual
  | less
  | lessEqual
  | identifier
  | text
  | number
  | andKeyword
  | classKeyword
  | elseKeyword
  | falseKeyword
  | funKeyword
  | forKeyword
  | ifKeyword
  | nilKeyword
  | orKeyword
  | printKeyword
  | returnKeyword
  | superKeyword
  | thisKeyword
  | trueKeyword
  | varKeyword
  | whileKeyword
  | eof
  deriving DecidableEq

namespace TokenKind

/-- Every kind, in the order of the definition. -/
def all : List TokenKind :=
  [leftParen, rightParen, leftBrace, rightBrace, comma, dot, minus, plus, semicolon, slash, star,
    bang, bangEqual, equal, equalEqual, greater, greaterEqual, less, lessEqual,
    identifier, text, number,
    andKeyword, classKeyword, elseKeyword, falseKeyword, funKeyword, forKeyword, ifKeyword,
    nilKeyword, orKeyword, printKeyword, returnKeyword, superKeyword, thisKeyword, trueKeyword,
    varKeyword, whileKeyword,
    eof]

/-- The name a kind is printed under. -/
def name : TokenKind → String
  | leftParen => "LeftParen"
  | rightParen => "RightParen"
  | leftBrace => "LeftBrace"
  | rightBrace => "RightBrace"
  | comma => "Comma"
  | dot => "Dot"
  | minus => "Minus"
  | plus => "Plus"
  | semicolon => "SemiColon"
  | slash => "Slash"
  | star => "Star"
  | bang => "Bang"
  | bangEqual => "BangEqual"
  | equal => "Equal"
  | equalEqual => "EqualEqual"
  | greater => "Greater"
  | greaterEqual => "GreaterEqual"
  | less => "Less"
  | lessEqual => "LessEqual"
  | identifier => "Identifier"
  | text => "Text"
  | number => "Number"
  | andKeyword => "And"
  | classKeyword => "Class"
  | elseKeyword => "Else"
  | falseKeyword => "False"
  | funKeyword => "Fun"
  | forKeyword => "For"
  | ifKeyword => "If"
  | nilKeyword => "Nil"
  | orKeyword => "Or"
  | printKeyword => "Print"
  | returnKeyword => "Return"
  | superKeyword => "Super"
  | thisKeyword => "This"
  | trueKeyword => "True"
  | varKeyword => "Var"
  | whileKeyword => "While"
  | eof => "Eof"

/-- The kind of this name. -/
def ofName? (name : String) : Option TokenKind :=
  all.find? fun kind => kind.name == name

/-! ## Reserved words -/

/-- The sixteen reserved words and the kinds they have. -/
def keywords : List (String × TokenKind) :=
  [("and", andKeyword), ("class", classKeyword), ("else", elseKeyword), ("false", falseKeyword),
    ("fun", funKeyword), ("for", forKeyword), ("if", ifKeyword), ("nil", nilKeyword),
    ("or", orKeyword), ("print", printKeyword), ("return", returnKeyword),
    ("super", superKeyword), ("this", thisKeyword), ("true", trueKeyword), ("var", varKeyword),
    ("while", whileKeyword)]

/-- The kind of a reserved word.  The spelling has to agree exactly, case included. -/
def keyword? (word : String) : Option TokenKind :=
  keywords.lookup word

/-- Whether this is the kind of a reserved word. -/
def isKeyword (kind : TokenKind) : Bool :=
  keywords.any fun entry => entry.2 == kind

/-- The kind of a word: its own if it is reserved, and otherwise an identifier. -/
def ofWord (word : String) : TokenKind :=
  (keyword? word).getD identifier

/-! ## Operators -/

/-- The kind of a character that is a token by itself, whatever follows it. -/
def ofPunctuation? : Char → Option TokenKind
  | '(' => some leftParen
  | ')' => some rightParen
  | '{' => some leftBrace
  | '}' => some rightBrace
  | ',' => some comma
  | '.' => some dot
  | '-' => some minus
  | '+' => some plus
  | ';' => some semicolon
  | '*' => some star
  | _ => none

/-- The kinds of a character that may be joined with an equals sign after it: alone, and so
joined. -/
def ofComparison? : Char → Option (TokenKind × TokenKind)
  | '!' => some (bang, bangEqual)
  | '=' => some (equal, equalEqual)
  | '<' => some (less, lessEqual)
  | '>' => some (greater, greaterEqual)
  | _ => none

end TokenKind

end LoxTokens
