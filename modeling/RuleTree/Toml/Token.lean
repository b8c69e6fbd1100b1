/-!
# Tokens of TOML documents

A document is cut into words, texts in quotes, punctuation, blanks and line ends; comments leave no
token. Which words are keys and which are numbers is decided later, and so are the places where
blanks may stand.
-/

namespace RuleTree.Toml

/-- A piece of a document. -/
inductive Token where
  /-- Letters, digits, underscores, hyphens, plus signs and colons without a break. -/
  | word (characters : List Char)
  /-- A text in quotes on one line, as it is meant. -/
  | quoted (text : List Char)
  /-- A text in three quotes, which may have several lines, as it is meant. -/
  | block (text : List Char)
  /-- One of the characters that structure a document. -/
  | mark (character : Char)
  | blanks (characters : List Char)
  | lineEnd
deriving DecidableEq

/-! ## Characters -/

/-- Spaces and tabs. -/
def isSpace (c : Char) : Bool := c == ' ' || c == '\t'

/-- The characters of words. -/
def isWordChar (c : Char) : Bool := c.isAlphanum || c == '_' || c == '-' || c == '+' || c == ':'

/-- The characters that structure a document. -/
def isMark (c : Char) : Bool := ['=', '.', ',', '[', ']', '\x7b', '\x7d'].contains c

/-- The characters that may stand for themselves in texts and comments: all but control characters
other than the tab. -/
def isPlain (c : Char) : Bool := c == '\t' || (0x20 ≤ c.toNat && c.toNat != 0x7F)

/-- The value of a hexadecimal digit. -/
def hexValue? (c : Char) : Option Nat :=
  if c.isDigit then some (c.toNat - '0'.toNat)
  else if 'a' ≤ c ∧ c ≤ 'f' then some (c.toNat - 'a'.toNat + 10)
  else if 'A' ≤ c ∧ c ≤ 'F' then some (c.toNat - 'A'.toNat + 10)
  else none

/-- The number that digits denote to a base, if each is one by `digit?`. -/
def readBase? (base : Nat) (digit? : Char → Option Nat) (digits : List Char) : Option Nat :=
  digits.foldlM (fun value c => (digit? c).map (base * value + ·)) 0

/-- The character whose code the first `length` characters denote. -/
def coded? (length : Nat) (text : List Char) : Option Char := do
  let digits := text.take length
  let code ← readBase? 16 hexValue? digits
  if digits.length = length ∧ code.isValidChar then some (Char.ofNat code) else none

/-- What a backslash and a letter stand for. -/
def shortEscape? : Char → Option Char
  | 'b' => some '\x08'
  | 't' => some '\t'
  | 'n' => some '\n'
  | 'f' => some '\x0c'
  | 'r' => some '\r'
  | '"' => some '"'
  | '\\' => some '\\'
  | _ => none

/-! ## Texts in quotes -/

/-- Drops spaces, tabs and line ends. -/
def skipLines : List Char → List Char
  | '\r' :: '\n' :: rest => skipLines rest
  | c :: rest => if isSpace c || c == '\n' then skipLines rest else c :: rest
  | [] => []

/-- What follows a backslash at the end of a line, up to the next character that is no blank. -/
def continued? (text : List Char) : Option (List Char) :=
  match text.dropWhile isSpace with
  | '\n' :: rest => some (skipLines rest)
  | '\r' :: '\n' :: rest => some (skipLines rest)
  | _ => none

/-- Puts a character in front of a text that was read. -/
def prepend (c : Char) (read : Option (List Char × List Char)) :
    Option (List Char × List Char) :=
  read.map fun (text, rest) => (c :: text, rest)

/-- After three closing quotes up to two more belong to the text. -/
def closed (quote : Char) (rest : List Char) : List Char × List Char :=
  let more := (rest.take 2).takeWhile (· = quote)
  (more, rest.drop more.length)

/--
The text up to its closing quotes, and what follows them. `escapes` says whether a backslash is an
escape and `lines` whether the text has three quotes and several lines. The limit is on the number
of characters.
-/
def quotedText (quote : Char) (escapes lines : Bool) :
    Nat → List Char → Option (List Char × List Char)
  | 0, _ | _, [] => none
  | limit + 1, c :: rest =>
    if c = quote then
      if lines then
        match rest with
        | d :: e :: after =>
          if d = quote ∧ e = quote then some (closed quote after)
          else prepend c (quotedText quote escapes lines limit rest)
        | _ => none
      else some ([], rest)
    else if c = '\\' ∧ escapes then
      match rest with
      | 'u' :: after => do
        prepend (← coded? 4 after) (quotedText quote escapes lines limit (after.drop 4))
      | 'U' :: after => do
        prepend (← coded? 8 after) (quotedText quote escapes lines limit (after.drop 8))
      | _ =>
        match rest.head?.bind shortEscape? with
        | some meant => prepend meant (quotedText quote escapes lines limit (rest.drop 1))
        | none =>
          if lines then do quotedText quote escapes lines limit (← continued? rest) else none
    else if isPlain c then prepend c (quotedText quote escapes lines limit rest)
    else if lines then
      match c, rest with
      | '\n', rest => prepend '\n' (quotedText quote escapes lines limit rest)
      | '\r', '\n' :: after => prepend '\n' (quotedText quote escapes lines limit after)
      | _, _ => none
    else none

/-- A line end right after three opening quotes is no part of the text. -/
def withoutFirstLineEnd : List Char → List Char
  | '\n' :: rest => rest
  | '\r' :: '\n' :: rest => rest
  | text => text

/-- The token that begins with a quote, and what follows it. -/
def quotedToken (quote : Char) (rest : List Char) : Option (Token × List Char) :=
  let escapes := quote = '"'
  match rest with
  | d :: e :: after =>
    if d = quote ∧ e = quote then
      let text := withoutFirstLineEnd after
      (quotedText quote escapes true text.length text).map fun (text, rest) => (.block text, rest)
    else
      (quotedText quote escapes false rest.length rest).map fun (text, rest) =>
        (.quoted text, rest)
  | _ =>
    (quotedText quote escapes false rest.length rest).map fun (text, rest) => (.quoted text, rest)

/-! ## Documents -/

/-- The token, if there is one, that begins a text with at least one character, and what follows. -/
def next (c : Char) (rest : List Char) : Option (Option Token × List Char) :=
  if c = '\n' then some (some .lineEnd, rest)
  else if c = '\r' then
    match rest with
    | '\n' :: rest => some (some .lineEnd, rest)
    | _ => none
  else if c = '#' then some (none, rest.dropWhile isPlain)
  else if c = '"' ∨ c = '\'' then
    (quotedToken c rest).map fun (token, rest) => (some token, rest)
  else if isMark c then some (some (.mark c), rest)
  else if isSpace c then
    some (some (.blanks (c :: rest.takeWhile isSpace)), rest.dropWhile isSpace)
  else if isWordChar c then
    some (some (.word (c :: rest.takeWhile isWordChar)), rest.dropWhile isWordChar)
  else none

/-- The tokens of a text of at most `limit` characters. -/
def tokensWithin : Nat → List Char → Option (List Token)
  | _, [] => some []
  | 0, _ => none
  | limit + 1, c :: rest => do
    let (token, rest) ← next c rest
    let tokens ← tokensWithin limit rest
    some (token.toList ++ tokens)

/-- The tokens of a document; a byte order mark at its beginning is no part of it. -/
def tokens? : List Char → Option (List Token)
  | '\ufeff' :: text => tokensWithin text.length text
  | text => tokensWithin text.length text

end RuleTree.Toml
