import RuleTree.Number.Digits

/-!
# Writing texts in TOML documents

A text is written in the first of four ways that needs no escapes: in double quotes, in single
quotes, in three double quotes, or in three single quotes. Where none of them does, it is written in
double quotes with escapes, three of them if it has several lines.
-/

namespace RuleTree.Toml

/-- The length of the longest run of a character, given the length of the run that came before. -/
def longestRun (c : Char) : Nat → List Char → Nat
  | current, [] => current
  | current, d :: rest =>
    if d = c then longestRun c (current + 1) rest else max current (longestRun c 0 rest)

/-- Whether a character can only be written as an escape: a control character other than the tab and
the line feed. -/
def needsCode (c : Char) : Bool :=
  (c.toNat < 0x20 && c != '\t' && c != '\n') || c.toNat == 0x7F

/-- A code of four hexadecimal digits. -/
def codeEscape (c : Char) : List Char :=
  let digits := (Nat.toDigits 16 c.toNat).map Char.toUpper
  '\\' :: 'u' :: Digits.padded 4 digits

/-- A character inside of double quotes. -/
def escapeChar (c : Char) : List Char :=
  if c = '\x08' then ['\\', 'b']
  else if c = '\t' then ['\\', 't']
  else if c = '\n' then ['\\', 'n']
  else if c = '\x0c' then ['\\', 'f']
  else if c = '\r' then ['\\', 'r']
  else if c = '"' then ['\\', '"']
  else if c = '\\' then ['\\', '\\']
  else if needsCode c then codeEscape c
  else [c]

/-- The characters inside of three double quotes: line feeds stand for themselves, and so do up to
two quotes in a row; `quotes` is how many came right before. -/
def escapeLines (quotes : Nat) : List Char → List Char
  | [] => []
  | c :: rest =>
    if c = '"' ∧ quotes < 2 then c :: escapeLines (quotes + 1) rest
    else if c = '\n' then c :: escapeLines 0 rest
    else escapeChar c ++ escapeLines 0 rest

/-- A text between delimiters; a text with several lines begins on a line of its own. -/
def delimited (delimiter : String) (ownLine : Bool) (inside : List Char) : List Char :=
  delimiter.toList ++ (if ownLine then ['\n'] else []) ++ inside ++ delimiter.toList

/-- A text with its delimiters. -/
def writeText (text : List Char) : List Char :=
  let hasLines := text.contains '\n'
  let hasCodes := text.any needsCode
  let hasBackslash := text.contains '\\'
  let doubles := longestRun '"' 0 text
  let singles := longestRun '\'' 0 text
  let oneLine := delimited "\"" false (text.flatMap escapeChar)
  let manyLines := delimited "\"\"\"" hasLines (escapeLines 0 text)
  if !hasCodes && !hasBackslash && doubles == 0 && !hasLines then oneLine
  else if !hasCodes && singles == 0 && !hasLines then delimited "'" false text
  else if !hasCodes && !hasBackslash && doubles ≤ 2 then manyLines
  else if !hasCodes && singles ≤ 2 then delimited "'''" hasLines text
  else if hasLines then manyLines
  else oneLine

end RuleTree.Toml
