import RuleTree.Json.Basic
import RuleTree.Number.FloatText

/-!
# JSON text

Two layouts: `compact` writes everything on one line without blanks, `pretty` gives every item and
field a line of its own and indents it by two blanks for each level.
-/

namespace RuleTree.Json

/-- A hexadecimal digit. -/
def hexDigit (n : Nat) : Char := Nat.digitChar (n % 16)

/-- A character inside of quotes: quotes, backslashes and control characters are escaped. -/
def escapeChar (c : Char) : List Char :=
  if c = '"' then ['\\', '"']
  else if c = '\\' then ['\\', '\\']
  else if c = '\n' then ['\\', 'n']
  else if c = '\r' then ['\\', 'r']
  else if c = '\t' then ['\\', 't']
  else if c = '\x08' then ['\\', 'b']
  else if c = '\x0c' then ['\\', 'f']
  else if c.toNat < 32 then ['\\', 'u', '0', '0', hexDigit (c.toNat / 16), hexDigit c.toNat]
  else [c]

/-- A text in quotes. -/
def quoted (text : String) : List Char := '"' :: (text.toList.flatMap escapeChar ++ ['"'])

/-- A value that has no parts. -/
def writeLeaf : Json → List Char
  | null => "null".toList
  | bool true => "true".toList
  | bool false => "false".toList
  | int n => Digits.writeInt n
  | float x => if Binary64.isFinite x then FloatStyle.json.write x else "null".toList
  | str s => quoted s
  | arr _ => ['[', ']']
  | obj _ => ['\x7b', '\x7d']

mutual

/-- A value on one line. -/
def writeCompact : Json → List Char
  | arr items => '[' :: (compactItems items ++ [']'])
  | obj fields => '\x7b' :: (compactFields fields ++ ['\x7d'])
  | leaf => writeLeaf leaf

/-- Items with commas between them. -/
def compactItems : List Json → List Char
  | [] => []
  | [item] => writeCompact item
  | item :: rest => writeCompact item ++ ',' :: compactItems rest

/-- Fields with commas between them. -/
def compactFields : List (String × Json) → List Char
  | [] => []
  | [(name, value)] => quoted name ++ ':' :: writeCompact value
  | (name, value) :: rest => quoted name ++ ':' :: (writeCompact value ++ ',' :: compactFields rest)

end

/-- A new line at a depth of nesting. -/
def newLine (depth : Nat) : List Char := '\n' :: List.replicate (2 * depth) ' '

mutual

/-- A value over several lines, for a line that is indented by `depth` levels. -/
def writePretty (depth : Nat) : Json → List Char
  | arr [] => ['[', ']']
  | arr items => '[' :: (prettyItems (depth + 1) items ++ newLine depth ++ [']'])
  | obj [] => ['\x7b', '\x7d']
  | obj fields => '\x7b' :: (prettyFields (depth + 1) fields ++ newLine depth ++ ['\x7d'])
  | leaf => writeLeaf leaf

/-- Items on lines of their own. -/
def prettyItems (depth : Nat) : List Json → List Char
  | [] => []
  | [item] => newLine depth ++ writePretty depth item
  | item :: rest => newLine depth ++ writePretty depth item ++ ',' :: prettyItems depth rest

/-- Fields on lines of their own. -/
def prettyFields (depth : Nat) : List (String × Json) → List Char
  | [] => []
  | [(name, value)] => newLine depth ++ quoted name ++ ':' :: ' ' :: writePretty depth value
  | (name, value) :: rest =>
    newLine depth ++ quoted name ++ ':' :: ' ' :: (writePretty depth value
      ++ ',' :: prettyFields depth rest)

end

/-- The value as text on one line. -/
def compact (json : Json) : String := String.ofList (writeCompact json)

/-- The value as indented text. -/
def pretty (json : Json) : String := String.ofList (writePretty 0 json)

end RuleTree.Json
