import RuleTree.Number.Digits

/-!
# Escaped text in markup

Five characters are written as entities. Reading knows these five and references to characters by
number, and refuses an ampersand that begins neither.
-/

namespace RuleTree.Markup

/-- A character as it is written in text and in quotes. -/
def escapeChar (c : Char) : List Char :=
  if c = '<' then "&lt;".toList
  else if c = '>' then "&gt;".toList
  else if c = '&' then "&amp;".toList
  else if c = '\'' then "&apos;".toList
  else if c = '"' then "&quot;".toList
  else [c]

/-- A text as it is written between tags and in quotes. -/
def escape (text : List Char) : List Char := text.flatMap escapeChar

/-- The value of a hexadecimal digit. -/
def hexValue? (c : Char) : Option Nat :=
  if c.isDigit then some (c.toNat - 48)
  else if 'a' ≤ c ∧ c ≤ 'f' then some (c.toNat - 87)
  else if 'A' ≤ c ∧ c ≤ 'F' then some (c.toNat - 55)
  else none

/-- The number that hexadecimal digits denote, at least one. -/
def readHex? (digits : List Char) : Option Nat :=
  if digits = [] then none
  else digits.foldl (fun sum c => do some (16 * (← sum) + (← hexValue? c))) (some 0)

/-- The character with a number; zero and the numbers of surrogates name none. -/
def charOf? (n : Nat) : Option Char :=
  if n = 0 then none
  else if n.isValidChar then some (Char.ofNat n)
  else none

/-- The character that an entity stands for, given what stands between ampersand and semicolon. -/
def entity? : List Char → Option Char
  | '#' :: 'x' :: digits => (readHex? digits).bind charOf?
  | '#' :: digits => (Digits.readNat? digits).bind charOf?
  | name =>
    match String.ofList name with
    | "lt" => some '<'
    | "gt" => some '>'
    | "amp" => some '&'
    | "apos" => some '\''
    | "quot" => some '"'
    | _ => none

/--
Reads the rest of an escaped text. `pending` holds the characters since an ampersand that waits for
its semicolon, `done` the text before it; both are in reverse order.
-/
def unescapeFrom (pending : Option (List Char)) (done : List Char) :
    List Char → Option (List Char)
  | [] =>
    match pending with
    | none => some done.reverse
    | some _ => none
  | c :: rest =>
    match pending with
    | none =>
      if c = '&' then unescapeFrom (some []) done rest
      else unescapeFrom none (c :: done) rest
    | some name =>
      if c = ';' then
        match entity? name.reverse with
        | some character => unescapeFrom none (character :: done) rest
        | none => none
      else if c = '&' then none
      else unescapeFrom (some (c :: name)) done rest

/-- The text that an escaped text stands for. -/
def unescape? (text : List Char) : Option (List Char) := unescapeFrom none [] text

end RuleTree.Markup
