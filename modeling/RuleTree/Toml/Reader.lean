import RuleTree.Toml.Document

/-!
# Reading TOML documents

A document is a sequence of lines: a line adds a value under a key to the table of the last header,
or is the header of a table. What breaks a rule gives nothing.
-/

namespace RuleTree.Toml

/-! ## Keys -/

/-- The tokens after blanks. -/
def skipBlanks : List Token → List Token
  | .blanks _ :: rest => skipBlanks rest
  | tokens => tokens

/-- The tokens after blanks and line ends. -/
def skipEmptyLines : List Token → List Token
  | .blanks _ :: rest | .lineEnd :: rest => skipEmptyLines rest
  | tokens => tokens

/-- Whether a word can be a key. -/
def isBareKey (word : List Char) : Bool := word.all fun c => c.isAlphanum || c == '_' || c == '-'

/-- A key without dots. -/
def simpleKey? : List Token → Option (String × List Token)
  | .word word :: rest => if isBareKey word then some (String.ofList word, rest) else none
  | .quoted text :: rest => some (String.ofList text, rest)
  | _ => none

/-- A key of at most `limit` parts with dots between them. -/
def dottedKey? : Nat → List Token → Option (List String × List Token)
  | 0, _ => none
  | limit + 1, tokens => do
    let (part, rest) ← simpleKey? (skipBlanks tokens)
    match skipBlanks rest with
    | .mark '.' :: rest =>
      let (parts, rest) ← dottedKey? limit rest
      some (part :: parts, rest)
    | rest => some ([part], rest)

/-- How deep keys and values may be nested. -/
def depthLimit : Nat := 80

/-- The keys on the way and the last key. -/
structure Path where
  way : List String
  last : String

/-- A key with the keys that lead to it. -/
def path? (tokens : List Token) : Option (Path × List Token) := do
  let (parts, rest) ← dottedKey? (depthLimit - 1) tokens
  some (⟨parts.dropLast, ← parts.getLast?⟩, rest)

/-! ## Values -/

/-- The characters of words and dots without a break, and what follows. -/
def run : List Token → List Char × List Token
  | .word word :: rest =>
    let (characters, rest) := run rest
    (word ++ characters, rest)
  | .mark '.' :: rest =>
    let (characters, rest) := run rest
    ('.' :: characters, rest)
  | tokens => ([], tokens)

/-- A value without quotes and brackets. One space may stand between a date and a time. -/
def plainValue? (tokens : List Token) : Option (Toml × List Token) :=
  let (characters, rest) := run tokens
  match rest with
  | .blanks [' '] :: .word word :: rest =>
    let (time, rest) := run (.word word :: rest)
    (scalar? (characters ++ ' ' :: time)).map (·, rest)
  | rest => (scalar? characters).map (·, rest)

section

variable (value? : List Token → Option (Item × List Token))

/-- The items of an array up to its closing bracket, and what follows. -/
def items? : Nat → List Token → Option (List Item × List Token)
  | 0, _ => none
  | limit + 1, tokens =>
    match skipEmptyLines tokens with
    | .mark ']' :: rest => some ([], rest)
    | tokens => do
      let (item, rest) ← value? tokens
      match skipEmptyLines rest with
      | .mark ']' :: rest => some ([item], rest)
      | .mark ',' :: rest =>
        let (items, rest) ← items? limit rest
        some (item :: items, rest)
      | _ => none

/-- A key, an equals sign and a value, added to a table. -/
def entry? (items : Items) (tokens : List Token) : Option (Items × List Token) := do
  match ← path? tokens with
  | (path, .mark '=' :: rest) =>
    let (value, rest) ← value? (skipBlanks rest)
    some (← items.addValue path.last value path.way, rest)
  | _ => none

/-- The entries of a table in braces after the first, up to its closing brace, and what follows. -/
def moreEntries? : Nat → Items → List Token → Option (Items × List Token)
  | 0, _, _ => none
  | limit + 1, items, tokens => do
    let (items, rest) ← entry? value? items tokens
    match skipBlanks rest with
    | .mark '\x7d' :: rest => some (items, rest)
    | .mark ',' :: rest => moreEntries? limit items rest
    | _ => none

/-- The entries of a table in braces up to its closing brace, and what follows. -/
def entries? (tokens : List Token) : Option (Items × List Token) :=
  match skipBlanks tokens with
  | .mark '\x7d' :: rest => some ([], rest)
  | tokens => moreEntries? value? tokens.length [] tokens

end

/-- A value that is nested less deep than a limit, and what follows. -/
def value? : Nat → List Token → Option (Item × List Token)
  | 0, _ => none
  | depth + 1, tokens =>
    match tokens with
    | .quoted characters :: rest | .block characters :: rest =>
      some (.scalar (str (String.ofList characters)), rest)
    | .mark '[' :: rest =>
      if depth = 0 then none
      else (items? (value? depth) tokens.length rest).map fun (items, rest) => (.array items, rest)
    | .mark '\x7b' :: rest =>
      if depth = 0 then none
      else (entries? (value? depth) rest).map fun (items, rest) =>
        (.table .braces items, rest)
    | tokens => (plainValue? tokens).map fun (value, rest) => (.scalar value, rest)

/-! ## Documents -/

/-- The tokens after the end of a line. -/
def afterLine? (tokens : List Token) : Option (List Token) :=
  match skipBlanks tokens with
  | [] => some []
  | .lineEnd :: rest => some rest
  | _ => none

/-- What was read so far: the table of the last header and all entries. -/
structure Progress where
  current : List String
  items : Items

/-- Reads one line that is not empty, and gives the tokens after what it says. -/
def line? (progress : Progress) (tokens : List Token) : Option (Progress × List Token) :=
  match tokens with
  | .mark '[' :: .mark '[' :: rest => do
    match ← path? rest with
    | (path, .mark ']' :: .mark ']' :: rest) =>
      some (⟨path.way ++ [path.last],
        ← progress.items.within (Items.openNext path.last) path.way⟩, rest)
    | _ => none
  | .mark '[' :: rest => do
    match ← path? rest with
    | (path, .mark ']' :: rest) =>
      some (⟨path.way ++ [path.last],
        ← progress.items.within (Items.openTable path.last) path.way⟩, rest)
    | _ => none
  | tokens => do
    match ← path? tokens with
    | (path, .mark '=' :: rest) =>
      let (value, rest) ← value? depthLimit (skipBlanks rest)
      some (⟨progress.current,
        ← progress.items.within (Items.addValue path.last value path.way) progress.current⟩, rest)
    | _ => none

/-- Reads at most `limit` lines that are not empty. -/
def lines? : Nat → Progress → List Token → Option Items
  | limit, progress, tokens =>
    match skipEmptyLines tokens with
    | [] => some progress.items
    | tokens =>
      match limit with
      | 0 => none
      | limit + 1 => do
        let (progress, rest) ← line? progress tokens
        lines? limit progress (← afterLine? rest)

/-- The entries of the table that a document is. -/
def read? (document : String) : Option (List (String × Toml)) := do
  let tokens ← tokens? document.toList
  match ← finishTable? (← lines? tokens.length ⟨[], []⟩ tokens) with
  | .table entries => some entries
  | _ => none

end RuleTree.Toml
