import RuleTree.Error
import RuleTree.Markup.Escape
import RuleTree.Markup.Token

/-!
# Elements

An element has a name, attributes, the text directly inside of it, and elements below it; where
among the elements the text stood is not kept. Names are those without their prefixes. Reading stops
as soon as the outermost element is closed.
-/

namespace RuleTree

/-- An element of a document. -/
structure Element where
  name : String
  attributes : List (String × String)
  text : String
  children : List Element

namespace Element

/-- The first attribute with a name. -/
def attribute? (element : Element) (name : String) : Option String :=
  (element.attributes.find? (·.1 = name)).map (·.2)

/-! ## Writing -/

/-- Attributes as they stand in a tag. -/
def writeAttributes (attributes : List (String × String)) : List Char :=
  attributes.flatMap fun (name, value) =>
    ' ' :: (name.toList ++ '=' :: '"' :: (Markup.escape value.toList ++ ['"']))

mutual

/-- An element with its text and then the elements below it. -/
def write : Element → List Char
  | ⟨name, attributes, text, children⟩ =>
    '<' :: (name.toList ++ writeAttributes attributes ++ '>' :: (Markup.escape text.toList
      ++ writeAll children ++ '<' :: '/' :: (name.toList ++ ['>'])))

/-- Elements one after the other. -/
def writeAll : List Element → List Char
  | [] => []
  | element :: rest => write element ++ writeAll rest

end

/-! ## Reading -/

/-- Where in the attributes of a tag the reader is. What was read of a key or a value is in reverse
order. -/
inductive AttributeMode where
  | between
  | key (characters : List Char)
  | afterKey (key : List Char)
  | afterEquals (key : List Char)
  | value (key : List Char) (quote : Char) (characters : List Char)

/-- Reads the rest of the attributes of a tag: keys and values, the values still escaped. -/
def attributesFrom (mode : AttributeMode) :
    List Char → Option (List (List Char × List Char))
  | [] =>
    match mode with
    | .between => some []
    | _ => none
  | c :: rest =>
    match mode with
    | .between =>
      if Text.isMarkupBlank c then attributesFrom .between rest
      else attributesFrom (.key [c]) rest
    | .key characters =>
      if c = '=' then attributesFrom (.afterEquals characters.reverse) rest
      else if Text.isMarkupBlank c then attributesFrom (.afterKey characters.reverse) rest
      else attributesFrom (.key (c :: characters)) rest
    | .afterKey key =>
      if c = '=' then attributesFrom (.afterEquals key) rest
      else if Text.isMarkupBlank c then attributesFrom (.afterKey key) rest
      else none
    | .afterEquals key =>
      if c = '"' ∨ c = '\'' then attributesFrom (.value key c []) rest
      else if Text.isMarkupBlank c then attributesFrom (.afterEquals key) rest
      else none
    | .value key quote characters =>
      if c = quote then
        (attributesFrom .between rest).map ((key, characters.reverse) :: ·)
      else attributesFrom (.value key quote (c :: characters)) rest

/-- A name without its prefix, which ends at the first colon. -/
def localName (name : List Char) : List Char :=
  match name.dropWhile (· ≠ ':') with
  | [] => name
  | _ :: rest => rest

/-- Attributes with the names that are looked up and the values that are meant. -/
def meantAttributes : List (List Char × List Char) → Option (List (String × String))
  | [] => some []
  | (key, value) :: rest => do
    let meant ← Markup.unescape? value
    let others ← meantAttributes rest
    some ((String.ofList (localName key), String.ofList meant) :: others)

/-- Whether some key occurs twice. -/
def hasRepeatedKey : List (List Char × List Char) → Bool
  | [] => false
  | (key, _) :: rest => rest.any (·.1 = key) || hasRepeatedKey rest

/-- The full name in a tag, which ends at the first blank. -/
def fullName (tag : List Char) : List Char := tag.takeWhile fun c => !Text.isMarkupBlank c

/-- The element, so far without content, that a tag begins. -/
def ofTag? (tag : List Char) : Option Element := do
  let keyed ← attributesFrom .between (tag.drop (fullName tag).length)
  if hasRepeatedKey keyed then none
  else
    let attributes ← meantAttributes keyed
    some ⟨String.ofList (localName (fullName tag)), attributes, "", []⟩

/-- An element that is not closed yet, with the full name that closes it. -/
structure Unclosed where
  name : List Char
  element : Element

/-- Adds text to the innermost of the elements that are not closed. -/
def addText (text : List Char) : List Unclosed → List Unclosed
  | [] => []
  | ⟨name, element⟩ :: outer =>
    ⟨name, { element with text := element.text ++ String.ofList text }⟩ :: outer

/-- Adds a closed element to the one around it. -/
def addChild (child : Element) (parent : Unclosed) : Unclosed :=
  { parent with element := { parent.element with children := parent.element.children ++ [child] } }

/-- The outermost element of a document, given the elements that are not closed yet, innermost
first, and the tokens to come. -/
def ofTokens (unclosed : List Unclosed) : List Markup.Token → Except MarkupFault Element
  | [] => .error .noRoot
  | .text escaped :: rest =>
    match Markup.unescape? escaped with
    | some text => ofTokens (addText text unclosed) rest
    | none => .error .malformed
  | .literal text :: rest => ofTokens (addText text unclosed) rest
  | .start tag :: rest =>
    match ofTag? tag with
    | some element => ofTokens (⟨fullName tag, element⟩ :: unclosed) rest
    | none => .error .malformed
  | .empty tag :: rest =>
    match ofTag? tag, unclosed with
    | none, _ => .error .malformed
    | some element, [] => .ok element
    | some element, parent :: outer => ofTokens (addChild element parent :: outer) rest
  | .close name :: rest =>
    match unclosed with
    | [] => .error .malformed
    | closed :: outer =>
      if closed.name = name then
        match outer with
        | [] => .ok closed.element
        | parent :: outer => ofTokens (addChild closed.element parent :: outer) rest
      else .error .malformed
  | .fault :: _ => .error .malformed

/-- Reads a document. -/
def read (text : List Char) : Except MarkupFault Element := ofTokens [] (Markup.tokens text)

end Element

end RuleTree
