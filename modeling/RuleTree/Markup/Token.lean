import RuleTree.Text.Blank

/-!
# Tokens of markup

A text is cut at each `<`, and at each `>` with which the markup since then is complete. Comments,
processing instructions and document types leave no token. A fault stands where the text breaks a
rule; tokens after it do not count.
-/

namespace RuleTree.Markup

/-- A piece of markup. -/
inductive Token where
  /-- Text between markup, still escaped. -/
  | text (escaped : List Char)
  /-- Text that is meant as it stands. -/
  | literal (text : List Char)
  /-- A tag that opens an element: its name and attributes. -/
  | start (content : List Char)
  /-- An element without content: its name and attributes. -/
  | empty (content : List Char)
  /-- A tag that closes an element. -/
  | close (name : List Char)
  | fault
deriving DecidableEq

/-- What the characters after a `<` begin. -/
inductive Opening where
  | comment
  | literal
  | documentType
  | instruction
  | tag
  /-- Something that only looks like one of the others. -/
  | unknown
deriving DecidableEq

/-- A word without regard to case. -/
def lowered (word : List Char) : List Char := word.map Char.toLower

/-- What the content between `<` and `>` is. -/
def opening : List Char → Opening
  | '?' :: _ => .instruction
  | '!' :: rest =>
    if ['-', '-'].isPrefixOf rest then .comment
    else if "[CDATA[".toList.isPrefixOf rest then .literal
    else if "doctype".toList.isPrefixOf (lowered rest) then .documentType
    else .unknown
  | _ => .tag

/-- The quote that is open after the content of a tag. -/
def openQuote (content : List Char) : Option Char :=
  content.foldl (fun open_ c =>
    match open_ with
    | some quote => if c = quote then none else some quote
    | none => if c = '"' ∨ c = '\'' then some c else none) none

/-- Whether a `>` right after the content ends the markup. -/
def isComplete (content : List Char) : Bool :=
  match opening content with
  | .comment => decide (5 ≤ content.length) && ['-', '-'].isSuffixOf content
  | .literal => [']', ']'].isSuffixOf content
  | .documentType => content.count '<' == content.count '>'
  | .instruction => ['?'].isSuffixOf content
  | .tag => (openQuote content).isNone
  | .unknown => true

/-- The name in a tag that closes an element: blanks after it do not count, but blanks alone do. -/
def closedName (content : List Char) : List Char :=
  match content.reverse.dropWhile Text.isMarkupBlank with
  | [] => content
  | name => name.reverse

/-- The token, if there is one, of complete markup. -/
def tokenOf (content : List Char) : List Token :=
  match opening content with
  | .comment => []
  | .instruction => if content = ['?'] then [.fault] else []
  | .literal => [.literal ((content.drop 8).take (content.length - 10))]
  | .documentType => if (content.drop 8).all Text.isMarkupBlank then [.fault] else []
  | .tag =>
    match content with
    | '/' :: name => [.close (closedName name)]
    | _ =>
      match content.reverse with
      | '/' :: before => [.empty before.reverse]
      | _ => [.start content]
  | .unknown => [.fault]

/-- Where in a text the reader is; the characters since the last cut are in reverse order. -/
inductive Mode where
  | between (text : List Char)
  | within (content : List Char)

/-- The token of the text before a cut. -/
def textToken (reversed : List Char) : List Token :=
  if reversed = [] then [] else [.text reversed.reverse]

/-- Cuts the rest of a text. -/
def tokensFrom (mode : Mode) : List Char → List Token
  | [] =>
    match mode with
    | .between text => textToken text
    | .within _ => [.fault]
  | c :: rest =>
    match mode with
    | .between text =>
      if c = '<' then
        match textToken text with
        | [] => tokensFrom (.within []) rest
        | token :: _ => token :: tokensFrom (.within []) rest
      else tokensFrom (.between (c :: text)) rest
    | .within content =>
      if c = '>' ∧ isComplete content.reverse then
        match tokenOf content.reverse with
        | [] => tokensFrom (.between []) rest
        | token :: _ => token :: tokensFrom (.between []) rest
      else tokensFrom (.within (c :: content)) rest

/-- The tokens of a text; a byte order mark at its beginning is no part of it. -/
def tokens : List Char → List Token
  | '\ufeff' :: text => tokensFrom (.between []) text
  | text => tokensFrom (.between []) text

end RuleTree.Markup
