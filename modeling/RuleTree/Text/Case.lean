import RuleTree.Text.CaseTable

/-!
# Upper and lower case of whole texts

The full case mappings of the Unicode standard: one letter may become several, and a capital sigma
at the end of a word becomes a final sigma. No language has rules of its own here.
-/

namespace RuleTree.Text

/-- Whether the run holds the code point. -/
def CaseRun.covers (run : CaseRun) (point : Nat) : Bool :=
  decide (run.first ≤ point) && decide (point ≤ run.last) && (point - run.first) % run.step == 0

/-- The letter at the run's distance, or the letter itself where no run covers it. -/
def moveLetter (runs : List CaseRun) (c : Char) : Char :=
  match runs.find? (·.covers c.toNat) with
  | some run => Char.ofNat (Int.ofNat c.toNat + run.distance).toNat
  | none => c

/-- Whether one of the ranges holds the letter. -/
def inRanges (ranges : List (Nat × Nat)) (c : Char) : Bool :=
  ranges.any fun range => decide (range.1 ≤ c.toNat) && decide (c.toNat ≤ range.2)

/-- The upper case form of one letter. -/
def upperLetter (c : Char) : List Char :=
  match upperExpansions.find? (·.1 == c.toNat) with
  | some (_, points) => points.map Char.ofNat
  | none => [moveLetter upperRuns c]

/-- The lower case form of one letter, apart from the final sigma. -/
def lowerLetter (c : Char) : List Char :=
  if c = '\u0130' then ['i', '\u0307'] else [moveLetter lowerRuns c]

/-- Whether a letter with case comes next, passing over marks that do not separate letters. -/
def meetsCased (text : List Char) : Bool :=
  match text.dropWhile (inRanges ignoredRanges) with
  | c :: _ => inRanges casedRanges c
  | [] => false

/-- Lower case, given the letters before the rest in reverse order. -/
def lowerFrom (before : List Char) : List Char → List Char
  | [] => []
  | c :: rest =>
    let form :=
      if c = '\u03a3' then
        if meetsCased before && !meetsCased rest then ['\u03c2'] else ['\u03c3']
      else lowerLetter c
    form ++ lowerFrom (c :: before) rest

/-- A text in upper case. -/
def upper (text : String) : String := String.ofList (text.toList.flatMap upperLetter)

/-- A text in lower case. -/
def lower (text : String) : String := String.ofList (lowerFrom [] text.toList)

end RuleTree.Text
