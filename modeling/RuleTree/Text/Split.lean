/-!
# Splitting texts

A text is cut at each occurrence of a character. The pieces with the character between them are the
text again (`joinWith_splitAt`), and no piece holds the character (`not_mem_of_mem_splitAt`).
-/

namespace RuleTree.Text

/-- The pieces of a text between the occurrences of a separator; there is always one. -/
def splitAt (separator : Char) : List Char → List (List Char)
  | [] => [[]]
  | c :: rest =>
    if c = separator then [] :: splitAt separator rest
    else
      match splitAt separator rest with
      | [] => [[c]]
      | piece :: others => (c :: piece) :: others

/-- Pieces with a separator between them. -/
def joinWith (separator : Char) : List (List Char) → List Char
  | [] => []
  | [piece] => piece
  | piece :: rest => piece ++ separator :: joinWith separator rest

theorem splitAt_ne_nil (separator : Char) (text : List Char) : splitAt separator text ≠ [] := by
  induction text with
  | nil => simp [splitAt]
  | cons c rest ih =>
    unfold splitAt
    split
    · simp
    · split <;> simp

theorem joinWith_splitAt (separator : Char) (text : List Char) :
    joinWith separator (splitAt separator text) = text := by
  induction text with
  | nil => rfl
  | cons c rest ih =>
    by_cases cut : c = separator
    · rw [splitAt, if_pos cut]
      cases pieces : splitAt separator rest with
      | nil => exact absurd pieces (splitAt_ne_nil separator rest)
      | cons piece others => rw [joinWith, ← pieces, ih, cut] <;> simp
    · rw [splitAt, if_neg cut]
      cases pieces : splitAt separator rest with
      | nil => exact absurd pieces (splitAt_ne_nil separator rest)
      | cons piece others =>
        rw [pieces] at ih
        cases others with
        | nil => simpa [joinWith] using ih
        | cons next more => simpa [joinWith] using ih

theorem not_mem_of_mem_splitAt {separator : Char} {text piece : List Char}
    (member : piece ∈ splitAt separator text) : separator ∉ piece := by
  induction text generalizing piece with
  | nil => simp_all [splitAt]
  | cons c rest ih =>
    by_cases cut : c = separator
    · rw [splitAt, if_pos cut, List.mem_cons] at member
      rcases member with rfl | later
      · simp
      · exact ih later
    · rw [splitAt, if_neg cut] at member
      cases pieces : splitAt separator rest with
      | nil => exact absurd pieces (splitAt_ne_nil separator rest)
      | cons first others =>
        rw [pieces] at member ih
        rcases List.mem_cons.mp member with rfl | later
        · have absent := ih List.mem_cons_self
          simp [absent, Ne.symm cut]
        · exact ih (List.mem_cons_of_mem _ later)

/-- A text without the separator is its only piece. -/
theorem splitAt_of_not_mem {separator : Char} {text : List Char} (absent : separator ∉ text) :
    splitAt separator text = [text] := by
  induction text with
  | nil => rfl
  | cons c rest ih =>
    rw [List.mem_cons, not_or] at absent
    rw [splitAt, if_neg (Ne.symm absent.1), ih absent.2]

/-- What comes before the first separator is the first piece. -/
theorem splitAt_append {separator : Char} {piece : List Char} (absent : separator ∉ piece)
    (rest : List Char) :
    splitAt separator (piece ++ separator :: rest) = piece :: splitAt separator rest := by
  induction piece with
  | nil => rw [List.nil_append, splitAt, if_pos rfl]
  | cons c others ih =>
    rw [List.mem_cons, not_or] at absent
    rw [List.cons_append, splitAt, if_neg (Ne.symm absent.1), ih absent.2]

end RuleTree.Text
