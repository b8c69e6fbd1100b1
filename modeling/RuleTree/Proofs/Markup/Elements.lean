import RuleTree.Proofs.Markup.Escaping

/-!
# Documents read back

An element whose names are words is read back from what is written for it (`Element.read_write`),
whatever its text and the values of its attributes are.  The written text is first cut into the
tokens of the element, and from these the element is put together again.
-/

namespace RuleTree

namespace Markup

/-! ## Cutting -/

theorem tokensFrom_less (rest done : List Char) :
    tokensFrom (.between done) ('<' :: rest) =
      textToken done ++ tokensFrom (.within []) rest := by
  by_cases empty : done = []
  · simp [tokensFrom, textToken, empty]
  · simp [tokensFrom, textToken, empty]

theorem tokensFrom_text {text rest done : List Char} (inert : ∀ c ∈ text, Inert c) :
    tokensFrom (.between done) (text ++ rest) =
      tokensFrom (.between (text.reverse ++ done)) rest := by
  induction text generalizing done with
  | nil => rfl
  | cons c others ih =>
      rcases inert c (by simp) with ⟨differ, _, _⟩
      have next := @ih (c :: done) fun other member => inert other (by simp [member])
      simp only [List.cons_append, tokensFrom, if_neg differ, next]
      simp

theorem tokensFrom_markup {content rest done : List Char} {token : Token}
    (open_ : '>' ∉ content) (complete : isComplete (done.reverse ++ content) = true)
    (whole : tokenOf (done.reverse ++ content) = [token]) :
    tokensFrom (.within done) (content ++ '>' :: rest) =
      token :: tokensFrom (.between []) rest := by
  induction content generalizing done with
  | nil =>
      rw [List.append_nil] at complete whole
      simp [tokensFrom, complete, whole]
  | cons c others ih =>
      rw [List.mem_cons, not_or] at open_
      rcases open_ with ⟨differ, open_⟩
      have next := @ih (c :: done) open_ (by simpa using complete) (by simpa using whole)
      have skipped : ¬(c = '>' ∧ isComplete done.reverse = true) := fun both =>
        differ both.1.symm
      simp only [List.cons_append, tokensFrom, if_neg skipped, next]

end Markup

namespace Element

open Markup

/-! ## Elements with plain names -/

mutual

/-- The names of the element, of its attributes and of everything below it are words, and no
attribute occurs twice. -/
def WellNamed : Element → Prop
  | ⟨name, attributes, _, children⟩ =>
    IsWord name.toList ∧ (∀ entry ∈ attributes, IsWord entry.1.toList) ∧
      (attributes.map Prod.fst).Nodup ∧ AllWellNamed children

def AllWellNamed : List Element → Prop
  | [] => True
  | element :: rest => WellNamed element ∧ AllWellNamed rest

end

mutual

/-- The tokens that are written for an element. -/
def tokens : Element → List Token
  | ⟨name, attributes, text, children⟩ =>
    .start (name.toList ++ writeAttributes attributes) ::
      (textToken (escape text.toList).reverse ++ tokensAll children ++ [.close name.toList])

def tokensAll : List Element → List Token
  | [] => []
  | element :: rest => tokens element ++ tokensAll rest

end

/-! ## Cutting an element -/

theorem inert_writeAttributes {attributes : List (String × String)}
    (words : ∀ entry ∈ attributes, IsWord entry.1.toList) :
    '>' ∉ writeAttributes attributes ∧ openQuote (writeAttributes attributes) = none := by
  induction attributes with
  | nil => exact ⟨by simp [writeAttributes], rfl⟩
  | cons entry others ih =>
      rcases entry with ⟨key, value⟩
      rcases ih fun other member => words other (by simp [member]) with ⟨open_, closed⟩
      have lower := (words _ List.mem_cons_self).2
      have written : writeAttributes ((key, value) :: others) =
          [' '] ++ (key.toList ++ (['='] ++ (('"' :: (escape value.toList ++ ['"'])) ++
            writeAttributes others))) := by
        simp [writeAttributes]
      rw [written]
      constructor
      · simp only [List.mem_append, List.mem_cons, List.not_mem_nil, or_false, not_or]
        refine ⟨by decide, ?_, by decide, ⟨by decide, ?_, by decide⟩, open_⟩
        · exact fun member => (inert_of_isLower (lower _ member)).2.1 rfl
        · exact fun member => (inert_escape member).2.1 rfl
      · rw [openQuote_append (openQuote_single (by decide) (by decide)),
          openQuote_append (openQuote_word lower),
          openQuote_append (openQuote_single (by decide) (by decide)),
          openQuote_append (openQuote_quoted fun _ member => inert_escape member), closed]

/-- What ends a tag that was written: a letter or a quote. -/
theorem getLast_write {name : List Char} (word : IsWord name)
    (attributes : List (String × String)) :
    ∃ before c, (name ++ writeAttributes attributes) = before ++ [c] ∧ c ≠ '/' := by
  rcases List.eq_nil_or_concat attributes with rfl | ⟨others, entry, rfl⟩
  · rcases List.eq_nil_or_concat name with rfl | ⟨before, c, rfl⟩
    · exact absurd rfl word.1
    · refine ⟨before, c, by simp [writeAttributes], ?_⟩
      exact ne_of_isLower (word.2 c (by simp)) (by decide)
  · rcases entry with ⟨key, value⟩
    refine ⟨name ++ (writeAttributes others ++ ' ' :: (key.toList ++ '=' :: '"' ::
      escape value.toList)), '"', ?_, by decide⟩
    simp [writeAttributes]

theorem opening_write {name rest : List Char} (word : IsWord name) :
    opening (name ++ rest) = .tag := by
  rcases List.exists_cons_of_ne_nil word.1 with ⟨c, others, rfl⟩
  have lower := word.2 c (by simp)
  have question : c ≠ '?' := ne_of_isLower lower (by decide)
  have exclamation : c ≠ '!' := ne_of_isLower lower (by decide)
  rw [List.cons_append]
  unfold opening
  split
  · rename_i same
    exact absurd (List.cons.inj same).1 question
  · rename_i same
    exact absurd (List.cons.inj same).1 exclamation
  · rfl

theorem tokensFrom_start {name : List Char} {attributes : List (String × String)}
    (word : IsWord name) (words : ∀ entry ∈ attributes, IsWord entry.1.toList)
    (rest : List Char) :
    tokensFrom (.within []) (name ++ writeAttributes attributes ++ '>' :: rest) =
      .start (name ++ writeAttributes attributes) :: tokensFrom (.between []) rest := by
  rcases inert_writeAttributes words with ⟨open_, closed⟩
  apply tokensFrom_markup
  · simp only [List.mem_append, not_or]
    exact ⟨fun member => (inert_of_isLower (word.2 _ member)).2.1 rfl, open_⟩
  · simp only [List.reverse_nil, List.nil_append]
    unfold isComplete
    rw [opening_write word]
    simp only
    rw [openQuote_append (openQuote_word word.2), closed]
    rfl
  · simp only [List.reverse_nil, List.nil_append]
    unfold tokenOf
    rw [opening_write word]
    simp only
    rcases List.exists_cons_of_ne_nil word.1 with ⟨c, others, rfl⟩
    have slash : c ≠ '/' := ne_of_isLower (word.2 c (by simp)) (by decide)
    rcases getLast_write word attributes with ⟨before, last, ends, other⟩
    split
    · rename_i same
      exact absurd (List.cons.inj same).1 slash
    · split
      · rename_i same
        rw [ends, List.reverse_append] at same
        exact absurd (List.cons.inj same).1 other
      · rfl

theorem closedName_word {name : List Char} (word : IsWord name) : closedName name = name := by
  rcases List.eq_nil_or_concat name with rfl | ⟨before, c, rfl⟩
  · exact absurd rfl word.1
  · have solid := not_blank_of_isLower (word.2 c (by simp))
    unfold closedName
    simp [solid]

theorem tokensFrom_close {name : List Char} (word : IsWord name) (rest : List Char) :
    tokensFrom (.within []) ('/' :: (name ++ '>' :: rest)) =
      .close name :: tokensFrom (.between []) rest := by
  rw [← List.cons_append]
  apply tokensFrom_markup
  · simp only [List.mem_cons, not_or]
    exact ⟨by decide, fun member => (inert_of_isLower (word.2 _ member)).2.1 rfl⟩
  · have split := @openQuote_append ['/'] name (openQuote_single (by decide) (by decide))
    simp only [List.reverse_nil, List.nil_append]
    show (openQuote (['/'] ++ name)).isNone = true
    rw [split, openQuote_word word.2]
    rfl
  · simp only [List.reverse_nil, List.nil_append]
    show [Token.close (closedName name)] = [.close name]
    rw [closedName_word word]

mutual

theorem tokensFrom_write : ∀ {element : Element} (done rest : List Char), element.WellNamed →
    tokensFrom (.between done) (element.write ++ rest) =
      textToken done ++ (element.tokens ++ tokensFrom (.between []) rest)
  | ⟨name, attributes, text, children⟩, done, rest, ⟨word, words, _, below⟩ => by
      have written : Element.write ⟨name, attributes, text, children⟩ ++ rest =
          '<' :: (name.toList ++ writeAttributes attributes ++ '>' :: (escape text.toList ++
            (writeAll children ++ '<' :: '/' :: (name.toList ++ '>' :: rest)))) := by
        simp [Element.write]
      rw [written, tokensFrom_less, tokensFrom_start word words,
        tokensFrom_text fun _ member => inert_escape member, List.append_nil,
        tokensFrom_writeAll _ _ below, tokensFrom_close word]
      simp [tokens]

theorem tokensFrom_writeAll : ∀ {elements : List Element} (done rest : List Char),
    AllWellNamed elements →
      tokensFrom (.between done) (writeAll elements ++ '<' :: rest) =
        textToken done ++ (tokensAll elements ++ tokensFrom (.within []) rest)
  | [], done, rest, _ => tokensFrom_less rest done
  | element :: others, done, rest, ⟨here, below⟩ => by
      rw [writeAll, List.append_assoc, tokensFrom_write _ _ here, tokensFrom_writeAll _ _ below]
      simp [tokensAll, textToken]

end

/-! ## Putting an element together -/

/-- The text so far, then the text that was cut off before some markup. -/
theorem ofTokens_text {text : String} {name : List Char} {element : Element}
    {outer : List Unclosed} {rest : List Token} :
    ofTokens (⟨name, element⟩ :: outer) (textToken (escape text.toList).reverse ++ rest) =
      ofTokens (⟨name, { element with text := element.text ++ text }⟩ :: outer) rest := by
  unfold textToken
  split
  · rename_i empty
    have nothing : text.toList = [] := by
      have meant := unescape?_escape text.toList
      rw [List.reverse_eq_nil_iff.mp empty] at meant
      exact (Option.some.inj meant).symm
    have nothing : text = "" := String.toList_eq_nil_iff.mp nothing
    subst nothing
    cases element
    simp
  · rw [List.reverse_reverse, List.singleton_append, ofTokens, unescape?_escape]
    simp [addText]

mutual

theorem ofTokens_tokens : ∀ {element : Element} (unclosed : List Unclosed) (rest : List Token),
    element.WellNamed →
      ofTokens unclosed (element.tokens ++ rest) =
        match unclosed with
        | [] => .ok element
        | parent :: outer => ofTokens (addChild element parent :: outer) rest
  | ⟨name, attributes, text, children⟩, unclosed, rest, ⟨word, words, distinct, below⟩ => by
      simp only [tokens, List.cons_append, List.append_assoc, ofTokens,
        ofTag?_write word words distinct, fullName_write word.2]
      rw [ofTokens_text, ofTokens_tokensAll _ _ _ _ below]
      simp only [List.nil_append, ofTokens, if_true]
      cases unclosed with
      | nil => simp
      | cons parent outer => simp

theorem ofTokens_tokensAll : ∀ {elements : List Element} (name : List Char) (element : Element)
    (outer : List Unclosed) (rest : List Token), AllWellNamed elements →
      ofTokens (⟨name, element⟩ :: outer) (tokensAll elements ++ rest) =
        ofTokens (⟨name, { element with children := element.children ++ elements }⟩ :: outer) rest
  | [], name, element, outer, rest, _ => by
      cases element
      simp [tokensAll]
  | first :: others, name, element, outer, rest, ⟨here, below⟩ => by
      rw [tokensAll, List.append_assoc, ofTokens_tokens _ _ here]
      simp only [addChild]
      rw [ofTokens_tokensAll _ _ _ _ below]
      simp

end

/-- An element is read back from its text. -/
theorem read_write {element : Element} (wellNamed : element.WellNamed) :
    Element.read element.write = .ok element := by
  have cut : Markup.tokens element.write = tokensFrom (.between []) (element.write ++ []) := by
    rcases element with ⟨name, attributes, text, children⟩
    rw [List.append_nil]
    rfl
  unfold Element.read
  rw [cut, tokensFrom_write _ _ wellNamed]
  exact ofTokens_tokens [] _ wellNamed

end Element

end RuleTree
