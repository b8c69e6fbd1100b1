import Mathlib.Data.List.TakeWhile
import RuleTree.Markup.Element

/-!
# Text in markup reads back

An escaped text stands for the text that was escaped (`Markup.unescape?_escape`), and it holds none
of the characters that end a text, a value in quotes or a tag (`Markup.plain_escape`).  So the parts
of a tag are found again where they were written (`Element.ofTag?_write`).
-/

namespace RuleTree

namespace Markup

/-! ## Escaped texts -/

theorem unescapeFrom_escapeChar (c : Char) (rest done : List Char) :
    unescapeFrom none done (escapeChar c ++ rest) = unescapeFrom none (c :: done) rest := by
  by_cases less : c = '<'
  · subst less
    rfl
  by_cases greater : c = '>'
  · subst greater
    rfl
  by_cases ampersand : c = '&'
  · subst ampersand
    rfl
  by_cases apostrophe : c = '\''
  · subst apostrophe
    rfl
  by_cases quote : c = '"'
  · subst quote
    rfl
  simp [escapeChar, less, greater, ampersand, apostrophe, quote, unescapeFrom]

theorem unescapeFrom_escape (text done : List Char) :
    unescapeFrom none done (escape text) = some (done.reverse ++ text) := by
  induction text generalizing done with
  | nil => simp [escape, unescapeFrom]
  | cons c rest ih =>
      have next := ih (c :: done)
      simp only [escape, List.flatMap_cons] at next ⊢
      rw [unescapeFrom_escapeChar, next]
      simp

theorem unescape?_escape (text : List Char) : unescape? (escape text) = some text := by
  simp [unescape?, unescapeFrom_escape]

/-- The character neither opens nor closes a tag, and it is no double quote. -/
def Inert (c : Char) : Prop := c ≠ '<' ∧ c ≠ '>' ∧ c ≠ '"'

instance (c : Char) : Decidable (Inert c) := inferInstanceAs (Decidable (_ ∧ _))

theorem inert_escapeChar (d : Char) : ∀ c ∈ escapeChar d, Inert c := by
  by_cases less : d = '<'
  · subst less
    simp [escapeChar, Inert]
  by_cases greater : d = '>'
  · subst greater
    simp [escapeChar, Inert]
  by_cases ampersand : d = '&'
  · subst ampersand
    simp [escapeChar, Inert]
  by_cases apostrophe : d = '\''
  · subst apostrophe
    simp [escapeChar, Inert]
  by_cases quote : d = '"'
  · subst quote
    simp [escapeChar, Inert]
  intro c member
  simp only [escapeChar, less, greater, ampersand, apostrophe, quote, if_false,
    List.mem_singleton] at member
  subst member
  exact ⟨less, greater, quote⟩

theorem inert_escape {text : List Char} {c : Char} (member : c ∈ escape text) : Inert c := by
  rcases List.mem_flatMap.mp member with ⟨d, _, member⟩
  exact inert_escapeChar d c member

/-! ## Words -/

/-- The text is a word of small letters, as the names of elements and attributes are. -/
def IsWord (text : List Char) : Prop := text ≠ [] ∧ ∀ c ∈ text, c.isLower = true

instance (text : List Char) : Decidable (IsWord text) :=
  decidable_of_iff (text ≠ [] ∧ text.all Char.isLower = true) (by simp [IsWord])

theorem ne_of_isLower {c d : Char} (lower : c.isLower = true) (other : d.isLower = false) :
    c ≠ d := by
  rintro rfl
  rw [lower] at other
  cases other

theorem inert_of_isLower {c : Char} (lower : c.isLower = true) : Inert c :=
  ⟨ne_of_isLower lower (by decide), ne_of_isLower lower (by decide),
    ne_of_isLower lower (by decide)⟩

theorem not_blank_of_isLower {c : Char} (lower : c.isLower = true) :
    Text.isMarkupBlank c = false := by
  simp [Text.isMarkupBlank, ne_of_isLower lower (show ' '.isLower = false by decide),
    ne_of_isLower lower (show '\t'.isLower = false by decide),
    ne_of_isLower lower (show '\r'.isLower = false by decide),
    ne_of_isLower lower (show '\n'.isLower = false by decide)]

/-! ## Quotes in a tag -/

theorem openQuote_append {first second : List Char} (closed : openQuote first = none) :
    openQuote (first ++ second) = openQuote second := by
  unfold openQuote at closed ⊢
  rw [List.foldl_append, closed]

theorem openQuote_single {c : Char} (double : c ≠ '"') (single : c ≠ '\'') :
    openQuote [c] = none := by
  simp [openQuote, double, single]

theorem openQuote_word {word : List Char} (lower : ∀ c ∈ word, c.isLower = true) :
    openQuote word = none := by
  induction word with
  | nil => rfl
  | cons c rest ih =>
      have first : openQuote [c] = none :=
        openQuote_single (ne_of_isLower (lower c (by simp)) (by decide))
          (ne_of_isLower (lower c (by simp)) (by decide))
      have split := @openQuote_append [c] rest first
      rw [List.singleton_append] at split
      rw [split]
      exact ih fun other member => lower other (by simp [member])

theorem openQuote_quoted {text : List Char} (inert : ∀ c ∈ text, Inert c) :
    openQuote ('"' :: (text ++ ['"'])) = none := by
  have kept (step : Option Char → Char → Option Char)
      (same : ∀ c, Inert c → step (some '"') c = some '"') :
      text.foldl step (some '"') = some '"' := by
    induction text with
    | nil => rfl
    | cons c rest ih =>
        rw [List.foldl_cons, same c (inert c (by simp))]
        exact ih fun other member => inert other (by simp [member])
  unfold openQuote
  rw [List.foldl_cons, List.foldl_append]
  simp only [true_or, if_true]
  rw [kept]
  · rfl
  · rintro c ⟨_, _, other⟩
    exact if_neg other

end Markup

namespace Element

open Markup

/-! ## Attributes -/

theorem attributesFrom_key {word rest done : List Char} (lower : ∀ c ∈ word, c.isLower = true) :
    attributesFrom (.key done) (word ++ '=' :: rest) =
      attributesFrom (.afterEquals (done.reverse ++ word)) rest := by
  induction word generalizing done with
  | nil => simp [attributesFrom]
  | cons c others ih =>
      have first := lower c (by simp)
      have differ : c ≠ '=' := ne_of_isLower first (by decide)
      have next := @ih (c :: done) fun other member => lower other (by simp [member])
      simp only [List.cons_append, attributesFrom, if_neg differ, not_blank_of_isLower first, next]
      simp

theorem attributesFrom_value {key text rest done : List Char} (inert : ∀ c ∈ text, Inert c) :
    attributesFrom (.value key '"' done) (text ++ '"' :: rest) =
      (attributesFrom .between rest).map ((key, done.reverse ++ text) :: ·) := by
  induction text generalizing done with
  | nil => simp [attributesFrom]
  | cons c others ih =>
      rcases inert c (by simp) with ⟨_, _, differ⟩
      have next := @ih (c :: done) fun other member => inert other (by simp [member])
      simp only [List.cons_append, attributesFrom, if_neg differ, next]
      simp

/-- The attributes are found again, their values still escaped. -/
theorem attributesFrom_write {attributes : List (String × String)}
    (words : ∀ entry ∈ attributes, IsWord entry.1.toList) :
    attributesFrom .between (writeAttributes attributes) =
      some (attributes.map fun entry => (entry.1.toList, escape entry.2.toList)) := by
  induction attributes with
  | nil => rfl
  | cons entry others ih =>
      rcases entry with ⟨key, value⟩
      rcases words _ List.mem_cons_self with ⟨nonempty, lower⟩
      rcases List.exists_cons_of_ne_nil nonempty with ⟨c, word, key_eq⟩
      have next := ih fun other member => words other (by simp [member])
      simp only at lower
      rw [key_eq] at lower
      have written : writeAttributes ((key, value) :: others) =
          ' ' :: c :: (word ++ '=' :: '"' ::
            (escape value.toList ++ '"' :: writeAttributes others)) := by
        simp [writeAttributes, key_eq]
      have blank : Text.isMarkupBlank ' ' = true := by decide
      have first := not_blank_of_isLower (lower c (by simp))
      rw [written]
      simp only [attributesFrom, blank, first, if_true, Bool.false_eq_true, if_false]
      rw [attributesFrom_key fun other member => lower other (by simp [member])]
      simp only [attributesFrom, true_or, if_true]
      rw [attributesFrom_value fun _ member => inert_escape member, next]
      simp [key_eq]

theorem localName_word {word : List Char} (lower : ∀ c ∈ word, c.isLower = true) :
    localName word = word := by
  have none_found : word.dropWhile (· ≠ ':') = [] := by
    rw [List.dropWhile_eq_nil_iff]
    intro c member
    simpa using ne_of_isLower (lower c member) (show ':'.isLower = false by decide)
  unfold localName
  rw [none_found]

theorem meantAttributes_write {attributes : List (String × String)}
    (words : ∀ entry ∈ attributes, IsWord entry.1.toList) :
    meantAttributes (attributes.map fun entry =>
      (entry.1.toList, escape entry.2.toList)) = some attributes := by
  induction attributes with
  | nil => rfl
  | cons entry others ih =>
      have first := words entry (by simp)
      have next := ih fun other member => words other (by simp [member])
      simp [meantAttributes, unescape?_escape, next, localName_word first.2]

theorem hasRepeatedKey_write {attributes : List (String × String)}
    (distinct : (attributes.map Prod.fst).Nodup) :
    hasRepeatedKey (attributes.map fun entry =>
      (entry.1.toList, escape entry.2.toList)) = false := by
  induction attributes with
  | nil => rfl
  | cons entry others ih =>
      rw [List.map_cons, List.nodup_cons] at distinct
      rcases distinct with ⟨fresh, distinct⟩
      simp only [List.map_cons, hasRepeatedKey, ih distinct, Bool.or_false, List.any_map,
        List.any_eq_false, Function.comp_apply, decide_eq_true_eq]
      intro other member same
      apply fresh
      rw [← String.toList_inj.mp same]
      exact List.mem_map_of_mem member

/-! ## Tags -/

theorem fullName_write {name : List Char} (lower : ∀ c ∈ name, c.isLower = true)
    (attributes : List (String × String)) :
    fullName (name ++ writeAttributes attributes) = name := by
  have stops : (writeAttributes attributes).takeWhile (fun c => !Text.isMarkupBlank c) = [] := by
    cases attributes with
    | nil => rfl
    | cons entry others =>
        rcases entry with ⟨key, value⟩
        rfl
  unfold fullName
  rw [List.takeWhile_append_of_pos, stops, List.append_nil]
  intro c member
  rw [not_blank_of_isLower (lower c member)]
  rfl

/-- A tag that was written begins the element that it was written for. -/
theorem ofTag?_write {name : String} {attributes : List (String × String)}
    (word : IsWord name.toList) (words : ∀ entry ∈ attributes, IsWord entry.1.toList)
    (distinct : (attributes.map Prod.fst).Nodup) :
    ofTag? (name.toList ++ writeAttributes attributes) = some ⟨name, attributes, "", []⟩ := by
  unfold ofTag?
  rw [fullName_write word.2, List.drop_left]
  simp [attributesFrom_write words, hasRepeatedKey_write distinct, meantAttributes_write words,
    localName_word word.2]

end Element

end RuleTree
