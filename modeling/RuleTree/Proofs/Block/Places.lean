import RuleTree.Proofs.Block.Decoding
import Mathlib.Data.List.Infix

/-!
# Places in a document

An element of a document is known by its place, the way down to it from the root.  A block holds
other blocks in its slots and precedes the block in its `next`; which blocks are reached in these
two ways is a matter of the document alone (`Block.Reached`).
-/

namespace RuleTree

/-- A place in an element: which child to take at each level. -/
abbrev Place := List Nat

namespace Element

/-- The element at a place. -/
def at? : Element → Place → Option Element
  | element, [] => some element
  | element, index :: rest => element.children[index]?.bind fun child => child.at? rest

theorem at?_append (element : Element) (first second : Place) :
    element.at? (first ++ second) = (element.at? first).bind fun inner => inner.at? second := by
  induction first generalizing element with
  | nil => rfl
  | cons index rest ih =>
      rw [List.cons_append, at?, at?, Option.bind_assoc]
      simp only [ih]

theorem at?_child {root element : Element} {place : Place} (found : root.at? place = some element)
    (index : Nat) : root.at? (place ++ [index]) = element.children[index]? := by
  rw [at?_append, found, Option.bind_some, at?]
  cases element.children[index]? <;> rfl

theorem at?_inner {root element child : Element} {place : Place} {index : Nat}
    (found : root.at? place = some element) (below : element.children[index]? = some child)
    (inner : Nat) : root.at? (place ++ [index, inner]) = child.children[inner]? := by
  have here := (at?_child found index).trans below
  rw [← at?_child here inner, List.append_assoc]
  rfl

theorem sizeOf_child {element child : Element} (member : child ∈ element.children) :
    sizeOf child < sizeOf element := by
  rcases element with ⟨name, attributes, text, children⟩
  have smaller := List.sizeOf_lt_of_mem member
  simp only [Element.mk.sizeOf_spec] at smaller ⊢
  omega

/-- What holds of an element as soon as it holds of the elements two levels below, as those of the
blocks in the slots of a block, holds of all elements. -/
theorem inner_induction {holds : Element → Prop}
    (step : ∀ element, (∀ child ∈ element.children, ∀ inner ∈ child.children, holds inner) →
      holds element) (element : Element) : holds element := by
  refine step element fun child child_mem inner inner_mem => ?_
  exact inner_induction step inner
termination_by sizeOf element
decreasing_by exact Nat.lt_trans (sizeOf_child inner_mem) (sizeOf_child child_mem)

end Element

namespace Block

/-! ## What stands where -/

/-- Which of some elements is the first with a name. -/
def first? (name : String) (elements : List Element) : Option Nat :=
  elements.findIdx? fun element => element.name = name

/-- Which of the elements in a slot fills it: the first block or, if there is none, the first
shadow. -/
def filling? (elements : List Element) : Option Nat :=
  (first? "block" elements).or (first? "shadow" elements)

/-- Whether an element is a slot of a block. -/
def IsSlot (element : Element) : Prop := element.name = "value" ∨ element.name = "statement"

instance (element : Element) : Decidable (IsSlot element) := by
  unfold IsSlot
  infer_instance

/-- A slot of the block at a place holds the block at another place. -/
inductive Holds (root : Element) : Place → Place → Prop where
  | intro {place : Place} {block slot : Element} {index inner : Nat} :
      root.at? place = some block → block.children[index]? = some slot → IsSlot slot →
        filling? slot.children = some inner → Holds root place (place ++ [index, inner])

/-- The first `next` of the block at a place holds the block at another place. -/
inductive Precedes (root : Element) : Place → Place → Prop where
  | intro {place : Place} {block wrapper : Element} {index inner : Nat} :
      root.at? place = some block → first? "next" block.children = some index →
        block.children[index]? = some wrapper → first? "block" wrapper.children = some inner →
          Precedes root place (place ++ [index, inner])

/-- A place is that of a block in a slot for a value. -/
def InValue (root : Element) (place : Place) : Prop :=
  ∃ outer index slot, place = outer ++ [index] ∧ root.at? outer = some slot ∧ slot.name = "value"

/-- The places that are reached from some places through slots and, where it is followed, through
`next`. -/
inductive Reached (root : Element) (follows : Place → Prop) (starts : List Place) :
    Place → Prop where
  | start {place : Place} : place ∈ starts → Reached root follows starts place
  | held {place inner : Place} : Reached root follows starts place → Holds root place inner →
      Reached root follows starts inner
  | next {place after : Place} : Reached root follows starts place → follows place →
      Precedes root place after → Reached root follows starts after

/-- The places where something starts among some elements, which are those from a number on at a
place. -/
def startsFrom (own : Element → List Place) (base : Place) (number : Nat) :
    List Element → List Place
  | [] => []
  | element :: rest =>
      (own element).map (fun place => base ++ number :: place) ++
        startsFrom own base (number + 1) rest

/-- What a slot holds starts at its filling. -/
def slotStarts (slot : Element) : List Place :=
  if IsSlot slot then (filling? slot.children).toList.map ([·]) else []

/-- The places of the blocks in the slots of the block at a place. -/
def heldPlaces (place : Place) (block : Element) : List Place :=
  startsFrom slotStarts place 0 block.children

/-- The place of the block that the block at a place precedes. -/
def nextPlaces (place : Place) (block : Element) : List Place :=
  match first? "next" block.children with
  | none => []
  | some index =>
      match block.children[index]?.bind fun wrapper => first? "block" wrapper.children with
      | none => []
      | some inner => [place ++ [index, inner]]

/-- The places of the blocks right below the root. -/
def topPlaces (root : Element) : List Place :=
  startsFrom (fun element => if element.name = "block" then [[]] else []) [] 0 root.children

/-! ## Looking elements up -/

theorem first?_eq_some {name : String} {elements : List Element} {index : Nat}
    (found : first? name elements = some index) :
    ∃ element, elements[index]? = some element ∧ element.name = name ∧
      (elements.find? fun element => element.name = name) = some element := by
  rcases List.findIdx?_eq_some_iff_getElem.mp found with ⟨bound, named, earlier⟩
  refine ⟨elements[index], List.getElem?_eq_getElem bound, by simpa using named, ?_⟩
  refine List.find?_eq_some_iff_getElem.mpr ⟨named, index, bound, rfl, fun other less => ?_⟩
  simpa using earlier other less

theorem first?_eq_none {name : String} {elements : List Element}
    (found : first? name elements = none) :
    (elements.find? fun element => element.name = name) = none := by
  rw [List.find?_eq_none]
  intro element member
  simpa using List.findIdx?_eq_none_iff.mp found element member

theorem filling?_eq_some {elements : List Element} {index : Nat}
    (found : filling? elements = some index) :
    ∃ element, elements[index]? = some element ∧ inner? elements = some element := by
  rcases Option.or_eq_some_iff.mp found with block | ⟨no_block, shadow⟩
  · rcases first?_eq_some block with ⟨element, there, _, first⟩
    exact ⟨element, there, by rw [inner?, first, Option.some_or]⟩
  · rcases first?_eq_some shadow with ⟨element, there, _, first⟩
    exact ⟨element, there, by rw [inner?, first?_eq_none no_block, Option.none_or, first]⟩

theorem filling?_eq_none {elements : List Element} (found : filling? elements = none) :
    inner? elements = none := by
  rcases Option.or_eq_none_iff.mp found with ⟨no_block, no_shadow⟩
  rw [inner?, first?_eq_none no_block, first?_eq_none no_shadow, Option.or_none]

theorem inValue_child {root element : Element} {place : Place}
    (found : root.at? place = some element) (index : Nat) :
    InValue root (place ++ [index]) ↔ element.name = "value" := by
  constructor
  · rintro ⟨outer, last, slot, same, there, value⟩
    rcases List.append_inj' same rfl with ⟨rfl, _⟩
    rw [found] at there
    cases there
    exact value
  · intro value
    exact ⟨place, index, element, rfl, found, value⟩

theorem inValue_inner {root element child : Element} {place : Place} {index : Nat}
    (found : root.at? place = some element) (below : element.children[index]? = some child)
    (inner : Nat) : InValue root (place ++ [index, inner]) ↔ child.name = "value" := by
  have here := inValue_child ((Element.at?_child found index).trans below) inner
  rwa [List.append_assoc] at here

/-! ## Starting -/

section Starts

variable {own : Element → List Place} {base place : Place} {number : Nat}

theorem mem_startsFrom {elements : List Element} :
    place ∈ startsFrom own base number elements ↔
      ∃ index element start, elements[index]? = some element ∧ start ∈ own element ∧
        place = base ++ (number + index) :: start := by
  induction elements generalizing number with
  | nil => simp [startsFrom]
  | cons element rest ih =>
      rw [startsFrom, List.mem_append, List.mem_map, ih]
      constructor
      · rintro (⟨start, member, rfl⟩ | ⟨index, other, start, there, member, rfl⟩)
        · exact ⟨0, element, start, rfl, member, rfl⟩
        · exact ⟨index + 1, other, start, there, member, by rw [Nat.add_assoc, Nat.add_comm 1]⟩
      · rintro ⟨index, other, start, there, member, rfl⟩
        cases index with
        | zero =>
            cases there
            exact .inl ⟨start, member, rfl⟩
        | succ index =>
            exact .inr ⟨index, other, start, there, member, by rw [Nat.add_assoc, Nat.add_comm 1]⟩

theorem mem_heldPlaces {root block : Element} (found : root.at? base = some block) :
    place ∈ heldPlaces base block ↔ Holds root base place := by
  rw [heldPlaces, mem_startsFrom]
  constructor
  · rintro ⟨index, slot, start, there, member, rfl⟩
    unfold slotStarts at member
    split at member
    · rename_i slotted
      rcases List.mem_map.mp member with ⟨inner, filled, rfl⟩
      rw [Nat.zero_add]
      exact .intro found there slotted (Option.mem_toList.mp filled)
    · cases member
  · rintro (⟨found', there, slotted, filled⟩)
    rw [found] at found'
    cases found'
    refine ⟨_, _, _, there, ?_, by rw [Nat.zero_add]⟩
    unfold slotStarts
    rw [if_pos slotted]
    exact List.mem_map_of_mem (Option.mem_toList.mpr filled)

theorem mem_nextPlaces {root block : Element} (found : root.at? base = some block) :
    place ∈ nextPlaces base block ↔ Precedes root base place := by
  unfold nextPlaces
  constructor
  · intro member
    split at member
    · cases member
    · rename_i index first
      split at member
      · cases member
      · rename_i inner filled
        rcases Option.bind_eq_some_iff.mp filled with ⟨wrapper, there, filled⟩
        rcases List.mem_singleton.mp member with rfl
        exact .intro found first there filled
  · rintro (⟨found', first, there, filled⟩)
    rw [found] at found'
    cases found'
    simp [first, there, filled]

theorem mem_topPlaces {root : Element} :
    place ∈ topPlaces root ↔
      ∃ index element, root.children[index]? = some element ∧ element.name = "block" ∧
        place = [index] := by
  rw [topPlaces, mem_startsFrom]
  constructor
  · rintro ⟨index, element, start, there, member, rfl⟩
    split at member
    · rename_i block
      rcases List.mem_singleton.mp member with rfl
      exact ⟨index, element, there, block, by rw [Nat.zero_add]; rfl⟩
    · cases member
  · rintro ⟨index, element, there, block, rfl⟩
    exact ⟨index, element, [], there, by rw [if_pos block]; simp, by rw [Nat.zero_add]; rfl⟩

end Starts

/-! ## Reaching -/

section Reaching

variable {root : Element} {follows : Place → Prop} {starts starts' : List Place} {place : Place}

theorem Holds.extends {inner : Place} (holds : Holds root place inner) :
    ∃ block index slot rest, root.at? place = some block ∧ block.children[index]? = some slot ∧
      IsSlot slot ∧ inner = place ++ index :: rest := by
  cases holds with
  | intro found there slotted _ => exact ⟨_, _, _, _, found, there, slotted, rfl⟩

theorem Precedes.extends {after : Place} (precedes : Precedes root place after) :
    ∃ block index wrapper rest, root.at? place = some block ∧
      block.children[index]? = some wrapper ∧ wrapper.name = "next" ∧
        after = place ++ index :: rest := by
  cases precedes with
  | intro found first there _ =>
      rcases first?_eq_some first with ⟨wrapper, there', named, _⟩
      exact ⟨_, _, wrapper, _, found, there', named, rfl⟩

/-- A block precedes one other block at most. -/
theorem Precedes.unique {after after' : Place} (precedes : Precedes root place after)
    (precedes' : Precedes root place after') : after = after' := by
  cases precedes with
  | intro found first there inner =>
      cases precedes' with
      | intro found' first' there' inner' =>
          rw [found] at found'
          cases found'
          rw [first] at first'
          cases first'
          rw [there] at there'
          cases there'
          rw [inner] at inner'
          cases inner'
          rfl

/-- What is reached is below a start. -/
theorem Reached.prefix_start (reached : Reached root follows starts place) :
    ∃ start ∈ starts, start <+: place := by
  induction reached with
  | start member => exact ⟨_, member, List.prefix_rfl⟩
  | held _ holds ih =>
      rcases ih with ⟨start, member, above⟩
      rcases holds.extends with ⟨_, _, _, _, _, _, _, rfl⟩
      exact ⟨start, member, above.trans (List.prefix_append _ _)⟩
  | next _ _ precedes ih =>
      rcases ih with ⟨start, member, above⟩
      rcases precedes.extends with ⟨_, _, _, _, _, _, _, rfl⟩
      exact ⟨start, member, above.trans (List.prefix_append _ _)⟩

theorem Reached.trans (reached : Reached root follows starts place)
    (each : ∀ start ∈ starts, Reached root follows starts' start) :
    Reached root follows starts' place := by
  induction reached with
  | start member => exact each _ member
  | held _ holds ih => exact .held ih holds
  | next _ followed precedes ih => exact .next ih followed precedes

theorem reached_append :
    Reached root follows (starts ++ starts') place ↔
      Reached root follows starts place ∨ Reached root follows starts' place := by
  constructor
  · intro reached
    induction reached with
    | start member => exact (List.mem_append.mp member).imp .start .start
    | held _ holds ih => exact ih.imp (.held · holds) (.held · holds)
    | next _ followed precedes ih =>
        exact ih.imp (.next · followed precedes) (.next · followed precedes)
  · rintro (reached | reached)
    · exact reached.trans fun start member => .start (List.mem_append_left _ member)
    · exact reached.trans fun start member => .start (List.mem_append_right _ member)

/-- What is reached from a block is the block, what is reached from its slots, and what is reached
from the block after it. -/
theorem reached_singleton {base : Place}
    (held : ∀ inner, inner ∈ starts ↔ Holds root base inner)
    (next : ∀ after, after ∈ starts' ↔ follows base ∧ Precedes root base after) :
    Reached root follows [base] place ↔
      place = base ∨ Reached root follows starts place ∨ Reached root follows starts' place := by
  constructor
  · intro reached
    induction reached with
    | start member => exact .inl (List.mem_singleton.mp member)
    | held _ holds ih =>
        rcases ih with rfl | inside | after
        · exact .inr (.inl (.start ((held _).mpr holds)))
        · exact .inr (.inl (.held inside holds))
        · exact .inr (.inr (.held after holds))
    | next _ followed precedes ih =>
        rcases ih with rfl | inside | after
        · exact .inr (.inr (.start ((next _).mpr ⟨followed, precedes⟩)))
        · exact .inr (.inl (.next inside followed precedes))
        · exact .inr (.inr (.next after followed precedes))
  · have own : Reached root follows [base] base := .start (List.mem_singleton.mpr rfl)
    rintro (rfl | inside | after)
    · exact own
    · exact inside.trans fun start member => .held own ((held start).mp member)
    · refine after.trans fun start member => ?_
      rcases (next start).mp member with ⟨followed, precedes⟩
      exact .next own followed precedes

end Reaching

end Block

end RuleTree
