import RuleTree.Proofs.Block.Places

/-!
# Where blocks go

A plan arranges the places of blocks like the nodes that the blocks are read as.  The plan of a
block is made of those of what is in its slots and of what comes after it
(`Block.Layout.cons_block`), and so every document that is read has one (`Block.exists_layout`).
-/

namespace RuleTree.Block

variable {root : Element} {follows : Place → Prop}

/-! ## Plans -/

/-- The place of a block with those of the blocks that are read as its children. -/
structure Plan where
  place : Place
  children : List Plan

namespace Plan

mutual

/-- The plan and all plans below it. -/
def walk : Plan → List Plan
  | ⟨place, children⟩ => ⟨place, children⟩ :: walkAll children

def walkAll : List Plan → List Plan
  | [] => []
  | plan :: rest => walk plan ++ walkAll rest

end

/-- The places of siblings. -/
def level (plans : List Plan) : List Place := plans.map place

/-- The places of all siblings below some plans. -/
def levelsBelow (plans : List Plan) : List (List Place) :=
  (walkAll plans).map fun plan => level plan.children

/-- The places of all siblings in some plans. -/
def levels (plans : List Plan) : List (List Place) := level plans :: levelsBelow plans

/-- All places in some plans. -/
def places (plans : List Plan) : List Place := (walkAll plans).map place

mutual

/-- The sketch is the node of the block at the place, with the nodes of the blocks below it. -/
def Of (root : Element) : Plan → Sketch → Prop
  | ⟨place, below⟩, sketch =>
      ∃ block children, root.at? place = some block ∧ node block (.ok children) = .ok sketch ∧
        AllOf root below children

def AllOf (root : Element) : List Plan → List Sketch → Prop
  | [], sketches => sketches = []
  | plan :: rest, sketches =>
      ∃ sketch others, sketches = sketch :: others ∧ Of root plan sketch ∧ AllOf root rest others

end

variable {plans plans' : List Plan} {sketches sketches' : List Sketch}

theorem walkAll_append : walkAll (plans ++ plans') = walkAll plans ++ walkAll plans' := by
  induction plans with
  | nil => rfl
  | cons plan rest ih => rw [List.cons_append, walkAll, walkAll, ih, List.append_assoc]

theorem places_append : places (plans ++ plans') = places plans ++ places plans' := by
  rw [places, walkAll_append, List.map_append]
  rfl

theorem places_cons (base : Place) (children : List Plan) :
    places (⟨base, children⟩ :: plans) = base :: (places children ++ places plans) := by
  simp [places, walkAll, walk]

theorem mem_places_of_level {place : Place} (member : place ∈ level plans) :
    place ∈ places plans := by
  induction plans with
  | nil => cases member
  | cons plan rest ih =>
      rcases plan with ⟨base, children⟩
      rw [places_cons]
      rcases List.mem_cons.mp member with rfl | later
      · exact List.mem_cons_self ..
      · exact List.mem_cons_of_mem _ (List.mem_append_right _ (ih later))

theorem AllOf.append (first : AllOf root plans sketches) (second : AllOf root plans' sketches') :
    AllOf root (plans ++ plans') (sketches ++ sketches') := by
  induction plans generalizing sketches with
  | nil =>
      cases first
      exact second
  | cons plan rest ih =>
      rcases first with ⟨sketch, others, rfl, here, first⟩
      exact ⟨sketch, others ++ sketches', rfl, here, ih first⟩

end Plan

/-! ## Layouts -/

/-- Siblings stand in the order of the document, and right after a block stands the one that it
precedes. -/
structure Neat (root : Element) (follows : Place → Prop) (level : List Place) : Prop where
  ordered : level.Pairwise (· < ·)
  chained : ∀ place ∈ level, follows place → ∀ after, Precedes root place after →
    [place, after] <:+: level

/-- The nodes that blocks are read as: one for each block that is reached. -/
structure Layout (root : Element) (follows : Place → Prop) (starts : List Place)
    (plans : List Plan) (sketches : List Sketch) : Prop where
  nodes : Plan.AllOf root plans sketches
  reached : ∀ place, place ∈ Plan.places plans ↔ Reached root follows starts place
  distinct : (Plan.places plans).Nodup
  /-- What starts is on top. -/
  top : ∀ place ∈ starts, place ∈ Plan.level plans
  first : (Plan.level plans).head? = starts.head?
  /-- What a block holds is right below it. -/
  held : ∀ plan ∈ Plan.walkAll plans, ∀ inner, Holds root plan.place inner →
    inner ∈ Plan.level plan.children
  neat : ∀ level ∈ Plan.levels plans, Neat root follows level

namespace Neat

variable {level level' : List Place} {base : Place}

theorem append (first : Neat root follows level) (second : Neat root follows level')
    (apart : ∀ place ∈ level, ∀ place' ∈ level', place < place') :
    Neat root follows (level ++ level') where
  ordered := List.pairwise_append.mpr ⟨first.ordered, second.ordered, apart⟩
  chained place member followed after precedes := by
    rcases List.mem_append.mp member with member | member
    · exact (first.chained place member followed after precedes).trans
        (List.prefix_append _ _).isInfix
    · exact (second.chained place member followed after precedes).trans
        (List.suffix_append _ _).isInfix

theorem cons (rest : Neat root follows level) (above : ∀ place ∈ level, base < place)
    (next : follows base → ∀ after, Precedes root base after → level.head? = some after) :
    Neat root follows (base :: level) where
  ordered := List.pairwise_cons.mpr ⟨above, rest.ordered⟩
  chained place member followed after precedes := by
    rcases List.mem_cons.mp member with rfl | member
    · rcases List.head?_eq_some_iff.mp (next followed after precedes) with ⟨others, rfl⟩
      exact List.IsPrefix.isInfix ⟨others, rfl⟩
    · exact List.infix_cons (rest.chained place member followed after precedes)

end Neat

namespace Layout

variable {starts starts' : List Place} {plans plans' : List Plan}
  {sketches sketches' : List Sketch} {base : Place}

theorem nil : Layout root follows [] [] [] where
  nodes := rfl
  reached place := by
    constructor
    · intro impossible
      cases impossible
    · intro reached
      rcases reached.prefix_start with ⟨_, impossible, _⟩
      cases impossible
  distinct := List.nodup_nil
  top _ impossible := by cases impossible
  first := rfl
  held _ impossible := by cases impossible
  neat level member := by
    rcases List.mem_singleton.mp member with rfl
    exact ⟨List.Pairwise.nil, fun _ impossible => by cases impossible⟩

/-- All places of a layout are below its starts. -/
theorem exists_below {at? : Nat → Prop} (layout : Layout root follows starts plans sketches)
    (each : ∀ start ∈ starts, ∃ index rest, at? index ∧ start = base ++ index :: rest) :
    ∀ place ∈ Plan.places plans, ∃ index rest, at? index ∧ place = base ++ index :: rest := by
  intro place member
  rcases ((layout.reached place).mp member).prefix_start with ⟨start, start_mem, rest', rfl⟩
  rcases each start start_mem with ⟨index, rest, there, rfl⟩
  exact ⟨index, rest ++ rest', there, by simp⟩

theorem append (left : Layout root follows starts plans sketches)
    (right : Layout root follows starts' plans' sketches')
    (apart : ∀ place ∈ Plan.places plans, ∀ place' ∈ Plan.places plans', place < place') :
    Layout root follows (starts ++ starts') (plans ++ plans') (sketches ++ sketches') where
  nodes := left.nodes.append right.nodes
  reached place := by
    rw [Plan.places_append, List.mem_append, reached_append, left.reached, right.reached]
  distinct := by
    rw [Plan.places_append, List.nodup_append]
    refine ⟨left.distinct, right.distinct, fun place member place' member' same => ?_⟩
    exact List.lt_irrefl _ (same ▸ apart place member place' member')
  top place member := by
    rw [Plan.level, List.map_append, List.mem_append]
    exact (List.mem_append.mp member).imp (left.top place) (right.top place)
  first := by
    have heads := congrArg₂ Option.or left.first right.first
    rwa [← List.head?_append, ← List.head?_append, Plan.level, Plan.level, ← List.map_append]
      at heads
  held plan member := by
    rw [Plan.walkAll_append] at member
    exact (List.mem_append.mp member).elim (left.held plan) (right.held plan)
  neat level member := by
    rw [Plan.levels, Plan.levelsBelow, Plan.walkAll_append, List.map_append] at member
    rcases List.mem_cons.mp member with rfl | member
    · rw [Plan.level, List.map_append]
      exact (left.neat _ (List.mem_cons_self ..)).append (right.neat _ (List.mem_cons_self ..))
        fun place here place' there =>
          apart place (Plan.mem_places_of_level here) place' (Plan.mem_places_of_level there)
    · rcases List.mem_append.mp member with member | member
      · exact left.neat level (List.mem_cons_of_mem _ member)
      · exact right.neat level (List.mem_cons_of_mem _ member)

section Blocks

variable {block : Element} {children : List Sketch} {sketch : Sketch} {after : List Place}

theorem inside_block (found : root.at? base = some block)
    (inside : Layout root follows (heldPlaces base block) plans children) :
    ∀ place ∈ Plan.places plans, ∃ index rest,
      (∃ slot, block.children[index]? = some slot ∧ IsSlot slot) ∧
        place = base ++ index :: rest := by
  refine inside.exists_below fun start member => ?_
  rcases ((mem_heldPlaces found).mp member).extends with
    ⟨block', index, slot, rest, found', there, slotted, same⟩
  rw [found] at found'
  cases found'
  exact ⟨index, rest, ⟨slot, there, slotted⟩, same⟩

theorem after_block (found : root.at? base = some block)
    (next : ∀ place, place ∈ after ↔ follows base ∧ Precedes root base place)
    (rest : Layout root follows after plans sketches) :
    ∀ place ∈ Plan.places plans, ∃ index rest,
      (∃ wrapper, block.children[index]? = some wrapper ∧ wrapper.name = "next") ∧
        place = base ++ index :: rest := by
  refine rest.exists_below fun start member => ?_
  rcases ((next start).mp member).2.extends with
    ⟨block', index, wrapper, rest, found', there, named, same⟩
  rw [found] at found'
  cases found'
  exact ⟨index, rest, ⟨wrapper, there, named⟩, same⟩

/-- A block with the layouts of what is in its slots and of what comes after it. -/
theorem cons_block (found : root.at? base = some block)
    (read : node block (.ok children) = .ok sketch)
    (inside : Layout root follows (heldPlaces base block) plans children)
    (next : ∀ place, place ∈ after ↔ follows base ∧ Precedes root base place)
    (rest : Layout root follows after plans' sketches) :
    Layout root follows [base] (⟨base, plans⟩ :: plans') (sketch :: sketches) where
  nodes := ⟨sketch, sketches, rfl, ⟨block, children, found, read, inside.nodes⟩, rest.nodes⟩
  reached place := by
    rw [reached_singleton (fun inner => mem_heldPlaces found) next, ← inside.reached,
      ← rest.reached, Plan.places_cons, List.mem_cons, List.mem_append]
  distinct := by
    rw [Plan.places_cons, List.nodup_cons, List.nodup_append]
    refine ⟨fun member => ?_, inside.distinct, rest.distinct, ?_⟩
    · have longer : ∃ index rest, base = base ++ index :: rest := by
        rcases List.mem_append.mp member with member | member
        · rcases inside_block found inside base member with ⟨index, rest, _, same⟩
          exact ⟨index, rest, same⟩
        · rcases after_block found next rest base member with ⟨index, rest, _, same⟩
          exact ⟨index, rest, same⟩
      rcases longer with ⟨index, rest, same⟩
      simp at same
    · -- No slot is also a `next`.
      rintro place member _ member' rfl
      rcases inside_block found inside place member with ⟨index, rest', ⟨slot, there, slotted⟩, rfl⟩
      rcases after_block found next rest _ member' with ⟨index', _, ⟨wrapper, there', named⟩, same⟩
      rcases List.cons.inj (List.append_cancel_left same) with ⟨rfl, _⟩
      rw [there] at there'
      cases there'
      rcases slotted with value | statement
      · rw [named] at value
        simp at value
      · rw [named] at statement
        simp at statement
  top place member := by
    rcases List.mem_singleton.mp member with rfl
    exact List.mem_cons_self ..
  first := rfl
  held plan member inner holds := by
    rcases List.mem_append.mp member with member | member
    · rcases List.mem_cons.mp member with rfl | member
      · exact inside.top inner ((mem_heldPlaces found).mpr holds)
      · exact inside.held plan member inner holds
    · exact rest.held plan member inner holds
  neat level member := by
    have levels : Plan.levels (⟨base, plans⟩ :: plans') =
        (base :: Plan.level plans') :: (Plan.levels plans ++ Plan.levelsBelow plans') := by
      simp [Plan.levels, Plan.levelsBelow, Plan.level, Plan.walkAll, Plan.walk]
    rw [levels] at member
    rcases List.mem_cons.mp member with rfl | member
    · refine (rest.neat _ (List.mem_cons_self ..)).cons ?_ ?_
      · intro place there
        rcases after_block found next rest place (Plan.mem_places_of_level there) with
          ⟨index, rest, _, rfl⟩
        have longer : base ++ [] < base ++ index :: rest :=
          List.append_left_lt (List.nil_lt_cons index rest)
        rwa [List.append_nil] at longer
      · intro followed place precedes
        have member := (next place).mpr ⟨followed, precedes⟩
        rw [rest.first]
        cases after with
        | nil => cases member
        | cons first others =>
            have own := ((next first).mp (List.mem_cons_self ..)).2
            rw [List.head?_cons, precedes.unique own]
    · rcases List.mem_append.mp member with member | member
      · exact inside.neat level member
      · exact rest.neat level (List.mem_cons_of_mem _ member)

end Blocks

end Layout

/-! ## Reading -/

/-- Reads elements one after the other. -/
def gather (read : Element → Except StructuralError (List Sketch)) :
    List Element → Except StructuralError (List Sketch)
  | [] => .ok []
  | element :: rest => do
      let here ← read element
      let others ← gather read rest
      .ok (here ++ others)

theorem inSlots_eq_gather (elements : List Element) :
    inSlots elements = gather (fun slot => held slot.name slot.children) elements := by
  induction elements with
  | nil => rfl
  | cons element rest ih => rw [inSlots_cons, gather, ih]

theorem chains_eq_gather (elements : List Element) : chains elements =
    gather (fun element => if element.name = "block" then chain element else .ok []) elements := by
  induction elements with
  | nil => rfl
  | cons element rest ih =>
      rw [chains, gather, ih]
      by_cases block : element.name = "block"
      · simp only [block, if_true]
      · simp only [block, if_false]

theorem exists_layout_gather {read : Element → Except StructuralError (List Sketch)}
    {own : Element → List Place} {base : Place} {elements : List Element} {number : Nat}
    {sketches : List Sketch} (each : ∀ index element, elements[index]? = some element →
      ∀ here, read element = .ok here → ∃ plans, Layout root follows
        ((own element).map fun place => base ++ (number + index) :: place) plans here)
    (done : gather read elements = .ok sketches) :
    ∃ plans, Layout root follows (startsFrom own base number elements) plans sketches := by
  induction elements generalizing number sketches with
  | nil =>
      cases done
      exact ⟨[], .nil⟩
  | cons element rest ih =>
      rcases Answer.bind_eq_ok.mp done with ⟨here, here_eq, done⟩
      rcases Answer.bind_eq_ok.mp done with ⟨others, others_eq, same⟩
      cases same
      rcases each 0 element rfl here here_eq with ⟨plans, first⟩
      have each_rest : ∀ index other, rest[index]? = some other → ∀ here, read other = .ok here →
          ∃ plans, Layout root follows
            ((own other).map fun place => base ++ (number + 1 + index) :: place) plans here := by
        intro index other there here here_eq
        rw [Nat.add_assoc, Nat.add_comm 1]
        exact each (index + 1) other there here here_eq
      rcases ih each_rest others_eq with ⟨plans', later⟩
      refine ⟨plans ++ plans', first.append later fun place member place' member' => ?_⟩
      rcases @Layout.exists_below _ _ _ _ _ base (· = number) first (fun start member => by
        rcases List.mem_map.mp member with ⟨place, _, rfl⟩
        exact ⟨number, place, rfl, rfl⟩) place member with ⟨_, under, same, rfl⟩
      rcases @Layout.exists_below _ _ _ _ _ base (number < ·) later (fun start member => by
        rcases mem_startsFrom.mp member with ⟨index, _, place, _, _, rfl⟩
        exact ⟨number + 1 + index, place, by omega, rfl⟩) place' member' with
        ⟨index, under', less, rfl⟩
      exact List.append_left_lt (List.cons_lt_cons_iff.mpr (.inl (same ▸ less)))

theorem node_eq_ok {block : Element} {slots : Except StructuralError (List Sketch)}
    {sketch : Sketch} (read : node block slots = .ok sketch) :
    ∃ children, slots = .ok children ∧ node block (.ok children) = .ok sketch := by
  cases slots with
  | ok children => exact ⟨children, rfl, read⟩
  | error cause =>
      unfold node at read
      split at read
      · cases read
      · cases read

/-- How the block at a place is read, with its layout: alone if it is in a slot for a value, and
else with the blocks after it. -/
def Arranged (root element : Element) : Prop :=
  ∀ place, root.at? place = some element →
    (InValue root place → ∀ sketch, single element = .ok sketch →
      ∃ plans, Layout root (¬InValue root ·) [place] plans [sketch]) ∧
    (¬InValue root place → ∀ sketches, chain element = .ok sketches →
      ∃ plans, Layout root (¬InValue root ·) [place] plans sketches)

theorem exists_layout_slot {place : Place} {block slot : Element} {index : Nat}
    (found : root.at? place = some block) (there : block.children[index]? = some slot)
    (inner : ∀ inner ∈ slot.children, Arranged root inner) {here : List Sketch}
    (read : held slot.name slot.children = .ok here) :
    ∃ plans, Layout root (¬InValue root ·)
      ((slotStarts slot).map fun start => place ++ index :: start) plans here := by
  unfold slotStarts
  by_cases slotted : IsSlot slot
  · rw [if_pos slotted]
    cases filled : filling? slot.children with
    | none =>
        have empty := filling?_eq_none filled
        rcases slotted with value | statement
        · rw [value, held_value, empty] at read
          cases read
          exact ⟨[], .nil⟩
        · rw [statement, held_statement, empty] at read
          cases read
          exact ⟨[], .nil⟩
    | some number =>
        rcases filling?_eq_some filled with ⟨element, at_number, only⟩
        have arranged := inner element (List.mem_of_getElem? at_number) (place ++ [index, number])
          ((Element.at?_inner found there number).trans at_number)
        have in_value := inValue_inner found there number
        rcases slotted with value | statement
        · rw [value, held_value, only] at read
          cases one : single element with
          | error cause =>
              rw [Option.map_some, Option.getD_some, one] at read
              cases read
          | ok sketch =>
              rw [Option.map_some, Option.getD_some, one] at read
              cases read
              exact arranged.1 (in_value.mpr value) sketch one
        · rw [statement, held_statement, only] at read
          refine arranged.2 (fun value => ?_) here read
          have named := in_value.mp value
          rw [statement] at named
          simp at named
  · rw [if_neg slotted]
    have nothing : held slot.name slot.children = .ok [] := by
      rw [held, if_neg fun value => slotted (.inl value),
        if_neg fun statement => slotted (.inr statement)]
    rw [nothing] at read
    cases read
    exact ⟨[], .nil⟩

theorem exists_layout_slots {place : Place} {block : Element}
    (found : root.at? place = some block)
    (inner : ∀ child ∈ block.children, ∀ inner ∈ child.children, Arranged root inner)
    {children : List Sketch} (read : inSlots block.children = .ok children) :
    ∃ plans, Layout root (¬InValue root ·) (heldPlaces place block) plans children := by
  rw [inSlots_eq_gather] at read
  refine exists_layout_gather (fun index slot there here here_eq => ?_) read
  rw [Nat.zero_add]
  exact exists_layout_slot found there (inner slot (List.mem_of_getElem? there)) here_eq

theorem exists_layout_next {place : Place} {block : Element}
    (found : root.at? place = some block)
    (inner : ∀ child ∈ block.children, ∀ inner ∈ child.children, Arranged root inner)
    {others : List Sketch} (read : next block.children = .ok others) :
    ∃ plans, Layout root (¬InValue root ·) (nextPlaces place block) plans others := by
  rw [next_eq] at read
  unfold nextPlaces
  cases first : first? "next" block.children with
  | none =>
      rw [first?_eq_none first] at read
      cases read
      exact ⟨[], .nil⟩
  | some index =>
      rcases first?_eq_some first with ⟨wrapper, there, named, only⟩
      rw [only, Option.bind_some, firstChain_eq] at read
      simp only [there, Option.bind_some]
      cases filled : first? "block" wrapper.children with
      | none =>
          rw [first?_eq_none filled] at read
          cases read
          exact ⟨[], .nil⟩
      | some number =>
          rcases first?_eq_some filled with ⟨element, at_number, _, only⟩
          rw [only] at read
          have arranged := inner wrapper (List.mem_of_getElem? there) element
            (List.mem_of_getElem? at_number) (place ++ [index, number])
            ((Element.at?_inner found there number).trans at_number)
          refine arranged.2 (fun value => ?_) others read
          have other := (inValue_inner found there number).mp value
          rw [named] at other
          simp at other

theorem arranged (root element : Element) : Arranged root element := by
  -- The blocks in slots and in `next` are two levels below the block itself.
  induction element using Element.inner_induction with
  | step block inner =>
      refine fun place found => ⟨fun value sketch read => ?_, fun other sketches read => ?_⟩
      · rw [single_eq] at read
        rcases node_eq_ok read with ⟨children, slots, read⟩
        rcases exists_layout_slots found inner slots with ⟨plans, inside⟩
        refine ⟨_, Layout.cons_block found read inside (fun after => ?_) .nil⟩
        simp [value]
      · rw [chain_eq] at read
        rcases Answer.bind_eq_ok.mp read with ⟨sketch, first, read⟩
        rcases Answer.bind_eq_ok.mp read with ⟨others, later, same⟩
        cases same
        rcases node_eq_ok first with ⟨children, slots, read⟩
        rcases exists_layout_slots found inner slots with ⟨plans, inside⟩
        rcases exists_layout_next found inner later with ⟨plans', rest⟩
        refine ⟨_, Layout.cons_block found read inside (fun after => ?_) rest⟩
        simp [mem_nextPlaces found, other]

/-- The statements of a document are laid out from the blocks below its root. -/
theorem exists_layout {sketches : List Sketch} (read : statements root = .ok sketches) :
    ∃ plans, Layout root (¬InValue root ·) (topPlaces root) plans sketches := by
  unfold statements at read
  split at read
  · rename_i named
    rw [chains_eq_gather] at read
    refine exists_layout_gather (fun index element there here here_eq => ?_) read
    rw [Nat.zero_add]
    have found : root.at? [index] = some element :=
      (@Element.at?_child root root [] rfl index).trans there
    split at here_eq
    · rename_i block
      rw [if_pos block]
      refine (arranged root element [index] found).2 (fun value => ?_) here here_eq
      have other := (@inValue_child root root [] rfl index).mp value
      rw [named] at other
      simp at other
    · rename_i other
      rw [if_neg other]
      cases here_eq
      exact ⟨[], .nil⟩
  · cases read

end RuleTree.Block
