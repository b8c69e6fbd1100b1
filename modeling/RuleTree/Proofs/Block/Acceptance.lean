import RuleTree.Proofs.Block.Parsing
import RuleTree.Proofs.Reachable
import Mathlib

/-!
# Which documents can be imported

Reading a document checks its literals as texts, and creating what was read checks them again as
data.  Between the checks a float that is not finite loses its value, so that no object can be made
of it.  Nothing else stands in the way of an import than such floats and wrong counts of children
(`Reachable.import_outcome`).
-/

namespace RuleTree

open Step Records

namespace Sketch

/-- The part has as many children as its kind needs, if that is a certain number. -/
def Counted (part : Sketch) : Prop :=
  ∀ kind expected, part.kind? = some kind → kind.arity = .fixed expected →
    part.children.length = expected

/-- The kind of the part needs a certain number of children, and the part has another number. -/
def Miscounted (part : Sketch) (kind : Kind) (expected : Nat) : Prop :=
  part.kind? = some kind ∧ kind.arity = .fixed expected ∧ part.children.length ≠ expected

/-- The part is a float, but it has no value. -/
def Valueless (part : Sketch) : Prop := part.kind? = some .float ∧ part.get? "value" = some .null

theorem exists_miscounted {part : Sketch} (uncounted : ¬part.Counted) :
    ∃ kind expected, part.Miscounted kind expected := by
  simp only [Counted, not_forall] at uncounted
  rcases uncounted with ⟨kind, expected, known, fixed, other⟩
  exact ⟨kind, expected, known, fixed, other⟩

end Sketch

namespace Creation

variable {functions : Option Library} {store : Store} {cause : CreationError} {data : Fields}

/-! ## Objects that cannot be made -/

/-- The data name no object, and none can be made of them. -/
structure Unready (functions : Option Library) (cause : CreationError) (data : Fields) : Prop where
  no_object : Entries.get? "object_id" data = none
  undescribed : ∃ kind, kindOf data = .ok kind ∧ contentOf functions kind data = .error cause

theorem Unready.not_ready (unready : Unready functions cause data) : ¬Ready functions data := by
  intro ready
  rcases ready.described with ⟨kind, content, kind_eq, described⟩
  rcases unready.undescribed with ⟨kind', kind_eq', undescribed⟩
  rw [kind_eq] at kind_eq'
  cases kind_eq'
  rw [described] at undescribed
  cases undescribed

theorem give_of_error {α : Type} {answer : Except CreationError α}
    (failed : answer = .error cause) :
    give answer store = (.error (.creation cause), store) := by
  rw [failed]
  rfl

theorem ends_createContent (each : Ready functions data ∨ Unready functions cause data) :
    Ends (createContent functions data) (fun _ => Ready functions data) (· = .creation cause) := by
  intro store
  rcases each with ready | unready
  · rcases @exists_createContent functions store data ready with ⟨ref, content, done, _⟩
    exact .inl ⟨_, congrArg Prod.fst done, ready⟩
  · rcases unready.undescribed with ⟨kind, kind_eq, failed⟩
    have given : give (kindOf data) store = (.ok kind, store) := give_eq_ok.mpr ⟨kind_eq, rfl⟩
    refine .inr ⟨_, ?_, rfl⟩
    unfold createContent
    rw [bind_of_ok given]
    simp only [unready.no_object, Option.bind_none]
    rw [bind_of_error (give_of_error failed)]

mutual

/-- The objects of a tree are stored only if one can be made of each part. -/
theorem ends_createContents : ∀ {tree : Sketch},
    (∀ part ∈ tree.walk, Ready functions part.data ∨ Unready functions cause part.data) →
      Ends (createContents functions tree) (fun _ => ∀ part ∈ tree.walk, Ready functions part.data)
        (· = .creation cause)
  | ⟨data, children⟩, each => by
      have own := each _ (List.mem_cons_self ..)
      have kind_eq : ∃ kind, kindOf data = .ok kind := by
        rcases own with ready | unready
        · rcases ready.described with ⟨kind, _, kind_eq, _⟩
          exact ⟨kind, kind_eq⟩
        · rcases unready.undescribed with ⟨kind, kind_eq, _⟩
          exact ⟨kind, kind_eq⟩
      rw [createContents]
      refine (ends_createAllContents fun part member =>
        each part (List.mem_cons_of_mem _ member)).bind fun children' below => ?_
      rw [if_neg (by simp [not_block_of_kindOf kind_eq])]
      refine (ends_createContent own).bind fun result ready => .pure fun part member => ?_
      rcases List.mem_cons.mp member with rfl | later
      · exact ready
      · exact below part later

theorem ends_createAllContents : ∀ {trees : List Sketch},
    (∀ part ∈ Sketch.walkAll trees, Ready functions part.data ∨ Unready functions cause part.data) →
      Ends (createAllContents functions trees)
        (fun _ => ∀ part ∈ Sketch.walkAll trees, Ready functions part.data) (· = .creation cause)
  | [], _ => .pure fun part impossible => by cases impossible
  | tree :: rest, each => by
      rw [createAllContents]
      refine (ends_createContents fun part member =>
        each part (List.mem_append_left _ member)).bind fun tree' here => ?_
      refine (ends_createAllContents fun part member =>
        each part (List.mem_append_right _ member)).bind fun rest' others => .pure ?_
      intro part member
      rcases List.mem_append.mp member with first | later
      · exact here part first
      · exact others part later

end

/-! ## Blocks that cannot be created -/

theorem fst_transaction {α : Type} (step : Action α) :
    (Store.transaction step store).1 = (step store).1 := by
  unfold Store.transaction
  rcases step store with ⟨cause | result, after⟩ <;> rfl

/-- What comes of creating a tree, once its names are defined. -/
theorem fst_create {tree : Sketch} {names : Names} {parts : List Sketch} {first : Store}
    (defined : defineNames .empty (newNames .empty tree) store = (.ok (names, parts), first)) :
    (create functions tree none store).1 =
      ((give (check functions true (tree.mapData (bindData names))) >>= fun _ =>
        createContents functions (tree.mapData (bindData names)) >>=
          createTree functions parts) first).1 := by
  have external : give (externalDefinitions none) store = (.ok [], store) := rfl
  have bound : bindVariables tree [] store =
      (.ok (parts, tree.mapData (bindData names)), first) :=
    bind_eq_ok.mpr ⟨.empty, store, rfl, bind_eq_ok.mpr ⟨_, first, defined, rfl⟩⟩
  unfold create
  rw [bind_of_ok external, fst_transaction, bind_of_ok bound]

theorem create_unchecked {tree : Sketch}
    (failed : ∀ names, check functions true (tree.mapData (bindData names)) = .error cause) :
    (create functions tree none store).1 = .error (.creation cause) := by
  rcases @exists_defineNames store .empty (newNames .empty tree) with
    ⟨names, parts, first, defined, _⟩
  rw [fst_create defined, bind_of_error (give_of_error (failed names))]

/-- A block is not created if no object can be made of one of its parts. -/
theorem create_unready {statements : List Sketch} (tidy : Tidy store.records)
    (checked : ∀ names,
      check functions true ((Sketch.block statements).mapData (bindData names)) = .ok ())
    (each : ∀ names, Bound names (newNames .empty (.block statements)) →
      ∀ part ∈ Sketch.walkAll statements,
        Ready functions (bindData names part.data) ∨
          Unready functions cause (bindData names part.data))
    (some : ∃ part ∈ Sketch.walkAll statements,
      ∀ names, Unready functions cause (bindData names part.data))
    (room : Word.InRange (store.records.lastObject + blockSize statements)) :
    (create functions (.block statements) none store).1 = .error (.creation cause) := by
  rcases exists_bound tidy room with ⟨names, parts, first, defined, _, bound⟩
  have passed : give (check functions true ((Sketch.block statements).mapData (bindData names)))
      first = (.ok (), first) := give_eq_ok.mpr ⟨checked names, rfl⟩
  rw [fst_create defined, bind_of_ok passed]
  have ends := @ends_createAllContents functions cause
    (Sketch.mapDataAll (bindData names) statements) (by
      intro part member
      rw [walkAll_mapDataAll] at member
      rcases List.mem_map.mp member with ⟨own, own_mem, rfl⟩
      rw [data_mapData]
      exact each names bound own own_mem)
  rcases outcome : createAllContents functions (Sketch.mapDataAll (bindData names) statements)
    first with ⟨answer, second⟩
  rcases ends first with ⟨trees, _, ready⟩ | ⟨other, failed, rfl⟩
  · rcases some with ⟨part, member, unready⟩
    refine absurd (ready (part.mapData (bindData names)) ?_) ?_
    · rw [walkAll_mapDataAll]
      exact List.mem_map_of_mem member
    · rw [data_mapData]
      exact (unready names).not_ready
  · rw [outcome] at failed
    cases failed
    exact congrArg Prod.fst (bind_of_error (bind_of_error outcome))

end Creation

namespace Block

open Creation

variable {names : Names} {part : Sketch} {statements : List Sketch}

/-! ## The parts of what was read -/

theorem shown_of_read {document : String} (read : Block.read document = .ok statements) :
    ∀ part ∈ Sketch.walkAll statements, Shown part := by
  intro part member
  rcases figures_of_read read with ⟨figures, related⟩
  rcases related.mem_walkAll member with ⟨part', member', same⟩
  rcases exists_figures part' member' with ⟨figure, rfl, _⟩
  exact ⟨figure, same⟩

namespace Shown

/-- Apart from the children, nothing can be wrong with the node of a part. -/
theorem checkNode_eq (shown : Shown part) : ∃ kind, part.kind? = some kind ∧
    checkNode none false (part.mapData (bindData names)) =
      match kind.arity with
      | .fixed expected =>
          if expected = part.children.length then .ok ()
          else .error (.arity kind expected part.children.length)
      | .declared => .ok () := by
  rcases shown with ⟨⟨mark, id, operands⟩, related⟩
  rcases part with ⟨data, children⟩
  have same := related.mapData fun _ _ same => same.bindData names
  refine ⟨mark.kind, (related.1.kind?_eq _ []).trans (kind?_mark mark id []), ?_⟩
  have checked := @checkNode_sketch names false ⟨mark, id, operands⟩
  rw [show (Sketch.mk data children).children.length = _ from related.2.length_eq]
  exact (checkNode_related same.1 same.2).trans checked

theorem counted_iff (shown : Shown part) :
    checkNode none false (part.mapData (bindData names)) = .ok () ↔ part.Counted := by
  rcases @checkNode_eq names _ shown with ⟨kind, known, checked⟩
  rw [checked]
  constructor
  · intro passed kind' expected known' fixed
    rw [known] at known'
    cases known'
    simp only [fixed] at passed
    split at passed
    · rename_i same
      exact same.symm
    · cases passed
  · intro counted
    split
    · rename_i expected fixed
      rw [if_pos (counted kind expected known fixed).symm]
    · rfl

theorem checkNode_of_miscounted (shown : Shown part) {kind : Kind} {expected : Nat}
    (miscounted : part.Miscounted kind expected) :
    checkNode none false (part.mapData (bindData names)) =
      .error (.arity kind expected part.children.length) := by
  rcases @checkNode_eq names _ shown with ⟨kind', known, checked⟩
  rcases miscounted with ⟨known', fixed, other⟩
  rw [known] at known'
  cases known'
  rw [checked]
  simp only [fixed]
  rw [if_neg (Ne.symm other)]

end Shown

/-! ## The objects of what was read -/

theorem ready_of_interchangeable {data data' : Fields} (same : Interchangeable data data')
    (ready : Ready none data') : Ready none data where
  no_object := (same.entries _ (by decide) (by decide)).trans ready.no_object
  described := by
    rcases ready.described with ⟨kind, content, kind_eq, described⟩
    have kind_eq' := same.kindOf_eq.trans kind_eq
    exact ⟨kind, content, kind_eq', (same.content none kind kind_eq').trans described⟩

/-- Nothing else than a missing value is shown in this way. -/
theorem eq_null_of_compact {json : Json} (text : json.compact = "null")
    (number : json.asFloat? = none) : json = .null := by
  have written : json.writeCompact = ['n', 'u', 'l', 'l'] := by
    rw [← String.toList_ofList (l := json.writeCompact)]
    exact congrArg String.toList text
  cases json with
  | null => rfl
  | bool b => cases b <;> simp [Json.writeCompact, Json.writeLeaf] at written
  | int n => cases number
  | float x => cases number
  | str s => simp [Json.writeCompact, Json.writeLeaf, Json.quoted] at written
  | arr items => simp [Json.writeCompact] at written
  | obj fields => simp [Json.writeCompact] at written

/-- No object can be made of a float without a value. -/
theorem unready_of_valueless (plain : Entries.get? "object_id" part.data = none)
    (valueless : part.Valueless) (names : Names) :
    Unready none (.invalidData .float "value" "null") (bindData names part.data) := by
  rcases part with ⟨data, children⟩
  rcases valueless with ⟨known, null⟩
  have unbound : bindData names data = data := by
    apply bindData_of_ne
    intro use
    have same : Sketch.kind? ⟨data, children⟩ = some .use := use
    rw [known] at same
    cases same
  show Unready none _ (bindData names data)
  rw [unbound]
  have entry : Entries.get? "value" data = some .null := null
  refine ⟨plain, .float, kindOf_eq_ok.mpr known, ?_⟩
  simp only [contentOf, require, entry]
  rfl

/-- A mark that cannot be written is a float without a value. -/
theorem contentOf_unreadable {mark : Mark} (unreadable : ¬mark.Readable) (id : Option String) :
    mark.kind = .float ∧ contentOf none .float (Figure.withId id mark.data) =
      .error (.invalidData .float "value" "null") := by
  cases mark with
  | float x =>
      have infinite : Json.ofFloat x = .null := by
        simp only [Json.ofFloat]
        exact if_neg unreadable
      have entry : Entries.get? "value" (Figure.withId id (Mark.float x).data) = some .null := by
        rw [get?_withId (by decide)]
        simp [Mark.data, Sketch.dataOf, Entries.get?_insert, infinite]
      refine ⟨rfl, ?_⟩
      simp only [contentOf, require, entry]
      rfl
  | _ => exact absurd trivial unreadable

theorem valueless_of_undescribed (known : part.kind? = some .float)
    (undescribed : contentOf none .float part.data =
      .error (.invalidData .float "value" "null")) : part.Valueless := by
  refine ⟨known, ?_⟩
  simp only [contentOf, require] at undescribed
  show Entries.get? "value" part.data = some .null
  cases entry : Entries.get? "value" part.data with
  | none =>
      rw [entry] at undescribed
      cases undescribed
  | some json =>
      rw [entry] at undescribed
      cases number : json.asFloat? with
      | some x =>
          simp only [number] at undescribed
          cases undescribed
      | none =>
          simp only [number] at undescribed
          have text : json.compact = "null" := by
            injection undescribed with cause
            injection cause
          rw [eq_null_of_compact text number]

/-- An object can be made of every other part, once its name is bound. -/
theorem Shown.ready (shown : Shown part) (valued : ¬part.Valueless)
    (bound : ∀ name, usedName? part = some name →
      ∃ definition, names.get? name = some definition ∧ Word.InRange definition.val) :
    Ready none (bindData names part.data) := by
  rcases shown with ⟨⟨mark, id, operands⟩, related⟩
  rcases part with ⟨data, children⟩
  have known := (related.1.kind?_eq children []).trans (kind?_mark mark id [])
  refine ready_of_interchangeable (related.1.bindData names) (ready_mark id ?_ ?_)
  · by_contra unreadable
    rcases contentOf_unreadable unreadable id with ⟨kind, undescribed⟩
    rw [kind] at known
    refine valued (valueless_of_undescribed known ?_)
    exact (related.1.content none .float (kindOf_eq_ok.mpr known)).trans undescribed
  · rintro name rfl
    exact bound name ((related.1.usedName?_eq children []).trans (usedName?_use name id []))

/-! ## Importing -/

theorem checkAll_counted (shown : ∀ part ∈ Sketch.walkAll statements, Shown part)
    (counted : ∀ part ∈ Sketch.walkAll statements, part.Counted) :
    checkAll none (Sketch.mapDataAll (bindData names) statements) = .ok () := by
  rw [checkAll_eq_forM, walkAll_mapDataAll, Answer.forM_eq_ok]
  intro part member
  rcases List.mem_map.mp member with ⟨own, own_mem, rfl⟩
  exact (shown own own_mem).counted_iff.mpr (counted own own_mem)

/-- The first part with a wrong number of children is reported. -/
theorem checkAll_miscounted {earlier later : List Sketch} {kind : Kind} {expected : Nat}
    (shown : ∀ part ∈ Sketch.walkAll statements, Shown part)
    (parts : Sketch.walkAll statements = earlier ++ part :: later)
    (counted : ∀ other ∈ earlier, other.Counted) (miscounted : part.Miscounted kind expected) :
    checkAll none (Sketch.mapDataAll (bindData names) statements) =
      .error (.arity kind expected part.children.length) := by
  rw [checkAll_eq_forM, walkAll_mapDataAll, Answer.forM_eq_error, parts]
  rw [parts] at shown
  refine ⟨_, _, _, List.map_append.trans (congrArg _ List.map_cons), ?_,
    (shown part (by simp)).checkNode_of_miscounted miscounted⟩
  intro other member
  rcases List.mem_map.mp member with ⟨own, own_mem, rfl⟩
  exact (shown own (by simp [own_mem])).counted_iff.mpr (counted own own_mem)

/-- Either all parts have the right number of children, or there is a first one that has not. -/
theorem counted_or_miscounted (parts : List Sketch) :
    (∀ part ∈ parts, part.Counted) ∨ ∃ earlier part later kind expected,
      parts = earlier ++ part :: later ∧ (∀ other ∈ earlier, other.Counted) ∧
        part.Miscounted kind expected := by
  classical
  cases found : parts.find? fun part => ¬part.Counted with
  | none =>
      refine .inl fun part member => ?_
      simpa using List.find?_eq_none.mp found part member
  | some part =>
      rcases List.find?_eq_some_iff_append.mp found with ⟨uncounted, earlier, later, same, counted⟩
      rcases Sketch.exists_miscounted (by simpa using uncounted) with ⟨kind, expected, miscounted⟩
      refine .inr ⟨earlier, part, later, kind, expected, same, fun other member => ?_, miscounted⟩
      simpa using counted other member

section Outcomes

variable {store : Store}

theorem bound_used {part : Sketch} (member : part ∈ Sketch.walkAll statements)
    (bound : Bound names (newNames .empty (.block statements))) :
    ∀ name, usedName? part = some name →
      ∃ definition, names.get? name = some definition ∧ Word.InRange definition.val :=
  fun name used => bound name (mem_newNames member used)

/-- What is complete can be created. -/
theorem create_counted (shown : ∀ part ∈ Sketch.walkAll statements, Shown part)
    (tidy : Tidy store.records)
    (room : Word.InRange (store.records.lastObject + blockSize statements))
    (complete : ∀ part ∈ Sketch.walkAll statements, part.Counted ∧ ¬part.Valueless) :
    ∃ root, (create none (.block statements) none store).1 = .ok root := by
  have checked (names : Names) :=
    @checkAll_counted names _ shown fun part member => (complete part member).1
  rcases exists_create tidy checked (fun names bound part member =>
    (shown part member).ready (complete part member).2 (bound_used member bound)) room with
    ⟨root, after, created⟩
  exact ⟨root, congrArg Prod.fst created⟩

theorem create_miscounted (shown : ∀ part ∈ Sketch.walkAll statements, Shown part)
    {earlier later : List Sketch} {kind : Kind} {expected : Nat}
    (parts : Sketch.walkAll statements = earlier ++ part :: later)
    (counted : ∀ other ∈ earlier, other.Counted) (miscounted : part.Miscounted kind expected) :
    (create none (.block statements) none store).1 =
      .error (.creation (.arity kind expected part.children.length)) :=
  create_unchecked fun _ => checkAll_miscounted shown parts counted miscounted

theorem create_valueless (shown : ∀ part ∈ Sketch.walkAll statements, Shown part)
    (plain : ∀ part ∈ Sketch.walkAll statements, Entries.get? "object_id" part.data = none)
    (tidy : Tidy store.records)
    (room : Word.InRange (store.records.lastObject + blockSize statements))
    (counted : ∀ part ∈ Sketch.walkAll statements, part.Counted)
    (valueless : ∃ part ∈ Sketch.walkAll statements, part.Valueless) :
    (create none (.block statements) none store).1 =
      .error (.creation (.invalidData .float "value" "null")) := by
  have checked (names : Names) := @checkAll_counted names _ shown counted
  refine create_unready tidy checked (fun names bound part member => ?_) ?_ room
  · by_cases missing : part.Valueless
    · exact .inr (unready_of_valueless (plain part member) missing names)
    · exact .inl ((shown part member).ready missing (bound_used member bound))
  · rcases valueless with ⟨part, member, missing⟩
    exact ⟨part, member, unready_of_valueless (plain part member) missing⟩

/-- What comes of creating what was read: the first wrong number of children decides, and after that
a float without a value. -/
inductive Verdict (statements : List Sketch) : Except Error Node → Prop where
  | complete {root : Node} :
      (∀ part ∈ Sketch.walkAll statements, part.Counted ∧ ¬part.Valueless) →
        Verdict statements (.ok root)
  | miscounted {earlier later : List Sketch} {part : Sketch} {kind : Kind} {expected : Nat} :
      Sketch.walkAll statements = earlier ++ part :: later → (∀ other ∈ earlier, other.Counted) →
        part.Miscounted kind expected →
          Verdict statements (.error (.creation (.arity kind expected part.children.length)))
  | valueless : (∀ part ∈ Sketch.walkAll statements, part.Counted) →
      (∃ part ∈ Sketch.walkAll statements, part.Valueless) →
        Verdict statements (.error (.creation (.invalidData .float "value" "null")))

theorem verdict_create (shown : ∀ part ∈ Sketch.walkAll statements, Shown part)
    (plain : ∀ part ∈ Sketch.walkAll statements, Entries.get? "object_id" part.data = none)
    (tidy : Tidy store.records)
    (room : Word.InRange (store.records.lastObject + blockSize statements)) :
    Verdict statements (create none (.block statements) none store).1 := by
  rcases counted_or_miscounted (Sketch.walkAll statements) with
    counted | ⟨earlier, part, later, kind, expected, parts, counted, miscounted⟩
  · by_cases missing : ∃ part ∈ Sketch.walkAll statements, part.Valueless
    · rw [create_valueless shown plain tidy room counted missing]
      exact .valueless counted missing
    · have complete : ∀ part ∈ Sketch.walkAll statements, part.Counted ∧ ¬part.Valueless :=
        fun part member => ⟨counted part member, fun valueless => missing ⟨part, member, valueless⟩⟩
      rcases create_counted shown tidy room complete with ⟨root, created⟩
      rw [created]
      exact .complete complete
  · rw [create_miscounted shown parts counted miscounted]
    exact .miscounted parts counted miscounted

end Outcomes

end Block

open Creation

/-- Without a library and a version, a document that was read can be imported exactly if each part
has as many children as its kind needs and no float is without a value.  The first part with a wrong
number of children is reported, and if there is none, a float without a value. -/
theorem Reachable.import_outcome {store : Store} (reachable : Reachable store) {document : String}
    {statements : List Sketch} (read : Block.read document = .ok statements)
    (room : Word.InRange (store.records.lastObject + blockSize statements)) :
    ((∃ root, (Creation.importDocument none document none store).1 = .ok root) ↔
      ∀ part ∈ Sketch.walkAll statements, part.Counted ∧ ¬part.Valueless) ∧
    (∀ kind expected got, (Creation.importDocument none document none store).1 =
        .error (.creation (.arity kind expected got)) ↔
      ∃ earlier part later, Sketch.walkAll statements = earlier ++ part :: later ∧
        (∀ other ∈ earlier, other.Counted) ∧ part.Miscounted kind expected ∧
          part.children.length = got) ∧
    ((Creation.importDocument none document none store).1 =
        .error (.creation (.invalidData .float "value" "null")) ↔
      (∀ part ∈ Sketch.walkAll statements, part.Counted) ∧
        ∃ part ∈ Sketch.walkAll statements, part.Valueless) := by
  have tidy := reachable.tidy
  have shown := Block.shown_of_read read
  have plain (part : Sketch) (member : part ∈ Sketch.walkAll statements) :=
    (Block.written_of_read read part (List.mem_cons_of_mem _ member)).no_object
  have verdict := Block.verdict_create shown plain tidy room
  rw [Block.importDocument_of_read read]
  refine ⟨⟨?_, Block.create_counted shown tidy room⟩, fun kind expected got => ⟨?_, ?_⟩, ?_, ?_⟩
  · rintro ⟨root, created⟩
    rw [created] at verdict
    cases verdict with
    | complete complete => exact complete
  · intro failed
    rw [failed] at verdict
    cases verdict with
    | miscounted parts counted miscounted => exact ⟨_, _, _, parts, counted, miscounted, rfl⟩
  · rintro ⟨earlier, part, later, parts, counted, miscounted, rfl⟩
    exact Block.create_miscounted shown parts counted miscounted
  · intro failed
    rw [failed] at verdict
    cases verdict with
    | valueless counted missing => exact ⟨counted, missing⟩
  · rintro ⟨counted, missing⟩
    exact Block.create_valueless shown plain tidy room counted missing

/-- The block of a number that no float is large enough for. -/
def Block.tooLarge : String :=
  "<block type=\"math_number\"><field name=\"NUM\">1e999</field></block>"

/-- What the block is read as. -/
def Block.noNumber : Sketch := ⟨Sketch.dataOf .float [("value", .null)], []⟩

/-- If a negation without an operand comes after the number, the negation is reported. -/
theorem import_outcome_count_first :
    (Creation.importDocument none ("<xml>" ++ Block.tooLarge ++
        "<block type=\"logic_negate\"></block></xml>") none Store.empty).1 =
      .error (.creation (.arity .unary 1 0)) := by
  let negation : Sketch := ⟨Sketch.dataOf .unary [("operator", .str "not")], []⟩
  have read : Block.read ("<xml>" ++ Block.tooLarge ++
      "<block type=\"logic_negate\"></block></xml>") = .ok [Block.noNumber, negation] := by
    cbv
  have room : Word.InRange (Store.empty.records.lastObject +
      blockSize [Block.noNumber, negation]) := by decide
  have float : Block.noNumber.kind? = some .float := by decide
  refine ((Reachable.empty.import_outcome read room).2.1 _ _ _).mpr
    ⟨[Block.noNumber], negation, [], rfl, ?_, ⟨by decide, rfl, by decide⟩, rfl⟩
  intro part member kind expected known fixed
  rcases List.mem_singleton.mp member with rfl
  rw [float] at known
  cases known
  cases fixed
  rfl

/-- A document with just the number. -/
def Block.tooLargeDocument : String := "<xml>" ++ tooLarge ++ "</xml>"

/-- A document can be read and yet not be imported for another cause than a wrong number of
children. -/
theorem read_without_import :
    Block.read Block.tooLargeDocument = .ok [Block.noNumber] ∧
      (∀ root,
        (Creation.importDocument none Block.tooLargeDocument none Store.empty).1 ≠ .ok root) ∧
      ∀ kind expected got,
        (Creation.importDocument none Block.tooLargeDocument none Store.empty).1 ≠
          .error (.creation (.arity kind expected got)) := by
  have read : Block.read Block.tooLargeDocument = .ok [Block.noNumber] := by cbv
  have outcome : (Creation.importDocument none Block.tooLargeDocument none Store.empty).1 =
      .error (.creation (.invalidData .float "value" "null")) := by
    cbv
  refine ⟨read, ?_, ?_⟩
  · rw [outcome]
    intro root impossible
    cases impossible
  · rw [outcome]
    intro kind expected got impossible
    cases impossible

end RuleTree
