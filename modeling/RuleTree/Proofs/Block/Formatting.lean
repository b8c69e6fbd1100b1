import RuleTree.Proofs.Block.Parsing
import RuleTree.Proofs.Block.RoundTrip

/-!
# Formatting a document

A document that can be imported into an empty store has a normal form, the document that is built of
what was imported.  Importing the normal form makes the same store again, with all its numbers
(`import_formatted`).

What a document is read as resembles the sketches of figures.  That the import succeeds means that
the figures fit, so that they draw the stored tree, with the numbers of its nodes or without.  The
element of the drawing is the document that is built, and its sketches resemble those that were
stored before.
-/

namespace RuleTree

open Step Records

namespace Block

open Creation Evaluation

variable {functions : Option Library} {names : Names} {records : Records} {floor : Int}

/-! ## What was created fits -/

theorem length_slots {mark : Mark} {operands : Nat}
    (counted : ∀ count, mark.kind.arity = .fixed count → mark.target.length + operands = count) :
    (mark.slots operands).length = operands := by
  cases mark with
  | call title => simp [Mark.slots]
  | binary op =>
      have two := counted 2 rfl
      simp only [Mark.target, List.length_nil, Nat.zero_add] at two
      simp [Mark.slots, length_operandSlots_binary, two]
  | unary op =>
      have one := counted 1 rfl
      simp only [Mark.target, List.length_nil, Nat.zero_add] at one
      simp [Mark.slots, length_operandSlots_unary, one]
  | assignment name =>
      have two := counted 2 rfl
      simp only [Mark.target, List.length_cons, List.length_nil] at two
      simp only [Mark.slots, List.length_cons, List.length_nil]
      omega
  | _ =>
      have none_left := counted 0 rfl
      simp only [Mark.target, List.length_nil, Nat.zero_add] at none_left
      simp [Mark.slots, none_left]

/-- No object is made of a float that is no number. -/
theorem readable_of_described {mark : Mark} {id : Option String} {ref : ContentRef}
    (described : Described functions records (bindData names (Figure.withId id mark.data)) ref) :
    mark.Readable := by
  cases mark with
  | float x =>
      rcases described with ⟨content, kind_eq, described, _⟩
      rw [kindOf_mark] at kind_eq
      have kind : content.kind = .float := (Except.ok.inj kind_eq).symm
      rw [kind, bindData_of_ne (by rw [kind?_mark]; simp [Mark.kind])] at described
      rcases Answer.bind_eq_ok.mp described with ⟨y, read, _⟩
      rw [require_eq_ok, get?_withId (by decide)] at read
      by_contra infinite
      have unread : Json.ofFloat x = .null := by
        simp only [Json.ofFloat]
        exact if_neg infinite
      simp [Mark.data, Sketch.dataOf, Entries.get?_insert, unread, Json.asFloat?] at read
  | _ => trivial

mutual

theorem fits_of_mirrors {isRoot : Bool} : ∀ {figure : Figure} {id : NodeId},
    Mirrors records floor (fun data => Described functions records (bindData names data))
      figure.sketch id →
      check functions isRoot (figure.sketch.mapData (bindData names)) = .ok () → figure.Fits
  | ⟨mark, number, operands⟩, id, ⟨_, ⟨_, _, _, _, described⟩, below⟩, checked => by
      rcases check_eq_ok checked with ⟨checked_node, checked_below⟩
      have kind : Sketch.kind? ⟨bindData names (Figure.withId number mark.data),
          Sketch.mapDataAll (bindData names) (mark.target ++ Figure.sketches operands)⟩ =
            some mark.kind := by rw [kind?_bindData names _ _ [], kind?_mark]
      refine ⟨length_slots fun count fixed => ?_, readable_of_described described, ?_⟩
      · have children :=
          (checkNode_eq_ok checked_node kind).1 count (expectedChildren_fixed fixed _)
        simpa [length_mapDataAll, length_sketches] using children
      · cases mark with
        | assignment name =>
            rcases below with ⟨_, _, _, _, below⟩
            rcases Answer.bind_eq_ok.mp checked_below with ⟨_, _, checked_below⟩
            exact allFit_of_mirrors below checked_below
        | _ => exact allFit_of_mirrors below checked_below

theorem allFit_of_mirrors : ∀ {figures : List Figure} {ids : List NodeId},
    MirrorsAll records floor (fun data => Described functions records (bindData names data))
      (Figure.sketches figures) ids →
      checkAll functions (Sketch.mapDataAll (bindData names) (Figure.sketches figures)) = .ok () →
        Figure.AllFit figures
  | [], _, _, _ => trivial
  | _ :: _, _, ⟨_, _, _, here, mirrors⟩, checked => by
      rcases Answer.bind_eq_ok.mp checked with ⟨_, checked_here, checked_rest⟩
      exact ⟨fits_of_mirrors here checked_here, allFit_of_mirrors mirrors checked_rest⟩

end

theorem allFit_of_created {known : Names} {before : Records} {figures : List Figure} {root : Node}
    {parts : List Sketch} (whole : Created functions known (.block (Figure.sketches figures)) before
      root names parts records) : Figure.AllFit figures := by
  rcases whole.rooted.block rfl with ⟨_, heads, ids, _, _, statements⟩
  exact allFit_of_mirrors statements (check_eq_ok whole.checked).2

/-! ## Drawings with numbers and without -/

section Numbers

variable {ids : Bool}

mutual

/-- A tree that is drawn without numbers or with them is also drawn the other way. -/
theorem draws_numbered (ids' : Bool) : ∀ {figure : Figure} {node : Node},
    Draws records ids figure node →
      ∃ figure', Draws records ids' figure' node ∧ figure'.bare = figure.bare
  | ⟨mark, _, operands⟩, node, ⟨_, marks, others, own, below⟩ => by
      rcases drawsAll_numbered ids' below with ⟨operands', below', same⟩
      refine ⟨⟨mark, if ids' then some node.id.text else none, operands'⟩,
        ⟨rfl, marks, others, own, below'⟩, ?_⟩
      simp only [Figure.bare, same]

theorem drawsAll_numbered (ids' : Bool) : ∀ {figures : List Figure} {nodes : List Node},
    DrawsAll records ids figures nodes →
      ∃ figures', DrawsAll records ids' figures' nodes ∧
        Figure.bareAll figures' = Figure.bareAll figures
  | [], _, empty => ⟨[], empty, rfl⟩
  | _ :: _, _, ⟨node, others, same, here, draws⟩ => by
      rcases draws_numbered ids' here with ⟨figure', here', equal⟩
      rcases drawsAll_numbered ids' draws with ⟨figures', draws', equals⟩
      refine ⟨figure' :: figures', ⟨node, others, same, here', draws'⟩, ?_⟩
      simp only [Figure.bareAll, equal, equals]

end

mutual

theorem fits_of_bare : ∀ {figure : Figure}, figure.bare.Fits → figure.Fits
  | ⟨mark, id, operands⟩, ⟨counted, readable, fit⟩ => by
      rw [length_bareAll] at counted
      exact ⟨counted, readable, allFit_of_bare fit⟩

theorem allFit_of_bare : ∀ {figures : List Figure}, Figure.AllFit (Figure.bareAll figures) →
    Figure.AllFit figures
  | [], _ => trivial
  | _ :: _, ⟨fits, fit⟩ => ⟨fits_of_bare fits, allFit_of_bare fit⟩

end

mutual

/-- The numbers of the nodes make no difference to what is stored. -/
theorem related_bare : ∀ figure : Figure,
    figure.sketch.Related Interchangeable figure.bare.sketch
  | ⟨mark, id, operands⟩ => by
      refine ⟨interchangeable_withId id mark.data, ?_⟩
      cases mark with
      | assignment name => exact ⟨_, _, rfl, ⟨.refl _, rfl⟩, relatedAll_bare operands⟩
      | _ => exact relatedAll_bare operands

theorem relatedAll_bare : ∀ figures : List Figure,
    Sketch.RelatedAll Interchangeable (Figure.sketches figures)
      (Figure.sketches (Figure.bareAll figures))
  | [] => rfl
  | figure :: rest => ⟨_, _, rfl, related_bare figure, relatedAll_bare rest⟩

end

end Numbers

theorem create_related {statements statements' : List Sketch} {version : Option Version}
    (related : Sketch.RelatedAll Interchangeable statements statements') :
    create functions (.block statements) version = create functions (.block statements') version :=
  create_congr ⟨.refl _, related⟩

theorem create_bare (figures : List Figure) (version : Option Version) :
    create functions (.block (Figure.sketches figures)) version =
      create functions (.block (Figure.sketches (Figure.bareAll figures))) version :=
  create_related (relatedAll_bare figures)

/-- What is drawn in one way is also drawn with numbers or without them, and nothing else is created
of the other figures. -/
theorem exists_numbered (ids' : Bool) {ids : Bool} {figures : List Figure} {nodes : List Node}
    (draws : DrawsAll records ids figures nodes) (fit : Figure.AllFit figures) :
    ∃ figures', DrawsAll records ids' figures' nodes ∧ Figure.AllFit figures' ∧
      ∀ version, create functions (.block (Figure.sketches figures')) version =
        create functions (.block (Figure.sketches figures)) version := by
  rcases drawsAll_numbered ids' draws with ⟨figures', draws', same⟩
  refine ⟨figures', draws', allFit_of_bare (same ▸ allFit_bare fit), fun version => ?_⟩
  rw [create_bare, same, ← create_bare]

theorem importDocument_eq_ok {document : String} {version : Option Version} {root : Node}
    {store after : Store} :
    importDocument functions document version store = (.ok root, after) ↔
      ∃ statements, Block.read document = .ok statements ∧
        create functions (.block statements) version store = (.ok root, after) := by
  constructor
  · intro imported
    rcases bind_eq_ok.mp imported with ⟨statements, _, read, _⟩
    have parsed : (Block.read document).mapError Error.structural = .ok statements :=
      (outcome_eq.mp read).1
    have read := Answer.mapError_eq_ok.mp parsed
    exact ⟨statements, read, (importDocument_of_read read).symm.trans imported⟩
  · rintro ⟨statements, read, created⟩
    exact (importDocument_of_read read).trans created

/-- Whatever is imported is a block of figures. -/
theorem created_of_imported {document : String} {version : Option Version} {root : Node}
    {store after : Store} (tidy : Tidy store.records)
    (imported : importDocument functions document version store = (.ok root, after)) :
    ∃ figures known names parts,
      create functions (.block (Figure.sketches figures)) version store = (.ok root, after) ∧
        Created functions known (.block (Figure.sketches figures)) store.records root names parts
          after.records := by
  rcases importDocument_eq_ok.mp imported with ⟨statements, read, created⟩
  rcases figures_of_read read with ⟨figures, related⟩
  rw [create_related related] at created
  have plain : ∀ part ∈ (Sketch.block (Figure.sketches figures)).walk,
      part.get? "object_id" = none :=
    fun part member => (written_block figures part member).no_object
  rcases create_spec tidy plain created with ⟨known, names, parts, _, whole⟩
  exact ⟨figures, known, names, parts, created, whole⟩

end Block

/-- What was imported has a document, with the numbers of the nodes and without.  Importing this
document instead makes the very same store and root, so that it has itself as its document and means
what the first document means. -/
theorem Reachable.import_formatted [Host] {store after : Store} (reachable : Reachable store)
    {functions : Option Library} {document : String} {version : Option Version} {root : Node}
    (imported : Creation.importDocument functions document version store = (.ok root, after))
    (access : Access) (ids : Bool) :
    ∃ text, (Block.build after.records access ids root Reading.start).1 = .ok text ∧
      Creation.importDocument functions text version store = (.ok root, after) ∧
        ∀ root' after',
          Creation.importDocument functions text version store = (.ok root', after') →
            (Block.build after'.records access ids root' Reading.start).1 = .ok text ∧
              ∀ context,
                interpret after'.records root' context = interpret after.records root context := by
  have tidy := Creation.tidy_importDocument reachable.tidy imported
  rcases Block.created_of_imported reachable.tidy imported with
    ⟨figures, known, names, parts, created, whole⟩
  have fit := Block.allFit_of_created whole
  rcases Block.draws_of_created tidy fit whole with ⟨sound, draws⟩
  rcases @Block.exists_numbered functions _ ids _ _ _ draws (Block.allFit_bare fit) with
    ⟨figures', draws', fit', same⟩
  have built := @Block.build_of_draws _ tidy access _ _ _ sound.stored (fun _ => sound) draws' fit'
  have again : Creation.importDocument functions
      (String.ofList (Block.Figure.document figures').write) version store = (.ok root, after) := by
    refine Block.importDocument_eq_ok.mpr ⟨_, Block.read_document fit', ?_⟩
    rw [same, ← Block.create_bare]
    exact created
  refine ⟨_, built, again, fun root' after' imported' => ?_⟩
  rw [again] at imported'
  cases imported'
  exact ⟨built, fun _ => rfl⟩

/-- The document of one assignment is its own normal form. -/
theorem import_formatted_assignment : ∃ document root after,
    Creation.importDocument none document none Store.empty = (.ok root, after) ∧
      ∃ text, (Block.build after.records .cached true root Reading.start).1 = .ok text ∧
        Creation.importDocument none text none Store.empty = (.ok root, after) ∧
          ∀ root' after', Creation.importDocument none text none Store.empty = (.ok root', after') →
            (Block.build after'.records .cached true root' Reading.start).1 = .ok text ∧
              ∀ context,
                interpret after'.records root' context = interpret after.records root context := by
  rcases Block.exists_create_oneFigure with ⟨root, after, created, _⟩
  have imported := Block.importDocument_eq_ok.mpr
    ⟨_, Block.read_document Block.allFit_oneFigure, created⟩
  exact ⟨_, root, after, imported, Reachable.empty.import_formatted imported .cached true⟩

end RuleTree
