import RuleTree.Proofs.Block.Formatting
import RuleTree.Proofs.Block.Standing

/-!
# Importing the document of a block preserves its meaning

A block and the import of its document stand for the same statements, each with definitions of its
own.  From this they have the same results and give the same values to variables of the same name
(`Reachable.reimport_preserves_meaning`).
-/

namespace RuleTree

open Step Records Creation Evaluation

/-- Two blocks mean the same to a library.  Without any bindings they fail with the same error, or
their values agree apart from the nulls of definitions.  In either case their variables have the
same names and afterwards the same values. -/
structure SameMeaning [Host] (library : Library) (records : Records) (root : Node)
    (records' : Records) (root' : Node) : Prop where
  results : ∀ cache cache', Answer.Alike
    (fun value value' => ∃ values values' stated, value = .list values ∧ value' = .list values' ∧
      Padded records (records.orderedChildren root.id) values stated ∧
        Padded records' (records'.orderedChildren root'.id) values' stated)
    (interpret records root ⟨.empty, cache, library⟩).1
    (interpret records' root' ⟨.empty, cache', library⟩).1
  names : ∀ name, (∃ definition, Uses records root.id name definition) ↔
    ∃ definition, Uses records' root'.id name definition
  bindings : ∀ cache cache' name definition definition', Uses records root.id name definition →
    Uses records' root'.id name definition' →
      (interpret records root ⟨.empty, cache, library⟩).2.1.bindings.get? definition =
        (interpret records' root' ⟨.empty, cache', library⟩).2.1.bindings.get? definition'

section Stands

variable [Host] {library : Library} {records records' : Records} {floor floor' : Int}
  {names names' : Names} {statements : List Sketch} {root root' : Node}

/-- Interpreting a block that stands for statements does what evaluating the statements does. -/
theorem Evaluation.Stands.interpret (stands : Stands records floor names statements root)
    (tidy : Tidy records) (detached : library.Detached)
    (checked : checkAll none (Sketch.mapDataAll (bindData names) statements) = .ok ())
    (cache : Bool) :
    (∀ name definition, names.get? name = some definition →
      (RuleTree.interpret records root ⟨.empty, cache, library⟩).2.1.bindings.get? definition =
        (Sketch.evaluateAll library statements .empty).2.get? name) ∧
      Answer.Alike (fun value stated => ∃ values, value = .list values ∧
          Padded records (records.orderedChildren root.id) values stated)
        (RuleTree.interpret records root ⟨.empty, cache, library⟩).1
        (Sketch.evaluateAll library statements .empty).1 := by
  rcases interpret_direct tidy stands.sound ⟨.empty, cache, library⟩ with ⟨results, context⟩
  have start : Corresponds library names ⟨Reading.start, ⟨.empty, cache, library⟩⟩ .empty :=
    corresponds_empty _ rfl rfl
  rcases stands.run tidy.linked detached checked _ _ start with ⟨corresponds, alike⟩
  rw [results, context]
  exact ⟨fun name definition known => corresponds.get?_eq stands.named.injective known, alike⟩

/-- Blocks that stand for the same statements mean the same. -/
theorem sameMeaning_of_stands (tidy : Tidy records) (tidy' : Tidy records')
    (detached : library.Detached)
    (checked : ∀ names : Names,
      checkAll none (Sketch.mapDataAll (bindData names) statements) = .ok ())
    (stands : Stands records floor names statements root)
    (stands' : Stands records' floor' names' statements root') :
    SameMeaning library records root records' root' where
  results cache cache' := by
    have left := (stands.interpret tidy detached (checked names) cache).2
    have right := (stands'.interpret tidy' detached (checked names') cache').2
    refine (left.join right).imp ?_
    rintro value value' ⟨stated, ⟨values, rfl, padded⟩, values', rfl, padded'⟩
    exact ⟨values, values', stated, rfl, rfl, padded, padded'⟩
  names name := by
    constructor
    · rintro ⟨definition, uses⟩
      rcases (stands.part_of_use uses).2 with ⟨part, member, used⟩
      exact stands'.use_of_part member used
    · rintro ⟨definition, uses⟩
      rcases (stands'.part_of_use uses).2 with ⟨part, member, used⟩
      exact stands.use_of_part member used
  bindings cache cache' name definition definition' uses uses' := by
    have left := (stands.interpret tidy detached (checked names) cache).1
    have right := (stands'.interpret tidy' detached (checked names') cache').1
    rw [left name definition (stands.part_of_use uses).1,
      right name definition' (stands'.part_of_use uses').1]

end Stands

/-- A regular block whose definitions in use have names of their own means the same as the import of
its document.  If the document is imported into the store of the block, this still holds in the
store after the import.  That each assignment has a variable as its first child need not be asked
for, because the block has a document. -/
theorem Reachable.reimport_preserves_meaning [Host] {source target after : Store}
    (reachable : Reachable source) (into : Reachable target) {root copy : Node}
    (stored : source.records.nodes.get? root.id = some root) (bare : root.content = none)
    (regular : source.records.Regular root.id)
    (distinct : ∀ name definition definition', Uses source.records root.id name definition →
      Uses source.records root.id name definition' → definition = definition')
    {ids : Bool} {text : String}
    (built : (Block.build source.records .cached ids root Reading.start).1 = .ok text)
    {functions : Option Library} {version : Option Version}
    (imported : Creation.importDocument functions text version target = (.ok copy, after))
    {library : Library} (detached : library.Detached) :
    SameMeaning library source.records root after.records copy ∧
      (target = source → SameMeaning library after.records root after.records copy) := by
  have tidy := reachable.tidy
  have tidy_after := tidy_importDocument into.tidy imported
  have sound := Block.sound_of_cached tidy stored built rfl
  rcases Block.figures_of_build tidy stored built with ⟨figures, draws, fit, rfl⟩
  have block : root.isBlock = true := by simp [Node.isBlock, bare]
  rw [Block.written, if_pos block] at draws
  rcases Block.stands_of_draws tidy.linked bare sound regular distinct draws with ⟨names, stands⟩
  rcases Block.importDocument_eq_ok.mp imported with ⟨statements, read, created⟩
  rw [Block.read_document fit] at read
  cases read
  have written := Block.written_block figures
  rcases create_spec into.tidy (fun part member => (written part member).no_object) created with
    ⟨known, names', parts, _, whole⟩
  have stands' := stands_of_created written whole rfl
  have checked (names : Names) := @Block.check_sketches names figures fit
  refine ⟨sameMeaning_of_stands tidy tidy_after detached checked stands stands', ?_⟩
  rintro rfl
  exact sameMeaning_of_stands tidy_after tidy_after detached checked
    (stands.grown tidy whole.grown) stands'

/-- A block with one assignment, imported again into an empty store. -/
theorem reimport_preserves_meaning_assignment : ∃ source root text copy after, Reachable source ∧
    source.records.nodes.get? root.id = some root ∧ source.records.Regular root.id ∧
      (Block.build source.records .cached false root Reading.start).1 = .ok text ∧
        Creation.importDocument none text none Store.empty = (.ok copy, after) ∧
          SameMeaning Builtin.library source.records root after.records copy := by
  have fit := Block.allFit_oneFigure
  rcases Block.exists_create_oneFigure with ⟨root, source, created, reachable, sound, draws⟩
  have tidy := reachable.tidy
  have written := Block.written_block [Block.oneFigure]
  rcases create_spec tidy_empty (fun part member => (written part member).no_object) created with
    ⟨known, names, parts, _, whole⟩
  have stands := stands_of_created written whole rfl
  have regular := Block.regular_of_created tidy.linked written whole rfl
  have distinct : ∀ name definition definition', Uses source.records root.id name definition →
      Uses source.records root.id name definition' → definition = definition' := by
    intro name definition definition' uses uses'
    have same := (stands.part_of_use uses).1.symm.trans (stands.part_of_use uses').1
    exact Option.some.inj same
  have built := @Block.build_of_draws _ tidy .cached _ _ _ sound.stored (fun _ => sound) draws fit
  have imported := Block.importDocument_eq_ok.mpr ⟨_, Block.read_document fit, created⟩
  exact ⟨source, root, _, root, source, reachable, sound.stored, regular, built, imported,
    (reachable.reimport_preserves_meaning .empty sound.stored stands.bare regular distinct built
      imported Builtin.detached_library).1⟩

end RuleTree
