import RuleTree.Proofs.Block.Formatting
import RuleTree.Proofs.Evaluation.Renaming
import RuleTree.Proofs.Program.Variables

/-!
# Executing a program

A program is executed by binding its arguments and interpreting its tree.  If the tree was imported
with the variables of the interface at hand, this is the evaluation of the statements of the
document by names, from the environment that the arguments supply (`Reachable.execute_imported`):
the names of the interface are bound to its definitions, all other names to new ones.
-/

namespace RuleTree

open Step Records Creation Evaluation

/-! ## Names -/

theorem Creation.mem_newNames_iff {known : Names} {tree : Sketch} {name : String} :
    name ∈ newNames known tree ↔ name ∈ tree.variableNames ∧ known.get? name = none := by
  have used : usedName? = Sketch.used? := funext usedName?_eq
  simp [newNames, Sketch.variableNames, List.mem_eraseDups, used, Table.contains]

namespace Interface

variable {interface : Interface}

/-- The names in a tree that are not those of the interface. -/
def localNames (interface : Interface) (tree : Sketch) : List String :=
  tree.variableNames.filter (· ∉ interface.variableNames)

/-- The statements are evaluated by names; a null for each local name comes before their values. -/
def run [Host] (interface : Interface) (library : Library) (statements : List Sketch) :
    Sketch.NamedM Value := do
  let values ← Sketch.evaluateAll library statements
  pure (.list (List.replicate (interface.localNames (.block statements)).length .null ++ values))

/-- How the names in a tree are bound.  A name of the interface has the definition that was declared
for it, any other name has a new definition, and the variables in the tree name these. -/
structure Resolves (interface : Interface) (definitions : List ContentRef) (tree : Sketch)
    (before after : Records) (root : NodeId) (names : Names) : Prop where
  declared : List.Forall₂ (fun name ref => names.get? name = some ref.id) interface.variableNames
    definitions
  local_names : ∀ name ∈ interface.localNames tree, ∃ id, names.get? name = some id ∧
    before.lastObject < id.val ∧
      after.objects.get? ⟨.definition, id⟩ = some (.definition name none)
  named : ∀ definition, after.Names root definition →
    ∃ name ∈ tree.variableNames, names.get? name = some definition

/-- Only local names get new definitions. -/
theorem perm_localNames {known : Names} (tree : Sketch) (names_known : ∀ name,
      (∃ id, known.get? name = some id) ↔ name ∈ interface.variableNames) :
    (newNames known tree).Perm (interface.localNames tree) := by
  have distinct : (newNames known tree).Nodup := nodup_eraseDups _
  have distinct' : tree.variableNames.Nodup := nodup_eraseDups _
  refine (List.perm_ext_iff_of_nodup distinct (distinct'.filter _)).mpr fun name => ?_
  rw [mem_newNames_iff, List.mem_filter]
  simp [← names_known, Option.eq_none_iff_forall_ne_some]

end Interface

namespace Version

variable {version : Version} {interface : Interface} {records : Records} {names : Names}
  {entries : List (String × Source)} {refs : List ContentRef} {library : Library}

/-- The version with a tree. -/
def startingAt (version : Version) (root : NodeId) : Version :=
  { version with entryPoint := some root }

/-- An execution has the value or the error of an evaluation by names, and exactly the definitions
of names are bound, to the values of their names. -/
def Agrees (names : Names) (executed : Except Error Value × Context × Nat)
    (direct : Except Error Value × Environment) : Prop :=
  executed.1 = direct.1 ∧ ∀ definition value,
    executed.2.1.bindings.get? definition = some value ↔
      ∃ name, names.get? name = some definition ∧ direct.2.get? name = some value

/-- The version is one for the interface, and the definitions of its variables are stored. -/
structure Declared (version : Version) (interface : Interface) (records : Records) : Prop where
  own : version.interface = interface
  definitions : List.Forall₂ records.Declares interface.declarations version.definitions

theorem Declared.isBound (declared : version.Declared interface records) :
    version.isBound = true := by
  have length := declared.definitions.length_eq
  simp [Version.isBound, declared.own, Interface.variableNames, length]

/-! ## Binding arguments -/

/-- Binding the definitions of variables gives the names of the variables their values. -/
theorem bindDefinitions_corresponds {arguments : Fields} (injective : Injective names)
    (declared : List.Forall₂ records.Declares entries refs)
    (known : List.Forall₂ (fun entry ref => names.get? entry.1 = some ref.id) entries refs)
    {run : Run} {environment : Environment}
    (corresponds : Corresponds library names run environment) :
    ∃ after, bindDefinitions records interface arguments refs run = (.ok (), after) ∧
      Corresponds library names after (interface.supply arguments entries environment) := by
  induction declared generalizing run environment with
  | nil => exact ⟨run, rfl, corresponds⟩
  | @cons entry ref rest refs here _ ih =>
      rcases known with _ | ⟨named, known⟩
      rcases entry with ⟨name, source⟩
      have fetched : Reading.fetch (records.object ref) run.reading =
          (.ok (.definition name (some source)),
            { run.reading with fetches := run.reading.fetches + 1 }) :=
        Reading.fetch_eq_ok.mpr ⟨object_eq_ok.mpr here.2, rfl⟩
      have loaded : Evaluation.read (Reading.fetch (records.object ref)) run =
          (.ok (.definition name (some source)), { run with
            reading := { run.reading with fetches := run.reading.fetches + 1 } }) := by
        unfold Evaluation.read
        rw [fetched]
      have corresponds' : Corresponds library names { run with
          reading := { run.reading with fetches := run.reading.fetches + 1 } } environment :=
        ⟨corresponds.library, corresponds.values⟩
      rw [bindDefinitions, bind_of_ok loaded, Interface.supply]
      simp only
      cases resolve interface source arguments with
      | none => exact ih known corresponds'
      | some value => exact ih known (corresponds'.insert injective named value)

theorem Declared.bindArguments (declared : version.Declared interface records)
    (injective : Injective names)
    (known : List.Forall₂ (fun entry ref => names.get? entry.1 = some ref.id)
      interface.declarations version.definitions) (arguments : Fields) (reading : Reading)
    {context : Context} (fresh : context.bindings = .empty) :
    ∃ after, version.bindArguments records arguments ⟨reading, context⟩ = (.ok (), after) ∧
      Corresponds context.library names after (interface.environment arguments) := by
  rw [Version.bindArguments, if_pos declared.isBound, declared.own]
  exact bindDefinitions_corresponds injective declared.definitions known
    (corresponds_empty reading rfl fresh)

/-- With the arguments bound, a program is executed by interpreting its tree. -/
theorem execute_eq [Host] {root : Node} {arguments : Fields} {context : Context} {run : Run}
    (entry : version.entryPoint = some root.id) (stored : records.nodes.get? root.id = some root)
    (bound : version.bindArguments records arguments ⟨Reading.start, context⟩ = (.ok (), run)) :
    (version.execute records arguments context).1 = (interpret records root run.context).1 ∧
      (version.execute records arguments context).2.1 =
        (interpret records root run.context).2.1 := by
  have fetched : Evaluation.read (Reading.fetch (records.node root.id)) run = (.ok root, { run with
      reading := { run.reading with fetches := run.reading.fetches + 1 } }) := by
    simp only [Evaluation.read, Reading.fetch, Records.node, stored]
    rfl
  have loaded : (do
      version.bindArguments records arguments
      Evaluation.read (Reading.fetch (records.node root.id)) : EvalM Node)
        ⟨Reading.start, context⟩ = (.ok root, { run with
          reading := { run.reading with fetches := run.reading.fetches + 1 } }) :=
    (bind_of_ok bound).trans fetched
  simp only [execute, entry, runIn, loaded, and_self]

/-! ## Imported programs -/

section Imported

variable {functions : Option Library} {known : Names} {store first : Store} {records : Records}
  {statements : List Sketch} {root : Node} {parts : List Sketch}

/-- The names of declared definitions are those of the interface. -/
theorem Declared.known_names (declared : version.Declared interface store.records)
    (distinct : interface.variableNames.Nodup)
    (listed : externalNames .empty version.definitions store = (.ok known, first)) :
    List.Forall₂ (fun entry ref => known.get? entry.1 = some ref.id) interface.declarations
        version.definitions ∧
      ∀ name, (∃ id, known.get? name = some id) ↔ name ∈ interface.variableNames := by
  rcases externalNames_spec listed rfl declared.definitions distinct with ⟨found, others⟩
  refine ⟨found, fun name => ⟨?_, ?_⟩⟩
  · rintro ⟨id, named⟩
    by_contra absent
    rw [others name absent] at named
    cases named
  · intro member
    rcases List.mem_map.mp member with ⟨entry, entry_mem, rfl⟩
    rcases exists_of_forall₂ found entry_mem with ⟨ref, _, named⟩
    exact ⟨ref.id, named⟩

/-- They keep their definitions when a tree is created. -/
theorem Declared.names_eq (declared : version.Declared interface store.records)
    (distinct : interface.variableNames.Nodup)
    (listed : externalNames .empty version.definitions store = (.ok known, first))
    (created : Created functions known (.block statements) store.records root names parts records) :
    List.Forall₂ (fun entry ref => names.get? entry.1 = some ref.id) interface.declarations
      version.definitions := by
  apply (declared.known_names distinct listed).1.imp
  intro entry ref found
  rw [created.defines.others entry.1, found]
  intro fresh
  rw [(mem_newNames_iff.mp fresh).2] at found
  cases found

theorem Declared.resolves (declared : version.Declared interface store.records)
    (distinct : interface.variableNames.Nodup)
    (listed : externalNames .empty version.definitions store = (.ok known, first))
    (written : ∀ part ∈ (Sketch.block statements).walk, Written part.data)
    (created : Created functions known (.block statements) store.records root names parts records) :
    interface.Resolves version.definitions (.block statements) store.records records root.id
      names where
  declared := by
    rw [Interface.variableNames, List.forall₂_map_left_iff]
    exact declared.names_eq distinct listed created
  local_names name member := by
    have names_known := (declared.known_names distinct listed).2
    have locals := Interface.perm_localNames (.block statements) names_known
    exact created.defines.own name (locals.mem_iff.mpr member)
  named definition named := by
    rcases named with ⟨use, ⟨id, node, within, found, wraps⟩, stored⟩
    have stands := stands_of_created written created rfl
    rcases stands.below within found wraps with ⟨_, _, defines⟩ | ⟨part, member, meant⟩
    · rw [stored] at defines
      cases defines
    · rcases meant with ⟨content, label, stored', label_eq, means, _⟩
      rw [stored] at stored'
      cases stored'
      cases means with
      | literal constant => cases constant
      | @use name _ bound =>
          have used : part.used? = some name := by simp only [Sketch.used?, label_eq]
          have walked : part ∈ (Sketch.block statements).walk := List.mem_cons_of_mem _ member
          exact ⟨name, List.mem_eraseDups.mpr (List.mem_filterMap.mpr ⟨part, walked, used⟩), bound⟩

/-- Executing an imported program evaluates the statements of its document by names. -/
theorem Declared.execute [Host] {document : String} {after : Store} (tidy : Tidy store.records)
    (declared : version.Declared interface store.records)
    (distinct : interface.variableNames.Nodup)
    (imported : importDocument functions document (some version) store = (.ok root, after)) :
    ∃ statements names, Block.read document = .ok statements ∧
      interface.Resolves version.definitions (.block statements) store.records after.records root.id
        names ∧
      ∀ arguments context, context.bindings = .empty → context.library.Detached →
        Agrees names ((version.startingAt root.id).execute after.records arguments context)
          (interface.run context.library statements (interface.environment arguments)) := by
  have tidy_after := tidy_importDocument tidy imported
  rcases Block.importDocument_eq_ok.mp imported with ⟨statements, read, done⟩
  have written := Block.written_of_read read
  rcases create_external tidy (fun part member => (written part member).no_object) done with
    ⟨external, known, names, parts, external_eq, ⟨first, listed⟩, created⟩
  simp only [externalDefinitions, declared.isBound, if_true] at external_eq
  cases external_eq
  refine ⟨statements, names, read, declared.resolves distinct listed written created, ?_⟩
  intro arguments context fresh detached
  have stands := stands_of_created written created rfl
  have still : (version.startingAt root.id).Declared interface after.records := by
    refine ⟨declared.own, declared.definitions.imp ?_⟩
    rintro entry ref ⟨kind, stored⟩
    exact ⟨kind, created.grown.objects stored⟩
  have bound := still.bindArguments stands.named.injective
    (declared.names_eq distinct listed created) arguments Reading.start fresh
  rcases bound with ⟨run, bound, corresponds⟩
  rcases execute_eq rfl stands.stored bound with ⟨value, left⟩
  rcases interpret_direct tidy_after stands.sound run.context with ⟨direct_value, direct_left⟩
  have start : Corresponds context.library names ⟨Reading.start, run.context⟩
      (interface.environment arguments) := ⟨corresponds.library, corresponds.values⟩
  have count := (Interface.perm_localNames (.block statements)
    (declared.known_names distinct listed).2).length_eq
  rcases alike_block tidy_after.linked detached written created rfl _ _ start with
    ⟨corresponds', results⟩
  rw [count] at corresponds' results
  unfold Agrees
  rw [value, left, direct_value, direct_left, corresponds.library]
  exact ⟨results.eq fun _ _ same => same, corresponds'.values⟩

end Imported

end Version

/-- A version can be created for every interface.  Let the names of the variables be distinct, and
let a document be imported with the version into a store in which its definitions are still there.
Executing the version with the imported tree, from no bindings and for any arguments, evaluates the
statements of the document by names: from the environment that the arguments supply it gives a null
for each local name and the values of the statements, or it fails with the same error.  Names of the
interface stand for its definitions, others for new ones, and these are bound accordingly in the
end. -/
theorem Reachable.execute_imported [Host] {store : Store} (reachable : Reachable store)
    {interface : Interface} (distinct : interface.variableNames.Nodup) (id : Int) :
    ∃ version created, Version.create id interface store = (.ok version, created) ∧
      Reachable created ∧ version.Declared interface created.records ∧
        ∀ target, Reachable target → version.Declared interface target.records →
          ∀ functions document root after,
            Creation.importDocument functions document (some version) target = (.ok root, after) →
              ∃ statements names, Block.read document = .ok statements ∧
                interface.Resolves version.definitions (.block statements) target.records
                  after.records root.id names ∧
                ∀ (arguments : Fields) (context : Context), context.bindings = .empty →
                  context.library.Detached →
                  ∃ environment, interface.Supplies arguments environment ∧
                    Version.Agrees names
                      ((version.startingAt root.id).execute after.records arguments context)
                      (interface.run context.library statements environment) := by
  rcases interface.exists_declareVariables store with ⟨refs, created, done⟩
  have declared := (Interface.builds_declareVariables reachable.tidy.linked done).2
  have reached := Reachable.declareVariables interface reachable
  rw [done] at reached
  refine ⟨⟨id, interface, refs, none⟩, created, ?_, reached, ⟨rfl, declared⟩, ?_⟩
  · rw [Version.create, bind_of_ok done]
    rfl
  intro target into declared functions document root after imported
  rcases declared.execute into.tidy distinct imported with
    ⟨statements, names, read, resolves, agrees⟩
  refine ⟨statements, names, read, resolves, fun arguments context fresh detached => ?_⟩
  exact ⟨_, interface.supplies_environment distinct arguments,
    agrees arguments context fresh detached⟩

/-- An interface with one argument that has one field. -/
def oneField : Interface := ⟨"one", [⟨"a", "m", none, [⟨"n", .number, none, none⟩]⟩]⟩

/-- The version that is created for it in an empty store. -/
def oneFieldVersion : Version :=
  ⟨1, oneField, [⟨.definition, ⟨1⟩⟩, ⟨.definition, ⟨2⟩⟩], none⟩

/-- The store with the definitions of the version. -/
def oneFieldStore : Store where
  records := ⟨0, 2, .empty, .empty,
    (Table.empty.insert ⟨.definition, ⟨1⟩⟩ (.definition "a" (some (.argument "a")))).insert
      ⟨.definition, ⟨2⟩⟩ (.definition "a.n" (some (.field "a" "n")))⟩
  fetches := 0
  refused := []

/-- An assignment of the field to another variable, and this variable. -/
def fieldFigures : List Block.Figure :=
  [⟨.assignment "y", none, [⟨.use "a.n", none, []⟩]⟩, ⟨.use "y", none, []⟩]

/-- An argument with the number 7 in the field and no number of its own. -/
def fieldArguments : Fields := [("a", .obj [("n", .int 7)])]

/-- The arguments give 7 to the field and nothing to the argument itself. -/
theorem Interface.Supplies.of_fieldArguments {environment : Environment}
    (supplies : oneField.Supplies fieldArguments environment) :
    environment.get? "a" = none ∧ environment.get? "a.n" = some (.int 7) := by
  constructor
  · refine Option.eq_none_iff_forall_ne_some.mpr fun value known => ?_
    rcases (supplies.argument _ List.mem_cons_self value).mp known with ⟨_, ⟨⟩, denotes⟩
    cases denotes with
    | reference found => cases found
    | plain other => exact other _ rfl
  · refine (supplies.field _ List.mem_cons_self _ List.mem_cons_self (.int 7)).mpr ?_
    exact ⟨_, _, _, rfl, .last (by decide), .into rfl (.here _),
      .plain (by decide) nofun (.int 7)⟩

/-- Wherever the field is 7, so is the other variable after the assignment. -/
theorem run_fieldFigures {environment : Environment}
    (seven : environment.get? "a.n" = some (.int 7)) :
    (oneField.run Builtin.library (Block.Figure.sketches fieldFigures) environment).1 =
      .ok (.list [.null, .null, .int 7]) := by
  have found : Sketch.lookup "a.n" environment = (.ok (.int 7), environment) := by
    simp only [Sketch.lookup, seven]
  have assigned : Sketch.evaluate Builtin.library (Block.Figure.sketch
      ⟨.assignment "y", none, [⟨.use "a.n", none, []⟩]⟩) environment =
        (.ok .null, environment.insert "y" (.int 7)) := bind_of_ok found
  have used : Sketch.evaluate Builtin.library (Block.Figure.sketch ⟨.use "y", none, []⟩)
      (environment.insert "y" (.int 7)) = (.ok (.int 7), environment.insert "y" (.int 7)) := by
    show Sketch.lookup "y" _ = _
    simp [Sketch.lookup]
  have values : Sketch.evaluateAll Builtin.library (Block.Figure.sketches fieldFigures)
      environment = (.ok [.null, .int 7], environment.insert "y" (.int 7)) :=
    Sketch.evaluateAll_cons assigned (Sketch.evaluateAll_cons used rfl)
  rw [Interface.run, bind_of_ok values]
  rfl

/-- The program reads 7 from the field, where the argument itself has no value.  Its result has a
null for the local name, one for the assignment, and the value of the variable. -/
theorem execute_imported_field : oneField.variableNames.Nodup ∧
    ∃ version created document root after,
      Version.create 1 oneField Store.empty = (.ok version, created) ∧
        version.Declared oneField created.records ∧
          Creation.importDocument none document (some version) created = (.ok root, after) ∧
            Block.read document = .ok (Block.Figure.sketches fieldFigures) ∧
              (∃ environment, oneField.Supplies fieldArguments environment ∧
                environment.get? "a" = none ∧ environment.get? "a.n" = some (.int 7)) ∧
              ((version.startingAt root.id).execute after.records fieldArguments
                Context.fresh).1 = .ok (.list [.null, .null, .int 7]) := by
  have distinct : oneField.variableNames.Nodup := by decide
  rcases Reachable.empty.execute_imported distinct 1 with
    ⟨version, created, done, reachable, declared, executes⟩
  have own : Version.create 1 oneField Store.empty = (.ok oneFieldVersion, oneFieldStore) := by rfl
  rw [done] at own
  cases own
  have fit : Block.Figure.AllFit fieldFigures :=
    ⟨⟨rfl, trivial, ⟨rfl, trivial, trivial⟩, trivial⟩, ⟨rfl, trivial, trivial⟩, trivial⟩
  have succeeds : (Creation.create none (.block (Block.Figure.sketches fieldFigures))
      (some oneFieldVersion) oneFieldStore).1 = .ok ⟨⟨1⟩, none, 0, none⟩ := by decide +kernel
  rcases imported : Creation.create none (.block (Block.Figure.sketches fieldFigures))
      (some oneFieldVersion) oneFieldStore with ⟨answer, after⟩
  rw [imported] at succeeds
  cases succeeds
  have written := Block.read_document fit
  replace imported := Block.importDocument_eq_ok.mpr ⟨_, written, imported⟩
  rcases executes oneFieldStore reachable declared none _ _ after imported with
    ⟨statements, names, read, _, agrees⟩
  rw [written] at read
  cases read
  rcases agrees fieldArguments Context.fresh rfl Builtin.detached_library with
    ⟨environment, supplies, result, _⟩
  rcases supplies.of_fieldArguments with ⟨nothing, seven⟩
  exact ⟨distinct, oneFieldVersion, oneFieldStore, _, _, after, done, declared, imported, written,
    ⟨environment, supplies, nothing, seven⟩, result.trans (run_fieldFigures seven)⟩

end RuleTree
