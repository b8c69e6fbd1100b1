import RuleTree.Proofs.Block.Formatting
import RuleTree.Proofs.Evaluation.Safety

/-!
# Imported trees can be evaluated

What an import checks against a library covers what an evaluation with this library relies on.
Evaluating an imported tree fails for its values only (`Reachable.import_sound`).
-/

namespace RuleTree

open Step Records Creation

namespace Evaluation

variable {library : Library} {names : Names} {records : Records} {floor : Int}

/-- The checks know how many arguments a function of the library takes. -/
theorem expectedChildren_call {title : String} {function : FunctionDefinition} {data : Fields}
    {children : List Sketch} (titled : require data .call "definition" Json.asStr? = .ok title)
    (known : library.get? title = some function) :
    expectedChildren (some library) .call ⟨data, children⟩ = some function.parameters.length := by
  have read : Sketch.getStr? ⟨data, children⟩ "definition" = some title :=
    require_eq_ok.mp titled
  simp [expectedChildren, Kind.arity, read, known]

/-- A call was only made of data that name a function of the library. -/
theorem function_of_call {title : String} {data : Fields}
    (described : contentOf (some library) .call data = .ok (.call title)) :
    require data .call "definition" Json.asStr? = .ok title ∧
      ∃ function, library.get? title = some function := by
  rcases Answer.bind_eq_ok.mp described with ⟨title', titled, described⟩
  simp only at described
  split at described
  · rename_i contains
    cases described
    exact ⟨titled, Option.isSome_iff_exists.mp contains⟩
  · cases described

/-- An assignment was checked to have a variable and one more child. -/
theorem suits_assignment {children : List Sketch} {ids : List NodeId}
    (two : children.length = 2)
    (aimed : (Sketch.mapDataAll (bindData names) children).head?.bind Sketch.kind? = some .use)
    (mirrors : MirrorsAll records floor
      (fun data => Described (some library) records (bindData names data)) children ids) :
    Suits library records (ids.filterMap records.nodes.get?) .assignment := by
  rcases List.length_eq_two.mp two with ⟨⟨target_data, below⟩, expression, rfl⟩
  rcases mirrors with ⟨id, _, rfl, target, id', _, rfl, value, rfl⟩
  rcases target with ⟨_, ⟨node, ref, found, wraps, content, kind_eq, _, stored⟩, _⟩
  rcases value.stored with ⟨node', found'⟩
  have use : content.kind = .use := by
    have kind := (kindOf_eq_ok.mp kind_eq).symm.trans aimed
    exact Option.some.inj kind
  rw [List.filterMap_cons_some found, List.filterMap_cons_some found']
  cases content with
  | use definition => exact .assignment node' wraps stored
  | _ => cases use

/-- The object of a checked part can be evaluated over the nodes that stand for its children. -/
theorem suits_of_described {data : Fields} {children : List Sketch} {ids : List NodeId}
    {ref : ContentRef} {isRoot : Bool}
    (checked : checkNode (some library) isRoot
      ⟨bindData names data, Sketch.mapDataAll (bindData names) children⟩ = .ok ())
    (described : Described (some library) records (bindData names data) ref)
    (mirrors : MirrorsAll records floor
      (fun data => Described (some library) records (bindData names data)) children ids) :
    ∃ content, records.objects.get? ref = some content ∧
      Suits library records (ids.filterMap records.nodes.get?) content := by
  rcases described with ⟨content, kind_eq, described, stored⟩
  refine ⟨content, stored, ?_⟩
  rcases checkNode_eq_ok checked (kindOf_eq_ok.mp kind_eq) with ⟨counted, aimed⟩
  simp only [length_mapDataAll] at counted
  have count {expected : Nat} (fixed : content.kind.arity = .fixed expected) :
      (ids.filterMap records.nodes.get?).length = expected :=
    mirrors.length_nodes.trans (counted expected (expectedChildren_fixed fixed _))
  cases content with
  | use definition =>
      rw [List.eq_nil_of_length_eq_zero (count rfl)]
      exact .use definition
  | definition name source => exact .definition _ name source
  | assignment =>
      exact suits_assignment (counted 2 (expectedChildren_fixed rfl _)) (aimed rfl) mirrors
  | binary symbol =>
      rcases List.length_eq_two.mp (count rfl) with ⟨left, right, nodes_eq⟩
      rcases Answer.bind_eq_ok.mp described with ⟨_, read, same⟩
      cases same
      rcases Option.isSome_iff_exists.mp (operatorOf_eq_ok read).2 with ⟨op, known⟩
      rw [nodes_eq]
      exact .binary left right known
  | unary symbol =>
      rcases List.length_eq_one_iff.mp (count rfl) with ⟨operand, nodes_eq⟩
      rcases Answer.bind_eq_ok.mp described with ⟨_, read, same⟩
      cases same
      rcases Option.isSome_iff_exists.mp (operatorOf_eq_ok read).2 with ⟨op, known⟩
      rw [nodes_eq]
      exact .unary operand known
  | call title =>
      rcases function_of_call described with ⟨titled, function, known⟩
      exact .call known
        (mirrors.length_nodes.trans (counted _ (expectedChildren_call titled known)))
  | _ =>
      rw [List.eq_nil_of_length_eq_zero (count rfl)]
      exact .literal rfl

/-- A block that was created with checks against a library can be evaluated with it. -/
theorem evaluable_of_created {known : Names} {tree : Sketch} {before : Records} {root : Node}
    {parts : List Sketch} (linked : Linked records)
    (whole : Created (some library) known tree before root names parts records)
    (block : tree.isBlock = true) {id : NodeId} {node : Node}
    (path : Relation.ReflTransGen records.ChildOf root.id id)
    (found : records.nodes.get? id = some node) : Evaluable library records node := by
  rcases linked.keyed found with rfl
  cases place_of_created whole block path with
  | root same =>
      rw [same, whole.rooted.stored] at found
      cases found
      exact .inl ⟨(whole.rooted.block block).1, whole.rooted.isRoot⟩
  | definition _ defining _ =>
      rcases defining with ⟨node', ref, name, source, found', wraps, stored⟩
      rw [found] at found'
      cases found'
      exact .inr ⟨ref, _, wraps, stored, .definition _ name source⟩
  | @part part _ _ checked mirrors =>
      rcases part with ⟨data, children⟩
      rcases mirrors with ⟨_, ⟨node', ref, found', wraps, described⟩, below⟩
      rw [found] at found'
      cases found'
      rcases suits_of_described checked described below with ⟨content, stored, suits⟩
      exact .inr ⟨ref, content, wraps, stored, suits⟩

end Evaluation

/-- Whatever was imported with checks against a library can be interpreted with this library, in any
state of the variables and with or without a snapshot, as long as no function of the library puts
another one in its place.  This gives a value or fails for the values
that it meets: a variable is not bound, an operator does not take its operands, a division is one by
zero, an integer gets too large, or a function fails. -/
theorem Reachable.import_sound [Host] {store after : Store} (reachable : Reachable store)
    {library : Library} {document : String} {version : Option Version} {root : Node}
    (imported : Creation.importDocument (some library) document version store = (.ok root, after))
    (steadfast : library.Steadfast) (bindings : Bindings) (cache : Bool) :
    (∃ value, (interpret after.records root ⟨bindings, cache, library⟩).1 = .ok value) ∨
      ∃ cause, (interpret after.records root ⟨bindings, cache, library⟩).1 =
        .error (.evaluation cause) ∧ cause.Dynamic := by
  have tidy := tidy_importDocument reachable.tidy imported
  rcases Block.created_of_imported reachable.tidy imported with
    ⟨figures, known, names, parts, _, whole⟩
  have sound : Reading.Sound after.records root :=
    ⟨whole.rooted.stored, whole.supplied (Block.written_block figures)⟩
  have safe := Evaluation.safe_node steadfast tidy.linked whole.rooted.stored
    (fun id below path found => Evaluation.evaluable_of_created tidy.linked whole rfl path found)
    (after.records.listsBelow_lt_depthBound root.id)
  rw [(interpret_direct tidy sound _).1]
  rcases (safe ⟨Reading.start, bindings, cache, library⟩ rfl).2 with ⟨value, done, _⟩ | failed
  · exact .inl ⟨value, done⟩
  · exact .inr failed

/-- One assignment, imported with checks against the built-in functions. -/
theorem import_sound_assignment : ∃ document root after,
    Creation.importDocument (some Builtin.library) document none Store.empty = (.ok root, after) ∧
      Builtin.library.Steadfast ∧
      ((∃ value, (interpret after.records root Context.fresh).1 = .ok value) ∨
        ∃ cause, (interpret after.records root Context.fresh).1 = .error (.evaluation cause) ∧
          cause.Dynamic) := by
  have created : ∃ root after, create (some Builtin.library)
      (.block (Block.Figure.sketches [Block.oneFigure])) none Store.empty = (.ok root, after) :=
    ⟨_, _, by rfl⟩
  rcases created with ⟨root, after, created⟩
  have imported := Block.importDocument_eq_ok.mpr
    ⟨_, Block.read_document Block.allFit_oneFigure, created⟩
  have steadfast := Builtin.detached_library.steadfast
  exact ⟨_, root, after, imported, steadfast,
    Reachable.empty.import_sound imported steadfast .empty true⟩

end RuleTree
