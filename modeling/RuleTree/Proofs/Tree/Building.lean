import RuleTree.Proofs.Tree.Editing

/-!
# Records that are built up

An edit that deletes and moves nothing saves objects and nodes, one after the other.
`Records.Builds` lists which objects it made and around which objects it put nodes.  Whatever the
edit is, old records stay, new records have new numbers, and every new node wraps an object that
was stored when the node was saved.
-/

namespace RuleTree

open Step Store

namespace Records

variable {before middle after records : Records}
  {made made' wrapped wrapped' : List ContentRef}

/-- The node with a number wraps an object. -/
def Wraps (records : Records) (id : NodeId) (ref : ContentRef) : Prop :=
  ∃ node, records.nodes.get? id = some node ∧ node.content = some ref

/-- A new node wraps its object, and the old ones wrap what they did. -/
theorem wraps_insertNode_cases {node : Node} {id : NodeId} {ref : ContentRef}
    (wraps : (records.insertNode node).Wraps id ref) :
    (id = node.id ∧ node.content = some ref) ∨ records.Wraps id ref := by
  rcases wraps with ⟨found, present, content⟩
  rcases get?_insertNode_cases present with ⟨rfl, rfl⟩ | ⟨_, old⟩
  · exact .inl ⟨rfl, content⟩
  · exact .inr ⟨found, old, content⟩

/-- Objects and nodes were saved one after the other.  The first list has the new objects, the
second the objects around which nodes were put; a node without an object is a root. -/
inductive Builds (before : Records) : List ContentRef → List ContentRef → Records → Prop where
  | refl : Builds before [] [] before
  | object {made wrapped : List ContentRef} {records : Records} (content : Content) :
      Builds before made wrapped records →
        Builds before (made ++ [⟨content.kind, ⟨records.lastObject + 1⟩⟩]) wrapped
          (records.insertObject ⟨content.kind, ⟨records.lastObject + 1⟩⟩ content)
  | node {made wrapped : List ContentRef} {records after : Records} {parent : Option NodeId}
      {position : Nat} {ref : ContentRef} {node : Node} :
      Builds before made wrapped records →
        records.saveNode parent position (some ref) = .ok (node, after) →
          Builds before made (wrapped ++ [ref]) after
  | root {made wrapped : List ContentRef} {records after : Records} {position : Nat} {node : Node} :
      Builds before made wrapped records →
        records.saveNode none position none = .ok (node, after) →
          Builds before made wrapped after

namespace Builds

theorem trans (first : Builds before made wrapped middle)
    (second : Builds middle made' wrapped' after) :
    Builds before (made ++ made') (wrapped ++ wrapped') after := by
  induction second with
  | refl => simpa using first
  | object content _ ih =>
      rw [← List.append_assoc]
      exact .object content ih
  | node _ saved ih =>
      rw [← List.append_assoc]
      exact .node ih saved
  | root _ saved ih => exact .root ih saved

theorem one_object (records : Records) (content : Content) :
    Builds records [⟨content.kind, ⟨records.lastObject + 1⟩⟩] []
      (records.insertObject ⟨content.kind, ⟨records.lastObject + 1⟩⟩ content) :=
  .object content .refl

theorem one_node {parent : Option NodeId} {position : Nat} {ref : ContentRef} {node : Node}
    (saved : before.saveNode parent position (some ref) = .ok (node, after)) :
    Builds before [] [ref] after :=
  .node .refl saved

/-! ## What stays -/

theorem linked (builds : Builds before made wrapped after) (linked : Linked before) :
    Linked after := by
  induction builds with
  | refl => exact linked
  | object content _ ih =>
      apply ih.insertObject
      · simp only
        omega
      · rfl
  | node _ saved ih =>
      rcases saveNode_eq_ok.mp saved with ⟨stored, _, rfl, rfl⟩
      apply ih.insertNode
      · simp only
        omega
      · exact stored
      · exact fun _ _ => ⟨_, rfl⟩
  | root _ saved ih =>
      rcases saveNode_eq_ok.mp saved with ⟨stored, _, rfl, rfl⟩
      apply ih.insertNode
      · simp only
        omega
      · exact stored
      · simp

/-- Which lists of children became longer is left open. -/
theorem grown (builds : Builds before made wrapped after) (linked : Linked before) :
    Grown (fun _ => True) before after := by
  induction builds with
  | refl => exact .refl
  | object content builds ih =>
      refine ih.trans (?_ : Grown (fun _ => True) _ _) (by simp)
      apply Grown.insertObject (builds.linked linked)
      simp only
      omega
  | node builds saved ih =>
      rcases saveNode_eq_ok.mp saved with ⟨_, _, rfl, rfl⟩
      refine ih.trans (?_ : Grown (fun _ => True) _ _) (by simp)
      apply Grown.insertNode (builds.linked linked) ?_ (by simp)
      simp only
      omega
  | root builds saved ih =>
      rcases saveNode_eq_ok.mp saved with ⟨_, _, rfl, rfl⟩
      refine ih.trans (?_ : Grown (fun _ => True) _ _) (by simp)
      apply Grown.insertNode (builds.linked linked) ?_ (by simp)
      simp only
      omega

theorem wraps (builds : Builds before made wrapped after) (linked : Linked before) {id : NodeId}
    {ref : ContentRef} (wraps : before.Wraps id ref) : after.Wraps id ref := by
  rcases wraps with ⟨node, found, content⟩
  exact ⟨node, (builds.grown linked).nodes found, content⟩

/-! ## What is new -/

/-- The new objects have new numbers and are stored. -/
theorem of_mem_made (builds : Builds before made wrapped after) (linked : Linked before)
    {ref : ContentRef} (member : ref ∈ made) :
    before.lastObject < ref.id.val ∧ ∃ content, after.objects.get? ref = some content := by
  induction builds with
  | refl => cases member
  | object content builds ih =>
      have grown := builds.grown linked
      rcases List.mem_append.mp member with old | new
      · rcases ih old with ⟨above, object, found⟩
        refine ⟨above, object, ?_⟩
        exact (builds.linked linked).get?_insertObject_of_fresh (Int.lt_succ _) found
      · rcases List.mem_singleton.mp new with rfl
        have bound := grown.lastObject_le
        exact ⟨by simp only; omega, content, by simp⟩
  | node _ saved ih =>
      rcases saveNode_eq_ok.mp saved with ⟨_, _, _, rfl⟩
      exact ih member
  | root _ saved ih =>
      rcases saveNode_eq_ok.mp saved with ⟨_, _, _, rfl⟩
      exact ih member

theorem absent_of_mem_made (builds : Builds before made wrapped after)
    (linked : Linked before) {ref : ContentRef} (member : ref ∈ made) :
    before.objects.get? ref = none :=
  linked.object_fresh (builds.of_mem_made linked member).1

theorem mem_made (builds : Builds before made wrapped after) {ref : ContentRef} {content : Content}
    (found : after.objects.get? ref = some content) :
    before.objects.get? ref = some content ∨ ref ∈ made := by
  induction builds with
  | refl => exact .inl found
  | object object _ ih =>
      rcases get?_insertObject_cases found with ⟨rfl, _⟩ | ⟨_, old⟩
      · simp
      · rcases ih old with old | member
        · exact .inl old
        · simp [member]
  | node _ saved ih =>
      rcases saveNode_eq_ok.mp saved with ⟨_, _, _, rfl⟩
      exact ih found
  | root _ saved ih =>
      rcases saveNode_eq_ok.mp saved with ⟨_, _, _, rfl⟩
      exact ih found

theorem nodup_made (builds : Builds before made wrapped after) (linked : Linked before) :
    made.Nodup := by
  induction builds with
  | refl => exact List.nodup_nil
  | object content builds ih =>
      refine List.nodup_append.mpr ⟨ih, List.nodup_singleton _, ?_⟩
      intro ref member other other_mem
      rcases List.mem_singleton.mp other_mem with rfl
      rintro rfl
      rcases (builds.of_mem_made linked member).2 with ⟨object, found⟩
      have bound := ((builds.linked linked).addressed found).1
      simp only at bound
      omega
  | node _ _ ih => exact ih
  | root _ _ ih => exact ih

/-- A new node wraps a stored object of the second list. -/
theorem wraps_cases (builds : Builds before made wrapped after) (linked : Linked before)
    {id : NodeId} {ref : ContentRef} (wraps : after.Wraps id ref) :
    before.Wraps id ref ∨
      (ref ∈ wrapped ∧ ∃ content, after.objects.get? ref = some content) := by
  induction builds with
  | refl => exact .inl wraps
  | object content builds ih =>
      rcases ih wraps with old | ⟨member, object, found⟩
      · exact .inl old
      · refine .inr ⟨member, object, ?_⟩
        exact (builds.linked linked).get?_insertObject_of_fresh (Int.lt_succ _) found
  | node _ saved ih =>
      rcases saveNode_eq_ok.mp saved with ⟨_, stored, rfl, rfl⟩
      rcases wraps_insertNode_cases wraps with ⟨_, content⟩ | wraps
      · cases content
        exact .inr ⟨by simp, stored ref rfl⟩
      · rcases ih wraps with old | ⟨member, present⟩
        · exact .inl old
        · exact .inr ⟨by simp [member], present⟩
  | root _ saved ih =>
      rcases saveNode_eq_ok.mp saved with ⟨_, _, rfl, rfl⟩
      rcases wraps_insertNode_cases wraps with ⟨_, content⟩ | wraps
      · cases content
      · exact ih wraps

theorem wraps_of_mem (builds : Builds before made wrapped after) (linked : Linked before)
    {ref : ContentRef} (member : ref ∈ wrapped) : ∃ id, after.Wraps id ref := by
  induction builds with
  | refl => cases member
  | object _ _ ih => exact ih member
  | @node _ _ _ _ _ _ _ node builds saved ih =>
      rcases List.mem_append.mp member with old | new
      · rcases ih old with ⟨id, wraps⟩
        exact ⟨id, (one_node saved).wraps (builds.linked linked) wraps⟩
      · rcases List.mem_singleton.mp new with rfl
        rcases saveNode_eq_ok.mp saved with ⟨_, _, node_eq, rfl⟩
        exact ⟨node.id, node, by simp, by rw [node_eq]⟩
  | root builds saved ih =>
      rcases ih member with ⟨id, wraps⟩
      exact ⟨id, (root .refl saved).wraps (builds.linked linked) wraps⟩

/-- An object that no node wraps gets one node at most, if different objects get nodes. -/
theorem only (builds : Builds before made wrapped after) (linked : Linked before)
    (distinct : wrapped.Nodup) {ref : ContentRef} (loose : ∀ id, ¬before.Wraps id ref)
    {id other : NodeId} (wraps : after.Wraps id ref) (wraps' : after.Wraps other ref) :
    id = other := by
  induction builds generalizing id other with
  | refl => exact absurd wraps (loose id)
  | object _ _ ih => exact ih distinct wraps wraps'
  | @node made wrapped records after parent position here node builds saved ih =>
      rcases List.nodup_append.mp distinct with ⟨distinct, _, apart⟩
      rcases saveNode_eq_ok.mp saved with ⟨_, _, rfl, rfl⟩
      have unwrapped (same : some here = some ref) (id : NodeId) : ¬records.Wraps id ref := by
        intro wraps
        rcases builds.wraps_cases linked wraps with old | ⟨member, _⟩
        · exact loose id old
        · exact apart ref member here (by simp) (Option.some.inj same).symm
      rcases wraps_insertNode_cases wraps with ⟨rfl, same⟩ | old
      · rcases wraps_insertNode_cases wraps' with ⟨rfl, _⟩ | old'
        · rfl
        · exact absurd old' (unwrapped same other)
      · rcases wraps_insertNode_cases wraps' with ⟨_, same⟩ | old'
        · exact absurd old (unwrapped same id)
        · exact ih distinct old old'
  | @root made wrapped records after position node builds saved ih =>
      rcases saveNode_eq_ok.mp saved with ⟨_, _, rfl, rfl⟩
      rcases wraps_insertNode_cases wraps with ⟨_, content⟩ | old
      · cases content
      · rcases wraps_insertNode_cases wraps' with ⟨_, content⟩ | old'
        · cases content
        · exact ih distinct old old'

/-- Putting nodes around different objects that no node wraps shares none of them. -/
theorem unshared (builds : Builds before made wrapped after) (linked : Linked before)
    (alone : ∀ {id other ref}, before.Wraps id ref → before.Wraps other ref → id = other)
    (distinct : wrapped.Nodup) (loose : ∀ ref ∈ wrapped, ∀ id, ¬before.Wraps id ref)
    {id other : NodeId} {ref : ContentRef} (wraps : after.Wraps id ref)
    (wraps' : after.Wraps other ref) : id = other := by
  by_cases member : ref ∈ wrapped
  · exact builds.only linked distinct (loose ref member) wraps wraps'
  · have old {id : NodeId} (wraps : after.Wraps id ref) : before.Wraps id ref :=
      (builds.wraps_cases linked wraps).resolve_right fun new => member new.1
    exact alone (old wraps) (old wraps')

end Builds

end Records

/-! ## The edits that build -/

namespace Tree

open Records

variable {store after : Store}

theorem builds_attachRoot {content : Option ContentRef} {node : Node}
    (done : attachRoot content store = (.ok node, after)) :
    Builds store.records [] content.toList after.records := by
  rcases saveNode_eq_ok.mp done with ⟨records, saved, rfl⟩
  cases content with
  | none => exact .root .refl saved
  | some ref => exact .one_node saved

theorem builds_attachChild {parent : NodeId} {content : ContentRef} {node : Node}
    (done : attachChild parent content store = (.ok node, after)) :
    Builds store.records [] [content] after.records := by
  rcases bind_eq_ok.mp done with ⟨siblings, middle, loaded, done⟩
  rcases fetch_eq_ok.mp loaded with ⟨_, rfl⟩
  rcases saveNode_eq_ok.mp done with ⟨records, saved, rfl⟩
  exact .one_node saved

/-- The new root wraps a new object, if it wraps one. -/
theorem builds_addRoot {content : Option Content} {node : Node}
    (done : addRoot content store = (.ok node, after)) :
    ∃ refs, Builds store.records refs refs after.records := by
  replace done := transaction_eq_ok.mp done
  cases content with
  | none => exact ⟨[], builds_attachRoot done⟩
  | some content =>
      rcases bind_eq_ok.mp done with ⟨ref, middle, saved, done⟩
      rcases saveObject_eq_ok.mp saved with ⟨rfl, rfl⟩
      exact ⟨_, (Builds.one_object store.records content).trans (builds_attachRoot done)⟩

theorem builds_addChild {parent : NodeId} {content : Content} {node : Node}
    (done : addChild parent content store = (.ok node, after)) :
    ∃ refs, Builds store.records refs refs after.records := by
  replace done := transaction_eq_ok.mp done
  rcases bind_eq_ok.mp done with ⟨ref, middle, saved, done⟩
  rcases saveObject_eq_ok.mp saved with ⟨rfl, rfl⟩
  exact ⟨_, (Builds.one_object store.records content).trans (builds_attachChild done)⟩

end Tree

/-- The object is the definition of a variable with a source. -/
def Records.Declares (records : Records) (entry : String × Source) (ref : ContentRef) : Prop :=
  ref.kind = .definition ∧ records.objects.get? ref = some (.definition entry.1 (some entry.2))

theorem Records.declared_of_mem {records : Records} {entries : List (String × Source)}
    {refs : List ContentRef} (declared : List.Forall₂ records.Declares entries refs)
    {ref : ContentRef} (member : ref ∈ refs) :
    ∃ name source, records.objects.get? ref = some (.definition name (some source)) := by
  rcases exists_of_forall₂ declared.flip member with ⟨entry, _, _, stored⟩
  exact ⟨entry.1, entry.2, stored⟩

/-- Each variable has a definition of its own, which is not wrapped. -/
theorem Interface.builds_declareVariables {interface : Interface} {refs : List ContentRef}
    {store after : Store} (linked : Records.Linked store.records)
    (done : interface.declareVariables store = (.ok refs, after)) :
    Records.Builds store.records refs [] after.records ∧
      List.Forall₂ after.records.Declares interface.declarations refs := by
  replace done := transaction_eq_ok.mp done
  generalize interface.declarations = entries at done
  induction entries generalizing store refs with
  | nil =>
      rcases pure_eq_ok.mp done with ⟨rfl, rfl⟩
      exact ⟨.refl, .nil⟩
  | cons entry rest ih =>
      rcases entry with ⟨name, source⟩
      rcases bind_eq_ok.mp done with ⟨ref, middle, saved, done⟩
      rcases saveObject_eq_ok.mp saved with ⟨rfl, rfl⟩
      rcases bind_eq_ok.mp done with ⟨refs', last, others, done⟩
      rcases pure_eq_ok.mp done with ⟨rfl, rfl⟩
      have one := Records.Builds.one_object store.records (.definition name (some source))
      rcases ih (one.linked linked) others with ⟨builds, declared⟩
      refine ⟨one.trans builds, .cons ⟨rfl, ?_⟩ declared⟩
      apply (builds.grown (one.linked linked)).objects
      simp [Content.kind]

end RuleTree
