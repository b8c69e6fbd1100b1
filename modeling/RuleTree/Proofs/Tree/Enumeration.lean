import RuleTree.Proofs.Reachable
import RuleTree.Proofs.Tree.Isomorphism
import Mathlib

/-!
# The order in which a tree is listed

A tree is listed by a loop over a stack: the topmost node is taken off, and its children, from the
last to the first, are listed and put on.  Nothing keeps track of the nodes that were met before;
the loop ends since no node lies below itself or below two others.  `Linked.passes_eq` says that it
makes as many passes as there are nodes in the tree and lists them in the order of `Records.below`,
and `Enumerates` says what this order is.  Each node comes after its parent, so that a copy of the
tree finds the copy of the parent whenever it gets to a node (`Tree.ends_copyNodes`).
-/

namespace RuleTree

open Step Store Records

/-! ## The loop -/

/-- The numbers on the stack, from the top, and the nodes that were listed so far. -/
structure Walk where
  pending : List NodeId
  listed : List Node

namespace Walk

variable {records : Records}

/-- The loop begins with the root. -/
def start (root : Node) : Walk := ⟨[root.id], [root]⟩

/-- Lists a child, if it is stored, and puts it on the stack. -/
def push (records : Records) (walk : Walk) (child : NodeId) : Walk :=
  ⟨child :: walk.pending, walk.listed ++ (records.nodes.get? child).toList⟩

/-- One pass of the loop; with nothing on the stack it is over. -/
def pass (records : Records) : Walk → Walk
  | ⟨[], listed⟩ => ⟨[], listed⟩
  | ⟨id :: pending, listed⟩ =>
      (records.orderedChildren id).reverse.foldl (push records) ⟨pending, listed⟩

theorem foldl_push (ids : List NodeId) (walk : Walk) :
    ids.foldl (push records) walk =
      ⟨ids.reverse ++ walk.pending, walk.listed ++ ids.filterMap records.nodes.get?⟩ := by
  induction ids generalizing walk with
  | nil => simp
  | cons id rest ih =>
      rw [List.foldl_cons, ih, push]
      cases found : records.nodes.get? id <;> simp [found]

theorem pass_cons (id : NodeId) (pending : List NodeId) (listed : List Node) :
    pass records ⟨id :: pending, listed⟩ =
      ⟨records.orderedChildren id ++ pending,
        listed ++ (records.orderedChildren id).reverse.filterMap records.nodes.get?⟩ := by
  rw [pass, foldl_push, List.reverse_reverse]

theorem pass_of_empty {walk : Walk} (empty : walk.pending = []) : pass records walk = walk := by
  rcases walk with ⟨pending, listed⟩
  cases empty
  rfl

/-- What is below each of the topmost nodes is listed in their order. -/
theorem passes_pieces {ids : List NodeId} {pieces : List (List Node)}
    (each : List.Forall₂ (fun id piece => ∀ pending listed,
      (pass records)^[piece.length + 1] ⟨id :: pending, listed⟩ = ⟨pending, listed ++ piece⟩)
      ids pieces) (pending : List NodeId) (listed : List Node) :
    (pass records)^[pieces.flatten.length + ids.length] ⟨ids ++ pending, listed⟩ =
      ⟨pending, listed ++ pieces.flatten⟩ := by
  induction each generalizing listed with
  | nil => simp
  | @cons id piece ids pieces first _ ih =>
      have passes : (piece :: pieces).flatten.length + (id :: ids).length =
          (pieces.flatten.length + ids.length) + (piece.length + 1) := by
        simp only [List.flatten_cons, List.length_append, List.length_cons]
        omega
      rw [passes, Function.iterate_add_apply, List.cons_append, first, ih, List.flatten_cons,
        List.append_assoc]

/-- A pass lists no more nodes than it puts on the stack. -/
theorem length_listed_pass (records : Records) (walk : Walk) :
    (pass records walk).listed.length + walk.pending.length ≤
      walk.listed.length + (pass records walk).pending.length + 1 := by
  rcases walk with ⟨_ | ⟨id, pending⟩, listed⟩
  · simp [pass]
  · have stored := List.length_filterMap_le records.nodes.get? (records.orderedChildren id).reverse
    rw [List.length_reverse] at stored
    rw [pass_cons]
    simp only [List.length_append, List.length_cons]
    omega

/-- Each node that was listed came with one of the passes or is still on the stack. -/
theorem length_listed_passes (records : Records) (root : Node) (passes : Nat) :
    ((pass records)^[passes] (start root)).listed.length ≤
      passes + ((pass records)^[passes] (start root)).pending.length := by
  induction passes with
  | zero => simp [start]
  | succ passes ih =>
      have step := length_listed_pass records ((pass records)^[passes] (start root))
      rw [Function.iterate_succ_apply']
      omega

end Walk

namespace Records

open Walk

variable {records : Records} {root node : Node} {rest nodes : List Node}

/-- The stack gets back to where it was once everything below its topmost node is listed. -/
theorem Linked.passes_below (linked : Linked records) {depth : Nat} {id : NodeId}
    {piece : List Node} (found : records.below depth id = some piece) (pending : List NodeId)
    (listed : List Node) :
    (pass records)^[piece.length + 1] ⟨id :: pending, listed⟩ = ⟨pending, listed ++ piece⟩ := by
  induction depth generalizing id piece pending listed with
  | zero => cases found
  | succ depth ih =>
      rcases Option.bind_eq_some_iff.mp found with ⟨pieces, deeper, whole⟩
      cases whole
      have each := (mapM_eq_some_iff.mp deeper).imp fun _ _ found => ih found
      have backward : ∀ child ∈ (records.orderedChildren id).reverse, records.ChildOf id child :=
        fun child member => mem_orderedChildren.mp (List.mem_reverse.mp member)
      have count := congrArg List.length
        (linked.filterMap_ids (linked.present_children backward))
      rw [List.length_map, List.length_reverse] at count
      rw [Function.iterate_succ_apply, pass_cons, List.length_append, count, Nat.add_comm,
        passes_pieces each, List.append_assoc]

/-- The loop makes one pass for each node that it lists, and no less. -/
theorem Linked.passes_eq (linked : Linked records)
    (stored : records.nodes.get? root.id = some root)
    (listed : records.subtree root.id = .ok nodes) :
    (pass records)^[nodes.length] (start root) = ⟨[], nodes⟩ ∧
      ∀ passes < nodes.length, ((pass records)^[passes] (start root)).pending ≠ [] := by
  have whole : (pass records)^[nodes.length] (start root) = ⟨[], nodes⟩ := by
    rw [subtree, stored] at listed
    simp only at listed
    split at listed
    · rename_i rest found
      cases listed
      exact linked.passes_below found [] [root]
    · cases listed
  refine ⟨whole, ?_⟩
  intro passes early empty
  have still : (pass records)^[nodes.length] (start root) =
      (pass records)^[passes] (start root) := by
    rw [← Nat.sub_add_cancel (Nat.le_of_lt early), Function.iterate_add_apply]
    exact Function.iterate_fixed (pass_of_empty empty) _
  have bound := length_listed_passes records root passes
  rw [← still, whole] at bound
  simp only [List.length_nil] at bound
  omega

/-! ## The order -/

theorem Linked.childOf_eq (linked : Linked records) : records.ChildOf = ParentOf records := by
  funext parent id
  exact propext ⟨linked.owned, fun ⟨_, found, above⟩ => linked.listed found above⟩

/-- The children of a node as they are listed. -/
def siblings (records : Records) (parent : NodeId) : List Node :=
  (records.orderedChildren parent).reverse.filterMap records.nodes.get?

theorem Linked.mem_siblings (linked : Linked records) {parent : NodeId} :
    node ∈ records.siblings parent ↔
      records.nodes.get? node.id = some node ∧ node.parent = some parent := by
  rw [siblings, List.mem_filterMap]
  constructor
  · rintro ⟨id, member, found⟩
    rcases linked.owned (mem_orderedChildren.mp (List.mem_reverse.mp member)) with
      ⟨child, stored, above⟩
    rw [found] at stored
    cases stored
    rw [linked.keyed found]
    exact ⟨found, above⟩
  · rintro ⟨found, above⟩
    exact ⟨node.id, List.mem_reverse.mpr (mem_orderedChildren.mpr (linked.listed found above)),
      found⟩

/-- From the last child to the first, the positions go down to zero. -/
theorem Tidy.positions_siblings (tidy : Tidy records) (parent : NodeId) :
    (records.siblings parent).map Node.position =
      (List.range (records.siblings parent).length).reverse := by
  have present : ∀ id ∈ (records.orderedChildren parent).reverse, ∃ child,
      records.nodes.get? id = some child :=
    tidy.linked.present_children fun id member =>
      mem_orderedChildren.mp (List.mem_reverse.mp member)
  have positions : (records.siblings parent).map (fun child => some child.position) =
      ((List.range (records.childList parent).length).map some).reverse := by
    rw [siblings, filterMap_positions present, List.map_reverse,
      (tidy.contiguous parent).positions_orderedChildren]
  have count := congrArg List.length positions
  simp only [List.length_map, List.length_reverse, List.length_range] at count
  rw [count]
  apply List.map_injective_iff.mpr fun _ _ => Option.some.inj
  rw [List.map_map, List.map_reverse]
  exact positions

/-- The children of each node in a tree are listed next to each other. -/
theorem siblings_infix {depth : Nat} {above id : NodeId}
    (found : records.below depth above = some rest)
    (within : Relation.ReflTransGen records.ChildOf above id) :
    records.siblings id <:+: rest := by
  induction depth generalizing above rest with
  | zero => cases found
  | succ depth ih =>
      rcases Option.bind_eq_some_iff.mp found with ⟨pieces, deeper, whole⟩
      cases whole
      rcases Relation.ReflTransGen.cases_head within with rfl | ⟨child, member, within⟩
      · exact (List.prefix_append _ _).isInfix
      · rcases exists_of_forall₂ (mapM_eq_some_iff.mp deeper) (mem_orderedChildren.mpr member) with
          ⟨piece, piece_mem, found⟩
        have inside := ih found within
        exact inside.trans ((List.infix_of_mem_flatten piece_mem).trans
          (List.suffix_append _ _).isInfix)

theorem AfterParents.parent_before {seen : List NodeId} {front back : List Node}
    (after : AfterParents seen (front ++ node :: back)) :
    ∃ parent ∈ seen ++ front.map Node.id, node.parent = some parent := by
  induction front generalizing seen with
  | nil => simpa using after.1
  | cons first front ih =>
      rcases ih after.2 with ⟨parent, member, above⟩
      refine ⟨parent, ?_, above⟩
      simp only [List.map_cons, List.cons_append, List.mem_cons, List.mem_append] at member ⊢
      tauto

/-- Everything below a root, as it is listed: each node once, after its parent, and the children of
each node next to each other, from the last to the first. -/
structure Enumerates (records : Records) (root : Node) (rest : List Node) : Prop where
  mem_iff : ∀ node, node ∈ rest ↔ records.nodes.get? node.id = some node ∧
    Relation.TransGen (ParentOf records) root.id node.id
  once : ((root :: rest).map Node.id).Nodup
  after_parent : ∀ {front node back}, rest = front ++ node :: back →
    ∃ parent ∈ root :: front, node.parent = some parent.id
  siblings : ∀ parent ∈ root :: rest, ∃ children, children <:+: rest ∧
    (∀ node, node ∈ children ↔
      records.nodes.get? node.id = some node ∧ node.parent = some parent.id) ∧
    children.map Node.position = (List.range children.length).reverse

theorem Tidy.subtree_enumerates (tidy : Tidy records)
    (stored : records.nodes.get? root.id = some root) :
    ∃ rest, records.subtree root.id = .ok (root :: rest) ∧ Listing records root.id rest ∧
      Enumerates records root rest := by
  have linked := tidy.linked
  rcases linked.listing_below (records.listsBelow_lt_depthBound root.id) with
    ⟨rest, found, listing⟩
  refine ⟨rest, by simp only [subtree, stored, found], listing, ?_⟩
  refine { mem_iff := ?_, once := linked.nodup_whole listing, after_parent := ?_, siblings := ?_ }
  · intro node
    rw [listing.mem_iff, Under, linked.childOf_eq]
  · rintro front node back rfl
    rcases listing.after.parent_before with ⟨parent, member, above⟩
    rcases List.mem_map.mp (show parent ∈ (root :: front).map Node.id from member) with
      ⟨before, before_mem, rfl⟩
    exact ⟨before, before_mem, above⟩
  · intro parent member
    have within := ((listing.mem_whole_iff stored).mp member).2
    exact ⟨records.siblings parent.id, siblings_infix found within,
      fun node => linked.mem_siblings, tidy.positions_siblings parent.id⟩

end Records

/-! ## The order of copies -/

namespace Tree

variable {store after : Store} {node : Node} {rest : List Node}

/-- Nothing is wrong but that an object is not stored. -/
def ObjectMissing (cause : Error) : Prop := ∃ ref, cause = .store (.objectNotFound ref)

theorem ends_loadObject (ref : ContentRef) :
    Ends (loadObject ref) (fun _ => True) ObjectMissing := by
  intro store
  unfold loadObject fetch Records.object
  dsimp only
  cases store.records.objects.get? ref with
  | some content => exact .inl ⟨content, rfl, trivial⟩
  | none => exact .inr ⟨_, rfl, ref, rfl⟩

theorem ends_saveObject (content : Content) :
    Ends (saveObject content) (fun _ => True) ObjectMissing :=
  fun _ => .inl ⟨_, rfl, trivial⟩

theorem ends_copyDefinitions (copies : Copies) (nodes : List Node) :
    Ends (copyDefinitions copies nodes) (fun _ => True) ObjectMissing := by
  induction nodes generalizing copies with
  | nil => exact .pure trivial
  | cons node rest ih =>
      unfold copyDefinitions
      split
      · split
        · exact (ends_loadObject _).bind fun content _ => (ends_saveObject content).bind
            fun copy _ => ih _
        · exact ih _
      · exact ih _

theorem ends_copyContents (copies : Copies) (nodes : List Node) :
    Ends (copyContents copies nodes) (fun _ => True) ObjectMissing := by
  induction nodes generalizing copies with
  | nil => exact .pure trivial
  | cons node rest ih =>
      unfold copyContents
      split
      · split
        · exact ih _
        · exact (ends_loadObject _).bind fun content _ => (ends_saveObject _).bind
            fun copy _ => ih _
      · exact ih _

/-- The nodes of a tree are copied unless an object is missing, so the parent of a copy is there. -/
theorem ends_copyNodes (copies : Copies) (parents : AfterParents [node.id] rest) :
    Ends (copyNodes node.id copies .empty (node :: rest))
      (fun made => made.length = rest.length + 1) ObjectMissing := by
  intro store
  rcases copyWhole_cases copies parents with
    ⟨copy, others, after, done, count⟩ | ⟨_, ref, after, _, _, failed⟩
  · rw [done]
    exact .inl ⟨copy :: others, rfl, congrArg Nat.succ count⟩
  · rw [failed]
    exact .inr ⟨_, rfl, ref, rfl⟩

/-- A tree is copied unless an object is missing. -/
theorem missing_of_cloneTree {cause : Error} (parents : AfterParents [node.id] rest)
    (listed : loadSubtree node.id store = (.ok (node :: rest), after))
    (failed : (cloneTree node store).1 = .error cause) : ObjectMissing cause := by
  have started := fails_transaction failed
  rw [bind_of_ok listed] at started
  refine (show Ends _ (fun _ => True) ObjectMissing from ?_).fails_of_error started
  refine (ends_copyDefinitions _ _).bind fun defined _ => ?_
  refine (ends_copyContents _ _).bind fun copies _ => ?_
  refine (ends_copyNodes copies parents).bind fun made count => ?_
  cases made with
  | nil => cases count
  | cons copy _ => exact .pure trivial

end Tree

/-! ## The whole listing -/

/--
In every store that edits lead to, the loop over the stack comes to an end after one pass for each
node of a tree, and lists the root and then everything below it in the order of `Enumerates`.
Reading and visiting a tree give this list.  A copy of the tree takes the nodes in its order and
fails only if an object is missing, never for want of a parent.
-/
theorem Reachable.enumerates {store : Store} {node : Node} (reachable : Reachable store)
    (stored : store.records.nodes.get? node.id = some node) :
    ∃ rest, Enumerates store.records node rest ∧
      (Walk.pass store.records)^[rest.length + 1] (.start node) = ⟨[], node :: rest⟩ ∧
      (∀ passes ≤ rest.length,
        ((Walk.pass store.records)^[passes] (.start node)).pending ≠ []) ∧
      loadSubtree node.id store =
        (.ok (node :: rest), { store with fetches := store.fetches + 1 }) ∧
      Tree.traverse node store =
        (.ok (node :: rest), { store with fetches := store.fetches + 1 }) ∧
      Tree.descendants node store = (.ok rest, { store with fetches := store.fetches + 1 }) ∧
      (∀ copies, Ends (Tree.copyNodes node.id copies .empty (node :: rest))
        (fun made => made.length = rest.length + 1) Tree.ObjectMissing) ∧
      ∀ cause, (Tree.cloneTree node store).1 = .error cause → Tree.ObjectMissing cause := by
  have tidy := reachable.tidy
  rcases tidy.subtree_enumerates stored with ⟨rest, listed, listing, enumerates⟩
  rcases tidy.linked.passes_eq stored listed with ⟨whole, not_before⟩
  have loaded : loadSubtree node.id store =
      (.ok (node :: rest), { store with fetches := store.fetches + 1 }) :=
    fetch_eq_ok.mpr ⟨listed, rfl⟩
  refine ⟨rest, enumerates, whole, fun passes few => not_before passes (Nat.lt_succ_of_le few),
    loaded, loaded, ?_, fun copies => Tree.ends_copyNodes copies listing.after,
    fun cause => Tree.missing_of_cloneTree listing.after loaded⟩
  rw [Tree.descendants, bind_of_ok loaded]
  rfl

/-- A block with two statements, of which the first has two parts. -/
def nested : Store :=
  (Tree.addChild ⟨2⟩ (.integer 2) (Tree.addChild ⟨2⟩ (.text "b") (Tree.addChild ⟨1⟩ (.text "a")
    (Tree.addChild ⟨1⟩ .assignment (Tree.addRoot none Store.empty).2).2).2).2).2

/-- The second statement is listed before the first, and then the parts of the first. -/
theorem enumerates_nested : ∃ rest, Enumerates nested.records ⟨⟨1⟩, none, 0, none⟩ rest ∧
    rest.map Node.id = [⟨3⟩, ⟨2⟩, ⟨5⟩, ⟨4⟩] := by
  have reachable : Reachable nested :=
    .addChild _ _ (.addChild _ _ (.addChild _ _ (.addChild _ _ (.addRoot none .empty))))
  have stored : nested.records.nodes.get? (Node.mk ⟨1⟩ none 0 none).id =
      some ⟨⟨1⟩, none, 0, none⟩ := by rfl
  rcases Reachable.enumerates reachable stored with ⟨rest, enumerates, _, _, loaded, _⟩
  have numbers : (nested.records.subtree ⟨1⟩).map (List.map Node.id) =
      .ok [⟨1⟩, ⟨3⟩, ⟨2⟩, ⟨5⟩, ⟨4⟩] := by cbv
  rw [(fetch_eq_ok.mp loaded).1] at numbers
  exact ⟨rest, enumerates, (List.cons.inj (Except.ok.inj numbers)).2⟩

end RuleTree
