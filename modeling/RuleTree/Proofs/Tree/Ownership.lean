import RuleTree.Proofs.Tree.Dismantling

/-!
# Objects and the nodes around them

Invariants of whole stores.  `Records.Owned` says that every node has its object to itself and
that nothing is stored without need; building keeps it if every new object gets one new node.
`Records.Intact` says that what nodes and variables refer to is stored, apart from what a deletion
took away although something outside of the deleted tree referred to it (`Records.Exposed`).
-/

namespace RuleTree.Records

variable {before after records : Records} {made wrapped : List ContentRef} {root : NodeId}
  {lost : ContentRef → Prop}

/-! ## Numbers of what nodes wrap -/

/-- Whatever a node wraps has a number that was given out, whether or not it is still stored. -/
def WrapsGiven (records : Records) : Prop :=
  ∀ id ref, records.Wraps id ref → ref.id.val ≤ records.lastObject

theorem wrapsGiven_empty : WrapsGiven empty := by
  rintro id ref ⟨node, found, _⟩
  cases found

namespace WrapsGiven

theorem builds (given : WrapsGiven before) (linked : Linked before)
    (builds : Builds before made wrapped after) : WrapsGiven after := by
  intro id ref wraps
  rcases builds.wraps_cases linked wraps with old | ⟨_, content, found⟩
  · exact Int.le_trans (given id ref old) (builds.grown linked).lastObject_le
  · exact ((builds.linked linked).addressed found).1

theorem repositioned {place : NodeId → Nat → Nat} (given : WrapsGiven before)
    (moved : Repositioned place before after) : WrapsGiven after := by
  intro id ref wraps
  rw [moved.lastObject]
  exact given id ref (moved.wraps_iff.mp wraps)

theorem dismantled (given : WrapsGiven before) (gone : Dismantled root before after) :
    WrapsGiven after := by
  intro id ref wraps
  rw [gone.lastObject]
  exact given id ref (gone.wraps_iff.mp wraps).1

end WrapsGiven

/-! ## One node for each object -/

/-- A definition that may be stored without a node: it has a source, or some variable names it. -/
structure Spare (records : Records) (ref : ContentRef) : Prop where
  definition : ref.kind = .definition
  named : ∀ {name}, records.objects.get? ref = some (.definition name none) →
    ∃ use, records.objects.get? use = some (.use ref.id)

/-- Every node wraps a stored object, each its own.  Every object has a node, apart from definitions
that come with a source or that some variable names. -/
structure Owned (records : Records) : Prop where
  stored : ∀ {id ref}, records.Wraps id ref → ∃ content, records.objects.get? ref = some content
  unshared : ∀ {id other ref}, records.Wraps id ref → records.Wraps other ref → id = other
  needed : ∀ {ref content}, records.objects.get? ref = some content →
    (∃ id, records.Wraps id ref) ∨ records.Spare ref

theorem owned_empty : Owned empty where
  stored wraps := by
    rcases wraps with ⟨node, found, _⟩
    cases found
  unshared wraps := by
    rcases wraps with ⟨node, found, _⟩
    cases found
  needed found := by cases found

namespace Owned

/-- New nodes go around different new objects, and no new object is left over. -/
theorem builds (owned : Owned before) (linked : Linked before)
    (builds : Builds before made wrapped after) (distinct : wrapped.Nodup)
    (own : ∀ ref ∈ wrapped, ref ∈ made)
    (used : ∀ ref ∈ made, ref ∈ wrapped ∨ after.Spare ref) : Owned after where
  stored wraps := by
    rcases builds.wraps_cases linked wraps with old | ⟨_, present⟩
    · rcases owned.stored old with ⟨content, found⟩
      exact ⟨content, (builds.grown linked).objects found⟩
    · exact present
  unshared wraps wraps' := by
    apply builds.unshared linked owned.unshared distinct ?_ wraps wraps'
    intro ref member id old
    rcases owned.stored old with ⟨content, found⟩
    have bound := (linked.addressed found).1
    have above := (builds.of_mem_made linked (own ref member)).1
    omega
  needed {ref content} found := by
    rcases builds.mem_made found with old | new
    · rcases owned.needed old with ⟨id, wraps⟩ | spare
      · exact .inl ⟨id, builds.wraps linked wraps⟩
      · refine .inr ⟨spare.definition, ?_⟩
        intro name found'
        rw [found] at found'
        cases found'
        rcases spare.named old with ⟨use, use_found⟩
        exact ⟨use, (builds.grown linked).objects use_found⟩
    · rcases used ref new with member | spare
      · exact .inl (builds.wraps_of_mem linked member)
      · exact .inr spare

theorem repositioned {place : NodeId → Nat → Nat} (owned : Owned before)
    (moved : Repositioned place before after) : Owned after where
  stored wraps := by
    rw [moved.objects]
    exact owned.stored (moved.wraps_iff.mp wraps)
  unshared wraps wraps' := owned.unshared (moved.wraps_iff.mp wraps) (moved.wraps_iff.mp wraps')
  needed found := by
    rw [moved.objects] at found
    rcases owned.needed found with ⟨id, wraps⟩ | ⟨definition, named⟩
    · exact .inl ⟨id, moved.wraps_iff.mpr wraps⟩
    · exact .inr ⟨definition, fun found => moved.objects ▸ named (moved.objects ▸ found)⟩

/-- What a deletion leaves is still needed: a local definition whose last use went is freed. -/
theorem dismantled (owned : Owned before)
    (dismantled : Dismantled root before after) : Owned after where
  stored {id ref} wraps := by
    rcases dismantled.wraps_iff.mp wraps with ⟨wraps, outside⟩
    rcases owned.stored wraps with ⟨content, found⟩
    refine ⟨content, (dismantled.kept ?_ ?_).trans found⟩
    · rintro ⟨inner, node, within, inner_found, content⟩
      rcases owned.unshared wraps ⟨node, inner_found, content⟩ with rfl
      exact outside within
    · intro freed
      rcases wraps with ⟨node, found, content⟩
      exact freed.unwrapped found content
  unshared wraps wraps' :=
    owned.unshared (dismantled.wraps_iff.mp wraps).1 (dismantled.wraps_iff.mp wraps').1
  needed {ref content} found := by
    rcases dismantled.stored_before found with ⟨old, not_referenced, not_freed⟩
    by_cases wrapped : ∃ id, before.Wraps id ref
    · rcases wrapped with ⟨id, wraps⟩
      refine .inl ⟨id, dismantled.wraps_iff.mpr ⟨wraps, fun within => not_referenced ?_⟩⟩
      rcases wraps with ⟨node, node_found, content⟩
      exact ⟨id, node, within, node_found, content⟩
    · rcases owned.needed old with ⟨id, wraps⟩ | ⟨definition, named⟩
      · exact absurd ⟨id, wraps⟩ wrapped
      · refine .inr ⟨definition, ?_⟩
        intro name found'
        rw [found] at found'
        cases found'
        by_contra unnamed
        -- No use is left, so all uses went with the tree and the definition was freed.
        have gone {use : ContentRef} (use_found : before.objects.get? use = some (.use ref.id)) :
            before.Referenced root use := by
          by_contra stays
          refine unnamed ⟨use, (dismantled.kept stays ?_).trans use_found⟩
          rintro ⟨⟨_, local_definition⟩, _, _, _⟩
          rw [use_found] at local_definition
          cases local_definition
        rcases named old with ⟨use, use_found⟩
        exact not_freed
          { local_definition := ⟨name, old⟩
            unwrapped := fun node_found content => wrapped ⟨_, _, node_found, content⟩
            used := ⟨use, gone use_found, use_found⟩
            only_there := gone }

end Owned

/-! ## What is referred to is there -/

/-- Something outside of a tree refers to an object that the tree wraps: another node wraps it, or a
variable names it. -/
def Exposed (records : Records) (root : NodeId) (ref : ContentRef) : Prop :=
  records.Referenced root ref ∧
    ((∃ id, ¬records.Within root id ∧ records.Wraps id ref) ∨
      ref.kind = .definition ∧ ∃ use, ¬records.Referenced root use ∧
        records.objects.get? use = some (.use ref.id))

/-- The objects of nodes and the definitions of variables are stored, apart from some that are lost.
What is lost is not made again, since its number was given out before. -/
structure Intact (lost : ContentRef → Prop) (records : Records) : Prop where
  counted : ∀ {id ref}, records.Wraps id ref → ref.id.val ≤ records.lastObject
  contents : ∀ {id ref}, records.Wraps id ref →
    (∃ content, records.objects.get? ref = some content) ∨ lost ref
  definitions : ∀ {use definition}, records.objects.get? use = some (.use definition) →
    (∃ content, records.objects.get? ⟨.definition, definition⟩ = some content) ∨
      lost ⟨.definition, definition⟩
  missing : ∀ {ref}, lost ref →
    ref.id.val ≤ records.lastObject ∧ records.objects.get? ref = none

theorem intact_empty : Intact (fun _ => False) empty where
  counted := wrapsGiven_empty _ _
  contents wraps := by
    rcases wraps with ⟨node, found, _⟩
    cases found
  definitions found := by cases found
  missing impossible := impossible.elim

namespace Intact

/-- Every variable that was made names a definition that is stored, or a lost one. -/
theorem builds (intact : Intact lost before) (linked : Linked before)
    (builds : Builds before made wrapped after)
    (named : ∀ {use definition}, after.objects.get? use = some (.use definition) →
      before.objects.get? use = some (.use definition) ∨
        (∃ content, after.objects.get? ⟨.definition, definition⟩ = some content) ∨
          lost ⟨.definition, definition⟩) :
    Intact lost after where
  counted := WrapsGiven.builds (fun _ _ => intact.counted) linked builds _ _
  contents wraps := by
    rcases builds.wraps_cases linked wraps with old | ⟨_, present⟩
    · rcases intact.contents old with ⟨content, found⟩ | gone
      · exact .inl ⟨content, (builds.grown linked).objects found⟩
      · exact .inr gone
    · exact .inl present
  definitions found := by
    rcases named found with old | present
    · rcases intact.definitions old with ⟨content, found⟩ | gone
      · exact .inl ⟨content, (builds.grown linked).objects found⟩
      · exact .inr gone
    · exact present
  missing {ref} gone := by
    rcases intact.missing gone with ⟨bound, absent⟩
    refine ⟨Int.le_trans bound (builds.grown linked).lastObject_le, ?_⟩
    cases found : after.objects.get? ref with
    | none => rfl
    | some content =>
        rcases builds.mem_made found with old | new
        · rw [absent] at old
          cases old
        · have above := (builds.of_mem_made linked new).1
          omega

theorem repositioned {place : NodeId → Nat → Nat} (intact : Intact lost before)
    (moved : Repositioned place before after) : Intact lost after where
  counted := WrapsGiven.repositioned (fun _ _ => intact.counted) moved _ _
  contents wraps := by
    rw [moved.objects]
    exact intact.contents (moved.wraps_iff.mp wraps)
  definitions found := by
    rw [moved.objects] at found ⊢
    exact intact.definitions found
  missing gone := by
    rw [moved.objects, moved.lastObject]
    exact intact.missing gone

theorem dismantled (intact : Intact lost before) (dismantled : Dismantled root before after) :
    Intact (fun ref => lost ref ∨ before.Exposed root ref) after where
  counted := WrapsGiven.dismantled (fun _ _ => intact.counted) dismantled _ _
  contents {id ref} wraps := by
    rcases dismantled.wraps_iff.mp wraps with ⟨wraps, outside⟩
    by_cases referenced : before.Referenced root ref
    · exact .inr (.inr ⟨referenced, .inl ⟨id, outside, wraps⟩⟩)
    · rcases intact.contents wraps with ⟨content, found⟩ | gone
      · refine .inl ⟨content, (dismantled.kept referenced ?_).trans found⟩
        intro freed
        rcases wraps with ⟨node, node_found, content⟩
        exact freed.unwrapped node_found content
      · exact .inr (.inl gone)
  definitions {use definition} found := by
    rcases dismantled.stored_before found with ⟨old, use_stays, _⟩
    by_cases referenced : before.Referenced root ⟨.definition, definition⟩
    · exact .inr (.inr ⟨referenced, .inr ⟨rfl, use, use_stays, old⟩⟩)
    · rcases intact.definitions old with ⟨content, found⟩ | gone
      · refine .inl ⟨content, (dismantled.kept referenced ?_).trans found⟩
        exact fun freed => use_stays (freed.only_there old)
      · exact .inr (.inl gone)
  missing {ref} gone := by
    rw [dismantled.lastObject]
    rcases gone with gone | ⟨⟨id, node, within, found, content⟩, _⟩
    · rcases intact.missing gone with ⟨bound, absent⟩
      refine ⟨bound, ?_⟩
      cases left : after.objects.get? ref with
      | none => rfl
      | some content =>
          rw [(dismantled.stored_before left).1] at absent
          cases absent
    · exact ⟨intact.counted ⟨node, found, content⟩,
        dismantled.gone (.inl ⟨id, node, within, found, content⟩)⟩

end Intact

end RuleTree.Records

namespace RuleTree

open Records

variable {records : Records}

theorem Complete.intact (complete : Complete records) (linked : Linked records) :
    Intact (fun _ => False) records where
  counted wraps := by
    rcases wraps with ⟨node, found, content⟩
    rcases complete.contents found content with ⟨object, stored⟩
    exact (linked.addressed stored).1
  contents wraps := by
    rcases wraps with ⟨node, found, content⟩
    exact .inl (complete.contents found content)
  definitions found := .inl (complete.definitions found)
  missing impossible := impossible.elim

theorem Records.Intact.complete (intact : Intact (fun _ => False) records) : Complete records where
  contents found content := (intact.contents ⟨_, found, content⟩).resolve_right id
  definitions found := (intact.definitions found).resolve_right id

end RuleTree
