import RuleTree.Content.Kind
import RuleTree.Number.Digits

/-!
# Identities of nodes and content objects

Nodes have numbers of their own. Content objects are numbered too, and are addressed by their kind
together with the number.
-/

namespace RuleTree

/-- The number of a node. -/
structure NodeId where
  val : Int
deriving DecidableEq, Inhabited

/-- The number of a content object among the objects of its kind. -/
structure ObjectId where
  val : Int
deriving DecidableEq, Inhabited

/-- The address of a content object. -/
structure ContentRef where
  kind : Kind
  id : ObjectId
deriving DecidableEq

instance : Ord NodeId := ⟨compareOn NodeId.val⟩
instance : Ord ObjectId := ⟨compareOn ObjectId.val⟩

/-- Objects are listed by kind, in the order of the kinds, and then by number. -/
def ContentRef.order : ContentRef → ContentRef → Ordering :=
  compareLex (compareOn fun ref => ref.kind.rank) (compareOn fun ref => ref.id.val)

instance : Ord ContentRef := ⟨ContentRef.order⟩

instance : Std.TransOrd NodeId := inferInstanceAs (Std.TransCmp (compareOn NodeId.val))
instance : Std.TransOrd ObjectId := inferInstanceAs (Std.TransCmp (compareOn ObjectId.val))
instance : Std.TransOrd ContentRef :=
  inferInstanceAs (Std.TransCmp (compareLex (compareOn fun ref : ContentRef => ref.kind.rank)
    (compareOn fun ref : ContentRef => ref.id.val)))

instance : Std.LawfulEqOrd NodeId where
  eq_of_compare {a b} same := by
    cases a; cases b
    exact congrArg NodeId.mk (Std.LawfulEqOrd.eq_of_compare (α := Int) same)

instance : Std.LawfulEqOrd ObjectId where
  eq_of_compare {a b} same := by
    cases a; cases b
    exact congrArg ObjectId.mk (Std.LawfulEqOrd.eq_of_compare (α := Int) same)

instance : Std.LawfulEqOrd ContentRef where
  eq_of_compare {a b} same := by
    obtain ⟨kind, number⟩ := a
    obtain ⟨kind', number'⟩ := b
    have parts := Ordering.then_eq_eq.mp same
    have kinds : kind = kind' :=
      Kind.rank_injective (Std.LawfulEqOrd.eq_of_compare (α := Nat) parts.1)
    have numbers : number = number' := by
      cases number; cases number'
      exact congrArg ObjectId.mk (Std.LawfulEqOrd.eq_of_compare (α := Int) parts.2)
    rw [kinds, numbers]

/-- The text of an integer identity. -/
def idText (n : Int) : String := String.ofList (Digits.writeInt n)

/-- The text of a node's number. -/
def NodeId.text (id : NodeId) : String := idText id.val

/-- The text of an object's number. -/
def ObjectId.text (id : ObjectId) : String := idText id.val

/-- The kind and the number of an object. -/
def ContentRef.text (ref : ContentRef) : String := ref.kind.tag ++ "#" ++ ref.id.text

end RuleTree
