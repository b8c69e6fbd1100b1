import RuleTree.Proofs.Block.RoundTrip

/-!
# What a document is read as

The image of a stored node is said without figures and without the document: it has the kind and the
literals of the object, the number of the node if numbers are shown, and the images of the children
that are no definitions.  A node has at most one image (`Block.Image.unique`), and reading the
document of a tree gives the images of what was written (`Reachable.images_of_read`).
-/

namespace RuleTree.Block

open Records

variable {records : Records} {ids : Bool}

/-! ## Images -/

/-- What the image of an object says besides the kind.  The use of a variable says the name that its
definition has; a definition has no image. -/
def literals? (records : Records) : Content → Option (List (String × Json))
  | .integer n => some [("value", .int n.toInt)]
  | .float x => some [("value", Json.ofFloat x)]
  | .text s => some [("value", .str s)]
  | .boolean b => some [("value", .bool b)]
  | .date d => some [("value", .str d.text)]
  | .reference r => some [("model", .str r.model), ("value", .int r.id.toInt)]
  | .use definition =>
    match records.objects.get? ⟨.definition, definition⟩ with
    | some (.definition name _) => some [("name", .str name)]
    | _ => none
  | .definition _ _ => none
  | .assignment => some []
  | .binary symbol | .unary symbol => some [("operator", .str symbol)]
  | .call title => some [("definition", .str title)]

/-- Data in the order of their keys carry a kind, a number if one is shown, some literals, and
nothing else. -/
structure Carries (kind : Kind) (number : Option String) (literals : List (String × Json))
    (data : Fields) : Prop where
  sorted : Entries.Sorted data
  content_type : Entries.get? "content_type" data = some (.str kind.tag)
  id : Entries.get? "id" data = number.map .str
  others : ∀ key, key ≠ "content_type" → key ≠ "id" →
    Entries.get? key data = Entries.get? key literals

/-- The data carry the kind and the literals of the object that a node wraps, and the number of the
node if it is shown. -/
def Describes (records : Records) (ids : Bool) (node : Node) (content : Content) (data : Fields) :
    Prop :=
  ∃ ref literals, node.content = some ref ∧ records.objects.get? ref = some content ∧
    literals? records content = some literals ∧
      Carries content.kind (if ids then some node.id.text else none) literals data

mutual

/-- The sketch is the image of a stored node. -/
inductive Image (records : Records) (ids : Bool) : Node → Sketch → Prop where
  /-- Whatever hangs below a constant or a variable is not in its image. -/
  | leaf {node : Node} {content : Content} {data : Fields} :
      Describes records ids node content data → content.arity = .fixed 0 →
        Image records ids node ⟨data, []⟩
  | operator {node : Node} {content : Content} {data : Fields} {children : List Sketch} :
      Describes records ids node content data → content.arity ≠ .fixed 0 →
        content ≠ .assignment → Images records ids (shown records node.id) children →
          Image records ids node ⟨data, children⟩
  /-- In the place of its variable an assignment has the bare name. -/
  | assignment {node target : Node} {others : List Node} {name : String} {data bare : Fields}
      {values : List Sketch} :
      Describes records ids node .assignment data →
        shown records node.id = target :: others → UsesName records name target →
          Carries .use none [("name", .str name)] bare → Images records ids others values →
            Image records ids node ⟨data, ⟨bare, []⟩ :: values⟩

/-- The sketches are the images of several nodes, in order. -/
inductive Images (records : Records) (ids : Bool) : List Node → List Sketch → Prop where
  | nil : Images records ids [] []
  | cons {node : Node} {nodes : List Node} {sketch : Sketch} {sketches : List Sketch} :
      Image records ids node sketch → Images records ids nodes sketches →
        Images records ids (node :: nodes) (sketch :: sketches)

end

/-! ## Uniqueness -/

theorem UsesName.unique {target : Node} {name name' : String}
    (uses : UsesName records name target) (uses' : UsesName records name' target) :
    name = name' := by
  rcases uses with ⟨ref, definition, source, wraps, use, stored⟩
  rcases uses' with ⟨ref', definition', source', wraps', use', stored'⟩
  cases Option.some.inj (wraps.symm.trans wraps')
  cases Option.some.inj (use.symm.trans use')
  cases Option.some.inj (stored.symm.trans stored')
  rfl

theorem Carries.unique {kind : Kind} {number : Option String} {literals : List (String × Json)}
    {data data' : Fields} (carries : Carries kind number literals data)
    (carries' : Carries kind number literals data') : data = data' := by
  refine carries.sorted.eq_of_get?_eq carries'.sorted fun key => ?_
  by_cases kind_key : key = "content_type"
  · rw [kind_key, carries.content_type, carries'.content_type]
  · by_cases number_key : key = "id"
    · rw [number_key, carries.id, carries'.id]
    · rw [carries.others key kind_key number_key, carries'.others key kind_key number_key]

theorem Describes.unique {node : Node} {content content' : Content} {data data' : Fields}
    (describes : Describes records ids node content data)
    (describes' : Describes records ids node content' data') :
    content = content' ∧ data = data' := by
  rcases describes with ⟨ref, literals, wraps, stored, spelled, carries⟩
  rcases describes' with ⟨ref', literals', wraps', stored', spelled', carries'⟩
  cases Option.some.inj (wraps.symm.trans wraps')
  cases Option.some.inj (stored.symm.trans stored')
  cases Option.some.inj (spelled.symm.trans spelled')
  exact ⟨rfl, carries.unique carries'⟩

mutual

theorem Image.unique : ∀ {node : Node} {sketch sketch' : Sketch}, Image records ids node sketch →
    Image records ids node sketch' → sketch = sketch'
  | _, _, _, .leaf describes slotless, other => by
      cases other with
      | leaf describes' _ =>
          rcases describes.unique describes' with ⟨rfl, rfl⟩
          rfl
      | operator describes' slots _ _ =>
          rcases describes.unique describes' with ⟨rfl, _⟩
          exact absurd slotless slots
      | assignment describes' _ _ _ _ =>
          rcases describes.unique describes' with ⟨rfl, _⟩
          cases slotless
  | _, _, _, .operator describes slots different below, other => by
      cases other with
      | leaf describes' slotless =>
          rcases describes.unique describes' with ⟨rfl, _⟩
          exact absurd slotless slots
      | operator describes' _ _ below' =>
          rcases describes.unique describes' with ⟨rfl, rfl⟩
          rw [Images.unique below below']
      | assignment describes' _ _ _ _ =>
          exact absurd (describes.unique describes').1 different
  | _, _, _, .assignment describes listed uses carries below, other => by
      cases other with
      | leaf describes' slotless =>
          rcases describes.unique describes' with ⟨rfl, _⟩
          cases slotless
      | operator describes' _ different _ =>
          exact absurd (describes.unique describes').1.symm different
      | assignment describes' listed' uses' carries' below' =>
          rcases describes.unique describes' with ⟨_, rfl⟩
          cases listed.symm.trans listed'
          rcases uses.unique uses' with rfl
          rw [carries.unique carries', Images.unique below below']

theorem Images.unique : ∀ {nodes : List Node} {sketches sketches' : List Sketch},
    Images records ids nodes sketches → Images records ids nodes sketches' → sketches = sketches'
  | _, _, _, .nil, other => by
      cases other
      rfl
  | _, _, _, .cons image images, other => by
      cases other with
      | cons image' images' => rw [Image.unique image image', Images.unique images images']

end

/-! ## Sketches of figures -/

/-- The data of a mark are the kind and the literals of the object. -/
theorem literals?_of_marks {content : Content} {mark : Mark} (marks : Marks records content mark) :
    ∃ literals, literals? records content = some literals ∧
      mark.data = Sketch.dataOf content.kind literals := by
  cases marks with
  | use defined => exact ⟨[("name", .str _)], by simp [literals?, defined], rfl⟩
  | binary known => exact ⟨_, rfl, by rw [← BinaryOp.symbol_of_ofSymbol? known]; rfl⟩
  | unary known => exact ⟨_, rfl, by rw [← UnaryOp.symbol_of_ofSymbol? known]; rfl⟩
  | _ => exact ⟨_, rfl, rfl⟩

/-- The literals of an object have keys of their own, and no key comes twice. -/
structure Unmixed (literals : List (String × Json)) : Prop where
  distinct : (literals.map Prod.fst).Nodup
  content_type : "content_type" ∉ literals.map Prod.fst
  id : "id" ∉ literals.map Prod.fst

theorem unmixed_literals? {content : Content} {literals : List (String × Json)}
    (spelled : literals? records content = some literals) : Unmixed literals := by
  cases content with
  | use definition =>
      simp only [literals?] at spelled
      split at spelled
      · cases spelled
        constructor <;> simp
      · cases spelled
  | definition => cases spelled
  | _ =>
      cases spelled
      constructor <;> simp

theorem sorted_entered {entries data : Fields} (sorted : Entries.Sorted data) :
    Entries.Sorted
      (entries.foldl (fun data entry => Entries.insert entry.1 entry.2 data) data) := by
  induction entries generalizing data with
  | nil => exact sorted
  | cons entry rest ih => exact ih (sorted.insert entry.1 entry.2)

/-- Where no key comes twice, entering entries one by one makes each of them found. -/
theorem get?_entered {entries data : Fields} (distinct : (entries.map Prod.fst).Nodup)
    (key : String) :
    Entries.get? key
        (entries.foldl (fun data entry => Entries.insert entry.1 entry.2 data) data) =
      (Entries.get? key entries).or (Entries.get? key data) := by
  induction entries generalizing data with
  | nil => rfl
  | cons entry rest ih =>
      rcases List.nodup_cons.mp distinct with ⟨unlisted, distinct⟩
      rw [List.foldl_cons, ih distinct, Entries.get?_insert, Entries.get?]
      by_cases here : entry.1 = key
      · rw [if_pos here, if_pos here, Entries.get?_eq_none_of_forall_ne]
        · rfl
        · rintro other member rfl
          exact unlisted (here ▸ List.mem_map_of_mem member)
      · rw [if_neg here, if_neg here]

/-- Data that are put together for a kind carry the kind and the literals. -/
theorem Unmixed.carries {literals : List (String × Json)} (unmixed : Unmixed literals) (kind : Kind)
    (number : Option String) :
    Carries kind number literals (Figure.withId number (Sketch.dataOf kind literals)) := by
  have sorted : Entries.Sorted (Sketch.dataOf kind literals) :=
    sorted_entered (List.pairwise_singleton _ _)
  have entered (key : String) := @get?_entered literals [("content_type", Json.str kind.tag)]
    unmixed.distinct key
  have absent {key : String} (unlisted : key ∉ literals.map Prod.fst) :
      Entries.get? key literals = none := by
    refine Entries.get?_eq_none_of_forall_ne ?_
    rintro entry member rfl
    exact unlisted (List.mem_map_of_mem member)
  constructor
  · cases number with
    | none => exact sorted
    | some number => exact sorted.insert "id" (Json.str number)
  · rw [get?_withId (by decide)]
    exact (entered _).trans (by rw [absent unmixed.content_type]; rfl)
  · cases number with
    | none => exact (entered _).trans (by rw [absent unmixed.id]; rfl)
    | some number =>
        show Entries.get? "id" (Entries.insert "id" (Json.str number) _) = _
        rw [Entries.get?_insert, if_pos rfl]
        rfl
  · intro key kind_key number_key
    rw [get?_withId number_key]
    refine (entered key).trans ?_
    rw [Entries.get?, if_neg (Ne.symm kind_key), Entries.get?_nil, Option.or_none]

mutual

/-- What a figure is read as is the image of the node that it draws. -/
theorem image_of_draws : ∀ {figure : Figure} {node : Node}, Draws records ids figure node →
    Image records ids node figure.sketch
  | ⟨mark, _, operands⟩, node, ⟨rfl, ⟨ref, content, wraps, stored, marks⟩, others, own, draws⟩ => by
      have describes : Describes records ids node content
          (Figure.withId (if ids then some node.id.text else none) mark.data) := by
        rcases literals?_of_marks marks with ⟨literals, spelled, same⟩
        rw [same]
        exact ⟨ref, literals, wraps, stored, spelled, (unmixed_literals? spelled).carries _ _⟩
      have images := images_of_draws draws
      cases marks with
      | assignment name =>
          rcases own with ⟨target, listed, uses⟩
          have bare : Unmixed [("name", Json.str name)] := by constructor <;> simp
          exact .assignment describes listed uses (bare.carries .use none) images
      | binary known | unary known | call title =>
          cases own
          exact .operator describes (by simp [Content.arity, Content.kind, Kind.arity]) (by simp)
            images
      | _ =>
          -- No child of a constant or a variable is an operand.
          cases own
          cases operands with
          | nil => exact .leaf describes rfl
          | cons figure rest =>
              rcases draws with ⟨_, _, impossible, _⟩
              cases impossible

theorem images_of_draws : ∀ {figures : List Figure} {nodes : List Node},
    DrawsAll records ids figures nodes → Images records ids nodes (Figure.sketches figures)
  | [], _, empty => by
      cases empty
      exact .nil
  | _ :: _, _, ⟨_, _, same, here, draws⟩ => by
      cases same
      exact .cons (image_of_draws here) (images_of_draws draws)

end

end Block

/-- Whenever a stored tree has a document, with or without the numbers of the nodes and however the
tree is read, the document is read as the images of the statements that were written, and these
have no other images. -/
theorem Reachable.images_of_read {store : Store} (reachable : Reachable store) {node : Node}
    {access : Access} {ids : Bool} {text : String}
    (stored : store.records.nodes.get? node.id = some node)
    (built : (Block.build store.records access ids node Reading.start).1 = .ok text) :
    ∃ sketches, Block.read text = .ok sketches ∧
      ∀ others, Block.Images store.records ids (Block.written store.records node) others ↔
        others = sketches := by
  rcases Block.figures_of_build reachable.tidy stored built with ⟨figures, draws, fit, rfl⟩
  have images := Block.images_of_draws draws
  refine ⟨Block.Figure.sketches figures, Block.read_document fit, fun others => ⟨?_, ?_⟩⟩
  · exact fun other => other.unique images
  · rintro rfl
    exact images

/-- A block with one assignment in it, read back. -/
theorem images_of_read_assignment : ∃ store node text, Reachable store ∧
    store.records.nodes.get? node.id = some node ∧
      (Block.build store.records .cached false node Reading.start).1 = .ok text ∧
        ∃ sketches, Block.read text = .ok sketches ∧
          ∀ others, Block.Images store.records false (Block.written store.records node) others ↔
            others = sketches := by
  rcases Block.exists_create_oneFigure with ⟨node, store, _, reachable, sound, draws⟩
  have built := @Block.build_of_draws _ reachable.tidy .cached _ _ _ sound.stored
    (fun _ => sound) draws Block.allFit_oneFigure
  exact ⟨store, node, _, reachable, sound.stored, built,
    reachable.images_of_read sound.stored built⟩

end RuleTree
