import RuleTree.Proofs.Block.Describing
import RuleTree.Proofs.Block.Layout
import RuleTree.Proofs.Creation.Resemblance

/-!
# What a document is read as

Whatever a document looks like, what it is read as resembles the sketches of figures
(`Block.figures_of_read`).  The spelling of numbers and dates, what is in a block beside its fields
and slots, and the numbers of blocks leave no trace in what is stored.
-/

namespace RuleTree.Block

open Creation

/-! ## The data of a block -/

theorem numberData_eq_ok {blockType : String} {raw : List Char} {data : Fields}
    (read : numberData blockType raw = .ok data) :
    ∃ mark : Mark, mark.target = [] ∧ data = mark.data := by
  unfold numberData at read
  split at read
  · rcases Answer.bind_eq_ok.mp read with ⟨x, _, same⟩
    cases same
    exact ⟨.float x, rfl, rfl⟩
  · rcases Answer.bind_eq_ok.mp read with ⟨n, _, same⟩
    cases same
    exact ⟨.integer n, rfl, rfl⟩

theorem operatorData_eq_ok {blockType : String} {code : Option String} {data : Fields}
    (read : operatorData blockType code = .ok data) :
    ∃ mark : Mark, mark.target = [] ∧ data = mark.data := by
  unfold operatorData at read
  split at read
  · rename_i op _
    cases read
    exact ⟨.binary op, rfl, rfl⟩
  · split at read
    · rename_i op _
      cases read
      exact ⟨.unary op, rfl, rfl⟩
    · cases read

/-- A date is the same object however it is spelled. -/
theorem interchangeable_date {raw : List Char} {d : Date} (read : Date.read? raw = some d) :
    Interchangeable (Sketch.dataOf .date [("value", .str (String.ofList raw))])
      (Mark.date d).data := by
  refine ⟨fun key _ no_value => ?_, fun functions kind kind_eq => ?_⟩
  · simp [Mark.data, Sketch.dataOf, Entries.get?_insert, Ne.symm no_value]
  · have tagged : kindOf (Sketch.dataOf .date [("value", .str (String.ofList raw))]) =
        .ok .date := by
      simp [kindOf, Sketch.dataOf, Entries.get?_insert, Entries.get?, Json.asStr?, Kind.ofTag?_tag]
    rw [tagged] at kind_eq
    cases kind_eq
    simp [contentOf, require, Mark.data, Sketch.dataOf, Entries.get?_insert, Json.asStr?, Date.text,
      Date.read?_write, read]

/-- The data of a block are those of a mark. -/
theorem data_eq_ok {blockType : String} {children : List Element} {data : Fields}
    (read : Block.data blockType children = .ok data) (other : blockType ≠ variablesSet) :
    ∃ mark : Mark, mark.target = [] ∧ Interchangeable data mark.data := by
  suffices exact_or_date : (∃ mark : Mark, mark.target = [] ∧ data = mark.data) ∨
      ∃ raw d, Date.read? raw = some d ∧
        data = Sketch.dataOf .date [("value", .str (String.ofList raw))] by
    rcases exact_or_date with ⟨mark, plain, rfl⟩ | ⟨raw, d, spelled, rfl⟩
    · exact ⟨mark, plain, .refl _⟩
    · exact ⟨.date d, rfl, interchangeable_date spelled⟩
  unfold Block.data at read
  split at read
  · rcases Answer.bind_eq_ok.mp read with ⟨raw, _, read⟩
    exact .inl (numberData_eq_ok read)
  split at read
  · rcases Answer.bind_eq_ok.mp read with ⟨s, _, same⟩
    cases same
    exact .inl ⟨.text s, rfl, rfl⟩
  split at read
  · rcases Answer.bind_eq_ok.mp read with ⟨s, _, read⟩
    split at read
    · cases read
      exact .inl ⟨.boolean true, rfl, rfl⟩
    · cases read
      exact .inl ⟨.boolean false, rfl, rfl⟩
    · cases read
  split at read
  · rcases Answer.bind_eq_ok.mp read with ⟨raw, _, read⟩
    rcases Answer.bind_eq_ok.mp read with ⟨d, spelled, same⟩
    cases same
    unfold valid at spelled
    split at spelled
    · exact .inr ⟨raw, _, by assumption, rfl⟩
    · cases spelled
  split at read
  · rcases Answer.bind_eq_ok.mp read with ⟨model, _, read⟩
    rcases Answer.bind_eq_ok.mp read with ⟨raw, _, read⟩
    rcases Answer.bind_eq_ok.mp read with ⟨id, _, same⟩
    cases same
    exact .inl ⟨.reference ⟨model, id⟩, rfl, rfl⟩
  split at read
  · rcases Answer.bind_eq_ok.mp read with ⟨name, _, same⟩
    cases same
    exact .inl ⟨.use name, rfl, rfl⟩
  split at read
  · rcases Answer.bind_eq_ok.mp read with ⟨title, _, same⟩
    cases same
    exact .inl ⟨.call title, rfl, rfl⟩
  split at read
  · exact .inl (operatorData_eq_ok read)
  · cases read

theorem data_assignment {children : List Element} :
    Block.data variablesSet children = .ok (Sketch.dataOf .assignment []) := by
  simp [Block.data, variablesSet, mathNumber, text, logicBoolean, date, reference, variablesGet]

/-- The number of a block is no part of the object. -/
theorem interchangeable_withId (id : Option String) (data : Fields) :
    Interchangeable (Figure.withId id data) data := by
  refine ⟨fun key no_id _ => get?_withId no_id, fun functions kind _ => ?_⟩
  apply contentOf_congr
  intro key literal
  apply get?_withId
  rintro rfl
  simp [literalKeys] at literal

/-! ## Blocks -/

variable {sketch : Sketch} {sketches : List Sketch}

/-- Some figure is read as a sketch that resembles this one. -/
def Shown (sketch : Sketch) : Prop :=
  ∃ figure : Figure, sketch.Related Interchangeable figure.sketch

def AllShown (sketches : List Sketch) : Prop :=
  ∃ figures, Sketch.RelatedAll Interchangeable sketches (Figure.sketches figures)

theorem AllShown.nil : AllShown [] := ⟨[], rfl⟩

theorem AllShown.cons (here : Shown sketch) (others : AllShown sketches) :
    AllShown (sketch :: sketches) := by
  rcases here with ⟨figure, here⟩
  rcases others with ⟨figures, others⟩
  exact ⟨figure :: figures, _, _, rfl, here, others⟩

/-- The node of a block is that of a mark, with the nodes of what is in its slots below it. -/
theorem marked_node {block : Element} {children : List Sketch}
    (read : node block (.ok children) = .ok sketch) :
    ∃ mark : Mark, Interchangeable sketch.data mark.data ∧
      sketch.children = mark.target ++ children := by
  unfold node at read
  split at read
  · cases read
  · rename_i blockType _
    rw [Answer.ok_bind] at read
    rcases Answer.bind_eq_ok.mp read with ⟨data, data_eq, read⟩
    have numbered := interchangeable_withId (block.attribute? "id") data
    by_cases set : blockType = variablesSet
    · rw [set, data_assignment] at data_eq
      rcases Except.ok.inj data_eq with rfl
      simp only [set, if_true] at read
      rcases Answer.bind_eq_ok.mp read with ⟨name, _, same⟩
      rcases Except.ok.inj same with rfl
      exact ⟨.assignment name, numbered, rfl⟩
    · simp only [set, if_false] at read
      rcases Except.ok.inj read with rfl
      rcases data_eq_ok data_eq set with ⟨mark, plain, marked⟩
      refine ⟨mark, numbered.trans marked, ?_⟩
      rw [plain]
      rfl

theorem related_target (mark : Mark) :
    Sketch.RelatedAll Interchangeable mark.target mark.target := by
  cases mark with
  | assignment name => exact ⟨_, _, rfl, ⟨.refl _, rfl⟩, rfl⟩
  | _ => rfl

variable {root : Element}

mutual

theorem shown_of_plan : ∀ {plan : Plan} {sketch : Sketch}, plan.Of root sketch → Shown sketch
  | ⟨_, _⟩, ⟨_, _⟩, ⟨_, _, _, read, below⟩ => by
      rcases marked_node read with ⟨mark, same, rfl⟩
      rcases allShown_of_plans below with ⟨operands, related⟩
      exact ⟨⟨mark, none, operands⟩, same, (related_target mark).append related⟩

theorem allShown_of_plans : ∀ {plans : List Plan} {sketches : List Sketch},
    Plan.AllOf root plans sketches → AllShown sketches
  | [], _, empty => by
      cases empty
      exact .nil
  | _ :: _, _, ⟨_, _, same, here, others⟩ => by
      cases same
      exact .cons (shown_of_plan here) (allShown_of_plans others)

end

/-- Whatever a document looks like, the sketches it is read as resemble those of figures. -/
theorem figures_of_read {document : String} (read : Block.read document = .ok sketches) :
    ∃ figures, Sketch.RelatedAll Interchangeable sketches (Figure.sketches figures) := by
  rcases Answer.bind_eq_ok.mp read with ⟨root, _, read⟩
  rcases exists_layout read with ⟨plans, layout⟩
  exact allShown_of_plans layout.nodes

/-- A document is imported by creating the block of what it is read as. -/
theorem importDocument_of_read {functions : Option Library} {document : String}
    {version : Option Version} {store : Store} (read : Block.read document = .ok sketches) :
    importDocument functions document version store =
      create functions (.block sketches) version store := by
  unfold importDocument
  rw [read]
  rfl

/-- A document names no addresses and no numbers of definitions. -/
theorem written_of_read {document : String} (read : Block.read document = .ok sketches) :
    ∀ part ∈ (Sketch.block sketches).walk, Written part.data := by
  intro part member
  rcases figures_of_read read with ⟨figures, related⟩
  have blocks : (Sketch.block sketches).Related Interchangeable
      (.block (Figure.sketches figures)) := ⟨.refl _, related⟩
  rcases blocks.mem_walk member with ⟨part', member', same⟩
  exact same.data.written (written_block figures part' member')

end RuleTree.Block
