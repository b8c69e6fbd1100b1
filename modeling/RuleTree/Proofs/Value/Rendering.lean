import RuleTree.Value.Json

/-!
# Values read back from plain JSON

Plain JSON has no dates and no floats beyond the finite ones.  A value that was shown as plain JSON
is read back with its dates as texts and its other floats as null, and with everything else as it
was (`rendering_reads_back`).
-/

namespace RuleTree.Value

mutual

/-- What plain JSON keeps of a value: dates become texts, floats that are not finite become null. -/
def plain : Value → Value
  | null => null
  | bool b => bool b
  | int n => int n
  | float x => if Binary64.isFinite x then float x else null
  | str s => str s
  | date d => str d.text
  | reference r => reference r
  | list items => list (plainItems items)

/-- What plain JSON keeps of values, one by one. -/
def plainItems : List Value → List Value
  | [] => []
  | item :: rest => plain item :: plainItems rest

end

mutual

/-- No date and no float that is not finite occurs in the value. -/
def Plain : Value → Prop
  | float x => Binary64.isFinite x = true
  | date _ => False
  | list items => PlainItems items
  | _ => True

/-- The values are plain. -/
def PlainItems : List Value → Prop
  | [] => True
  | item :: rest => Plain item ∧ PlainItems rest

end

mutual

theorem ofJson?_toJson : ∀ value, ofJson? (toJson value) = some (plain value)
  | null => rfl
  | bool _ => rfl
  | int n => by
      rw [toJson, ofJson?, Word.ofInt?_toInt]
      rfl
  | float x => by
      rw [toJson, plain, Json.ofFloat]
      split <;> rfl
  | str _ => rfl
  | date _ => rfl
  | reference r => by
      simp [toJson, Json.object, ofJson?, Entries.get?_insert, Json.asStr?, Json.asInt64?,
        Word.ofInt?_toInt, plain]
  | list items => by
      rw [toJson, ofJson?, ofJsonItems?_toJsonItems items, plain]
      rfl

theorem ofJsonItems?_toJsonItems : ∀ items,
    ofJsonItems? (toJsonItems items) = some (plainItems items)
  | [] => rfl
  | item :: rest => by
      rw [toJsonItems, ofJsonItems?, ofJson?_toJson item, ofJsonItems?_toJsonItems rest]
      rfl

end

mutual

theorem plain_eq_self_iff : ∀ value, plain value = value ↔ Plain value
  | null | bool _ | int _ | str _ | reference _ => by simp [plain, Plain]
  | float x => by
      rw [plain, Plain]
      split <;> simp_all
  | date _ => by simp [plain, Plain]
  | list items => by
      rw [plain, Plain, list.injEq]
      exact plainItems_eq_self_iff items

theorem plainItems_eq_self_iff : ∀ items, plainItems items = items ↔ PlainItems items
  | [] => by simp [plainItems, PlainItems]
  | item :: rest => by
      rw [plainItems, PlainItems, List.cons.injEq, plain_eq_self_iff item,
        plainItems_eq_self_iff rest]

end

/-- Integers come from integers only. -/
theorem plain_eq_int_iff {value : Value} {n : Int64} : plain value = int n ↔ value = int n := by
  cases value with
  | float x =>
      rw [plain]
      split <;> simp
  | _ => simp [plain]

/-- Floats come from finite floats only. -/
theorem plain_eq_float_iff {value : Value} {x : Float} :
    plain value = float x ↔ value = float x ∧ Binary64.isFinite x = true := by
  cases value with
  | float y =>
      rw [plain]
      by_cases finite : Binary64.isFinite y = true
      · rw [if_pos finite]
        constructor
        · rintro ⟨⟩
          exact ⟨rfl, finite⟩
        · exact And.left
      · rw [if_neg finite]
        constructor
        · rintro ⟨⟩
        · rintro ⟨⟨⟩, finite'⟩
          exact absurd finite' finite
  | _ => simp [plain]

/-- A value is read back from its plain JSON with dates as texts and with null for floats that are
not finite.  It is read back as it was if there are none of these, and integers and floats are never
taken for each other. -/
theorem rendering_reads_back (value : Value) :
    ofJson? (toJson value) = some (plain value) ∧
    (ofJson? (toJson value) = some value ↔ Plain value) ∧
    (∀ n, ofJson? (toJson value) = some (int n) ↔ value = int n) ∧
    ∀ x, ofJson? (toJson value) = some (float x) ↔
      value = float x ∧ Binary64.isFinite x = true := by
  simp only [ofJson?_toJson, Option.some.injEq]
  exact ⟨trivial, plain_eq_self_iff value, fun _ => plain_eq_int_iff, fun _ => plain_eq_float_iff⟩

/-- A leap day comes back as its text. -/
example : ofJson? (toJson (list [date ⟨2024, 2, 29, by decide⟩, int 7])) =
    some (list [str "2024-02-29", int 7]) := by rfl

end RuleTree.Value
