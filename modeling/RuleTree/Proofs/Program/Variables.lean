import RuleTree.Proofs.Creation.Objects
import RuleTree.Proofs.Evaluation.Direct
import RuleTree.Proofs.Program.Arguments
import RuleTree.Proofs.Tree.Building

/-!
# The variables of an interface

Where the names of the variables are distinct, a name of the interface leads to one argument or one
field of an argument, and to one definition (`Creation.externalNames_spec`).  What JSON arguments
give to the variables is an environment (`Interface.Supplies`); it is made by giving each variable
the value of its source (`Interface.supplies_environment`).
-/

namespace RuleTree

open Step Store

/-- Where the keys are distinct, looking for the key of an item finds the item. -/
theorem find?_key {α β : Type} [DecidableEq β] {key : α → β} {items : List α}
    (distinct : (items.map key).Nodup) {item : α} (member : item ∈ items) :
    items.find? (fun other => key other = key item) = some item := by
  cases found : items.find? (fun other => key other = key item) with
  | none =>
      have absent := List.find?_eq_none.mp found item member
      simp at absent
  | some other =>
      have same : key other = key item := by simpa using List.find?_some found
      rw [List.inj_on_of_nodup_map distinct (List.mem_of_find?_eq_some found) member same]

/-! ## Definitions for variables -/

section Definitions

variable {store after : Store} {entries : List (String × Source)} {refs : List ContentRef}

theorem Interface.exists_declareVariables (interface : Interface) (store : Store) :
    ∃ refs after, interface.declareVariables store = (.ok refs, after) := by
  have saved (entries : List (String × Source)) :
      ∃ refs after, saveDefinitions entries store = (.ok refs, after) := by
    induction entries generalizing store with
    | nil => exact ⟨[], store, rfl⟩
    | cons entry rest ih =>
        rcases entry with ⟨name, source⟩
        have first : ∃ ref middle,
            saveObject (.definition name (some source)) store = (.ok ref, middle) :=
          ⟨_, _, saveObject_eq_ok.mpr ⟨rfl, rfl⟩⟩
        rcases first with ⟨ref, middle, first⟩
        rcases ih middle with ⟨refs, after, others⟩
        refine ⟨ref :: refs, after, ?_⟩
        rw [saveDefinitions, bind_of_ok first, bind_of_ok others]
        rfl
  rcases saved interface.declarations with ⟨refs, after, done⟩
  exact ⟨refs, after, transaction_eq_ok.mpr done⟩

namespace Creation

/-- A name of one of the definitions leads to this definition, and other names mean what they
meant. -/
theorem externalNames_spec {names known : Names} {records : Records}
    (done : externalNames names refs store = (.ok known, after)) (same : store.records = records)
    (declared : List.Forall₂ records.Declares entries refs)
    (distinct : (entries.map Prod.fst).Nodup) :
    List.Forall₂ (fun entry ref => known.get? entry.1 = some ref.id) entries refs ∧
      ∀ name, name ∉ entries.map Prod.fst → known.get? name = names.get? name := by
  induction declared generalizing names store with
  | nil =>
      rcases pure_eq_ok.mp done with ⟨rfl, _⟩
      exact ⟨.nil, fun _ _ => rfl⟩
  | @cons entry ref rest refs here declared ih =>
      rcases bind_eq_ok.mp done with ⟨name, middle, loaded, done⟩
      have unchanged := (readsOnly_externalName ref).of_ok loaded
      have own : name = entry.1 := by
        rcases externalName_eq_ok loaded with ⟨_, source, stored⟩
        rw [same, here.2] at stored
        cases stored
        rfl
      subst own
      rcases List.nodup_cons.mp distinct with ⟨unlisted, distinct⟩
      rcases ih done (unchanged.trans same) distinct with ⟨found, others⟩
      refine ⟨.cons ?_ found, ?_⟩
      · rw [others _ unlisted]
        simp
      · intro name absent
        have apart : name ≠ entry.1 ∧ name ∉ rest.map Prod.fst := by simpa using absent
        rw [others name apart.2, Table.get?_insert, if_neg (Ne.symm apart.1)]

end Creation

end Definitions

namespace Interface

variable {interface : Interface} {argument : Argument} {field : ArgumentField}

/-! ## Looking for names -/

theorem sublist_names (arguments : List Argument) :
    (arguments.map Argument.name).Sublist ((arguments.flatMap variablesOf).map Prod.fst) := by
  induction arguments with
  | nil => exact .slnil
  | cons argument rest ih =>
      rw [List.flatMap_cons, List.map_append]
      exact (ih.trans (List.sublist_append_right _ _)).cons_cons _

theorem argument?_name (distinct : interface.variableNames.Nodup)
    (member : argument ∈ interface.arguments) :
    interface.argument? argument.name = some argument :=
  find?_key (distinct.sublist (sublist_names interface.arguments)) member

theorem field?_name (distinct : interface.variableNames.Nodup)
    (member : argument ∈ interface.arguments) (listed : field ∈ argument.fields) :
    argument.field? field.name = some field := by
  have part : (variablesOf argument).Sublist interface.declarations :=
    List.sublist_flatten_of_mem (List.mem_map_of_mem member)
  have names := distinct.sublist (part.map Prod.fst)
  simp only [variablesOf, List.map_cons, List.map_map] at names
  have fields : (argument.fields.map ArgumentField.name).Nodup := by
    apply List.Nodup.of_map (argument.name ++ "." ++ ·)
    rw [List.map_map]
    exact (List.nodup_cons.mp names).2
  exact find?_key fields listed

theorem mem_declarations {entry : String × Source} : entry ∈ interface.declarations ↔
    ∃ argument ∈ interface.arguments, entry = (argument.name, .argument argument.name) ∨
      ∃ field ∈ argument.fields,
        entry = (argument.name ++ "." ++ field.name, .field argument.name field.name) := by
  simp only [declarations, List.mem_flatMap, variablesOf, List.mem_cons, List.mem_map, eq_comm]

/-! ## The values that arguments give -/

/-- What JSON arguments give to the variables of an interface.  An argument has the value that its
JSON stands for as an entity.  A field has the value that the JSON stands for, by the type of the
field, to which its name leads inside of the argument.  Whatever is missing or stands for nothing
has no value, and neither has any other name. -/
structure Supplies (interface : Interface) (arguments : Fields) (environment : Environment) :
    Prop where
  argument : ∀ argument ∈ interface.arguments, ∀ value,
    environment.get? argument.name = some value ↔
      ∃ json, Entries.get? argument.name arguments = some json ∧
        json.DenotesEntity argument.model value
  field : ∀ argument ∈ interface.arguments, ∀ field ∈ argument.fields, ∀ value,
    environment.get? (argument.name ++ "." ++ field.name) = some value ↔
      ∃ json path target, Entries.get? argument.name arguments = some json ∧
        Dotted field.name path ∧ json.Leads path target ∧ target.DenotesField field value
  others : ∀ name, name ∉ interface.variableNames → environment.get? name = none

variable {arguments : Fields} {entries : List (String × Source)} {start : Environment}

theorem resolve_argument (distinct : interface.variableNames.Nodup)
    (member : argument ∈ interface.arguments) {value : Value} :
    Version.resolve interface (.argument argument.name) arguments = some value ↔
      ∃ json, Entries.get? argument.name arguments = some json ∧
        json.DenotesEntity argument.model value := by
  simp [Version.resolve, argument?_name distinct member, Option.bind_eq_some_iff,
    Version.entityValue_eq_some]

theorem resolve_field (distinct : interface.variableNames.Nodup)
    (member : argument ∈ interface.arguments) (listed : field ∈ argument.fields) {value : Value} :
    Version.resolve interface (.field argument.name field.name) arguments = some value ↔
      ∃ json path target, Entries.get? argument.name arguments = some json ∧
        Dotted field.name path ∧ json.Leads path target ∧ target.DenotesField field value := by
  simp [Version.resolve, argument?_name distinct member, field?_name distinct member listed,
    Option.bind_eq_some_iff, Version.follow_eq_some, Version.fieldValue_eq_some, ← Version.steps_eq]

/-- Some variables get the values of their sources, those without a value are left alone. -/
def supply (interface : Interface) (arguments : Fields) :
    List (String × Source) → Environment → Environment
  | [], environment => environment
  | (name, source) :: rest, environment =>
    supply interface arguments rest (match Version.resolve interface source arguments with
      | some value => environment.insert name value
      | none => environment)

theorem get?_supply_other {name : String} (absent : name ∉ entries.map Prod.fst) :
    (interface.supply arguments entries start).get? name = start.get? name := by
  induction entries generalizing start with
  | nil => rfl
  | cons entry rest ih =>
      rcases entry with ⟨other, source⟩
      have apart : name ≠ other ∧ name ∉ rest.map Prod.fst := by simpa using absent
      rw [supply, ih apart.2]
      split
      · rw [Table.get?_insert, if_neg (Ne.symm apart.1)]
      · rfl

theorem get?_supply (distinct : (entries.map Prod.fst).Nodup)
    (fresh : ∀ name ∈ entries.map Prod.fst, start.get? name = none)
    {entry : String × Source} (member : entry ∈ entries) :
    (interface.supply arguments entries start).get? entry.1 =
      Version.resolve interface entry.2 arguments := by
  induction entries generalizing start with
  | nil => cases member
  | cons first rest ih =>
      rcases List.nodup_cons.mp distinct with ⟨unlisted, distinct⟩
      rw [supply]
      rcases List.mem_cons.mp member with rfl | later
      · rw [get?_supply_other unlisted]
        cases Version.resolve interface entry.2 arguments with
        | none => exact fresh entry.1 (by simp)
        | some value => simp
      · apply ih distinct ?_ later
        intro name listed
        have none_before :=
          fresh name (by simp only [List.map_cons, List.mem_cons, listed, or_true])
        have apart : first.1 ≠ name := by
          rintro rfl
          exact unlisted listed
        split
        · rw [Table.get?_insert, if_neg apart, none_before]
        · exact none_before

/-- The environment in which a program starts. -/
def environment (interface : Interface) (arguments : Fields) : Environment :=
  interface.supply arguments interface.declarations .empty

theorem supplies_environment (distinct : interface.variableNames.Nodup) (arguments : Fields) :
    interface.Supplies arguments (interface.environment arguments) where
  argument argument member value := by
    have listed : (argument.name, .argument argument.name) ∈ interface.declarations :=
      mem_declarations.mpr ⟨argument, member, .inl rfl⟩
    rw [environment, get?_supply distinct (fun _ _ => rfl) listed]
    exact resolve_argument distinct member
  field argument member field listed value := by
    have declared : (argument.name ++ "." ++ field.name, .field argument.name field.name) ∈
        interface.declarations :=
      mem_declarations.mpr ⟨argument, member, .inr ⟨field, listed, rfl⟩⟩
    rw [environment, get?_supply distinct (fun _ _ => rfl) declared]
    exact resolve_field distinct member listed
  others name absent := get?_supply_other absent

end Interface

end RuleTree
