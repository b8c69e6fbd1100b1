/-!
# Finite maps with sorted keys

A `Table` holds its entries in strictly increasing order of their keys, so two tables with the same
look-ups are the same table (`Table.ext_get?`), and listing a table lists its keys in order. The
operations are first given on plain lists of entries, where the look-up laws hold without the order.
-/

namespace RuleTree

universe u v

namespace Entries

variable {κ : Type u} {α : Type v}

/-- The value of the first entry with the given key. -/
def get? [DecidableEq κ] (key : κ) : List (κ × α) → Option α
  | [] => none
  | (k, a) :: rest => if k = key then some a else get? key rest

/-- Writes an entry at the place of its key, over an entry with the same key. -/
def insert [Ord κ] (key : κ) (value : α) : List (κ × α) → List (κ × α)
  | [] => [(key, value)]
  | (k, a) :: rest =>
    match compare key k with
    | .lt => (key, value) :: (k, a) :: rest
    | .eq => (key, value) :: rest
    | .gt => (k, a) :: insert key value rest

/-- Drops every entry with the given key. -/
def erase [DecidableEq κ] (key : κ) (entries : List (κ × α)) : List (κ × α) :=
  entries.filter fun entry => decide (entry.1 ≠ key)

/-- Entries in strictly increasing order of their keys. -/
def Sorted [Ord κ] (entries : List (κ × α)) : Prop :=
  entries.Pairwise fun a b => compare a.1 b.1 = .lt

section Lookup

variable [DecidableEq κ]

@[simp] theorem get?_nil (key : κ) : get? key ([] : List (κ × α)) = none := rfl

theorem get?_insert [Ord κ] [Std.LawfulEqOrd κ] (key other : κ) (value : α)
    (entries : List (κ × α)) :
    get? other (insert key value entries)
      = if key = other then some value else get? other entries := by
  induction entries with
  | nil => simp [insert, get?]
  | cons entry rest ih =>
    obtain ⟨k, a⟩ := entry
    rw [insert]
    split
    · simp [get?]
    · rename_i same
      have equal : key = k := Std.LawfulEqOrd.eq_of_compare same
      subst equal
      by_cases found : key = other <;> simp [get?, found]
    · rename_i after
      have differ : key ≠ k := by
        rintro rfl
        simp at after
      by_cases here : k = other
      · subst here
        simp [get?, differ]
      · simp [get?, here, ih]

theorem get?_append (key : κ) (front back : List (κ × α)) :
    get? key (front ++ back) = (get? key front).or (get? key back) := by
  induction front with
  | nil => rfl
  | cons entry rest ih =>
    obtain ⟨k, a⟩ := entry
    by_cases here : k = key <;> simp [get?, here, ih]

theorem get?_erase (key other : κ) (entries : List (κ × α)) :
    get? other (erase key entries) = if key = other then none else get? other entries := by
  induction entries with
  | nil => simp [erase]
  | cons entry rest ih =>
    obtain ⟨k, a⟩ := entry
    by_cases same : k = key
    · subst same
      have dropped : erase k ((k, a) :: rest) = erase k rest := by simp [erase]
      rw [dropped, ih]
      by_cases found : k = other <;> simp [get?, found]
    · have kept : erase key ((k, a) :: rest) = (k, a) :: erase key rest := by
        simp [erase, same]
      rw [kept]
      by_cases here : k = other
      · subst here
        have differ : key ≠ k := fun h => same h.symm
        simp [get?, differ]
      · simp [get?, here, ih]

theorem get?_eq_none_of_forall_ne {key : κ} {entries : List (κ × α)}
    (absent : ∀ entry ∈ entries, entry.1 ≠ key) : get? key entries = none := by
  induction entries with
  | nil => rfl
  | cons entry rest ih =>
    obtain ⟨k, a⟩ := entry
    have differ : k ≠ key := absent (k, a) (by simp)
    simp [get?, differ, ih fun e he => absent e (by simp [he])]

theorem mem_of_get?_eq_some {key : κ} {value : α} {entries : List (κ × α)}
    (found : get? key entries = some value) : (key, value) ∈ entries := by
  induction entries with
  | nil => simp at found
  | cons entry rest ih =>
    obtain ⟨k, a⟩ := entry
    by_cases here : k = key
    · subst here
      simp [get?] at found
      simp [found]
    · simp [get?, here] at found
      simp [ih found]

end Lookup

section Order

variable [Ord κ]

theorem mem_insert {key : κ} {value : α} {entry : κ × α} {entries : List (κ × α)}
    (member : entry ∈ insert key value entries) : entry = (key, value) ∨ entry ∈ entries := by
  induction entries with
  | nil => simpa [insert] using member
  | cons head rest ih =>
    obtain ⟨k, a⟩ := head
    rw [insert] at member
    split at member
    · simpa using member
    · simp only [List.mem_cons] at member
      rcases member with h | h
      · exact .inl h
      · exact .inr (by simp [h])
    · simp only [List.mem_cons] at member
      rcases member with h | h
      · exact .inr (by simp [h])
      · rcases ih h with h | h
        · exact .inl h
        · exact .inr (by simp [h])

theorem Sorted.insert [Std.TransOrd κ] [Std.LawfulEqOrd κ] {entries : List (κ × α)}
    (sorted : Sorted entries) (key : κ) (value : α) : Sorted (insert key value entries) := by
  induction entries with
  | nil => simp [Sorted, Entries.insert]
  | cons head rest ih =>
    obtain ⟨k, a⟩ := head
    have ⟨above, tail⟩ := List.pairwise_cons.mp sorted
    rw [Entries.insert]
    split
    · rename_i before
      refine List.pairwise_cons.mpr ⟨fun e he => ?_, sorted⟩
      rcases List.mem_cons.mp he with rfl | he
      · exact before
      · exact Std.TransCmp.lt_trans before (above e he)
    · rename_i same
      have equal : key = k := Std.LawfulEqOrd.eq_of_compare same
      subst equal
      exact List.pairwise_cons.mpr ⟨above, tail⟩
    · rename_i after
      refine List.pairwise_cons.mpr ⟨fun e he => ?_, ih tail⟩
      rcases mem_insert he with rfl | he
      · exact Std.OrientedCmp.lt_of_gt after
      · exact above e he

theorem Sorted.erase [DecidableEq κ] {entries : List (κ × α)} (sorted : Sorted entries)
    (key : κ) : Sorted (erase key entries) :=
  List.Pairwise.filter _ sorted

theorem Sorted.get?_of_mem [DecidableEq κ] [Std.TransOrd κ] {entries : List (κ × α)}
    (sorted : Sorted entries) {key : κ} {value : α} (member : (key, value) ∈ entries) :
    get? key entries = some value := by
  induction entries with
  | nil => simp at member
  | cons head rest ih =>
    obtain ⟨k, a⟩ := head
    have ⟨above, tail⟩ := List.pairwise_cons.mp sorted
    rcases List.mem_cons.mp member with same | later
    · obtain ⟨rfl, rfl⟩ := Prod.mk.inj same
      simp [get?]
    · have differ : k ≠ key := by
        rintro rfl
        have := above _ later
        simp at this
      simp [get?, differ, ih tail later]

/-- Sorted entries are determined by their look-ups. -/
theorem Sorted.eq_of_get?_eq [DecidableEq κ] [Std.TransOrd κ] [Std.LawfulEqOrd κ] :
    ∀ {left right : List (κ × α)}, Sorted left → Sorted right →
      (∀ key, get? key left = get? key right) → left = right
  | [], [], _, _, _ => rfl
  | [], (k, a) :: rest, _, _, same => by simpa [get?] using same k
  | (k, a) :: rest, [], _, _, same => by simpa [get?] using same k
  | (k, a) :: rest, (k', a') :: rest', sorted, sorted', same => by
    have ⟨above, tail⟩ := List.pairwise_cons.mp sorted
    have ⟨above', tail'⟩ := List.pairwise_cons.mp sorted'
    have keys : k = k' := by
      have here : ((k, a) : κ × α) ∈ (k', a') :: rest' :=
        mem_of_get?_eq_some (by simpa [get?] using (same k).symm)
      have there : ((k', a') : κ × α) ∈ (k, a) :: rest :=
        mem_of_get?_eq_some (by simpa [get?] using same k')
      rcases List.mem_cons.mp here with h | h
      · exact (Prod.mk.inj h).1
      · rcases List.mem_cons.mp there with h' | h'
        · exact (Prod.mk.inj h').1.symm
        · have below := above _ h'
          have back := above' _ h
          exact absurd (Std.TransCmp.lt_trans below back) (by simp)
    subst keys
    have values : a = a' := by simpa [get?] using same k
    subst values
    have rests : rest = rest' := by
      refine Sorted.eq_of_get?_eq tail tail' fun key => ?_
      by_cases here : k = key
      · subst here
        rw [get?_eq_none_of_forall_ne fun e he h => ?_, get?_eq_none_of_forall_ne fun e he h => ?_]
        · have := above' e he
          rw [h] at this
          simp at this
        · have := above e he
          rw [h] at this
          simp at this
      · simpa [get?, here] using same key
    rw [rests]

end Order

end Entries

/-- A finite map from `κ` to `α`, kept as entries in increasing order of their keys. -/
structure Table (κ : Type u) (α : Type v) [Ord κ] where
  /-- The entries, each key at most once. -/
  entries : List (κ × α)
  sorted : Entries.Sorted entries

namespace Table

variable {κ : Type u} {α : Type v} [Ord κ]

/-- The table without entries. -/
def empty : Table κ α := ⟨[], List.Pairwise.nil⟩

instance : Inhabited (Table κ α) := ⟨empty⟩
instance : EmptyCollection (Table κ α) := ⟨empty⟩

/-- How many keys the table holds. -/
def size (table : Table κ α) : Nat := table.entries.length

/-- The keys, in increasing order. -/
def keys (table : Table κ α) : List κ := table.entries.map (·.1)

/-- The values, in the order of their keys. -/
def values (table : Table κ α) : List α := table.entries.map (·.2)

variable [DecidableEq κ]

/-- The value stored under a key. -/
def get? (table : Table κ α) (key : κ) : Option α := Entries.get? key table.entries

/-- Whether a key is present. -/
def contains (table : Table κ α) (key : κ) : Bool := (table.get? key).isSome

/-- Removes a key. -/
def erase (table : Table κ α) (key : κ) : Table κ α :=
  ⟨Entries.erase key table.entries, table.sorted.erase key⟩

@[simp] theorem get?_empty (key : κ) : (empty : Table κ α).get? key = none := rfl

@[simp] theorem get?_erase (table : Table κ α) (key other : κ) :
    (table.erase key).get? other = if key = other then none else table.get? other :=
  Entries.get?_erase key other table.entries

/-- A key whose number is beyond those of all keys is not in the table. -/
theorem get?_eq_none_of_lt {table : Table κ α} {key : κ} (number : κ → Int) {last : Int}
    (bound : ∀ {other old}, table.get? other = some old → number other ≤ last)
    (beyond : last < number key) : table.get? key = none := by
  cases found : table.get? key with
  | none => rfl
  | some old =>
    have reached := bound found
    omega

variable [Std.TransOrd κ]

theorem mem_entries_iff (table : Table κ α) (key : κ) (value : α) :
    (key, value) ∈ table.entries ↔ table.get? key = some value :=
  ⟨table.sorted.get?_of_mem, Entries.mem_of_get?_eq_some⟩

variable [Std.LawfulEqOrd κ]

/-- Stores a value under a key, in place of the value that was there. -/
def insert (table : Table κ α) (key : κ) (value : α) : Table κ α :=
  ⟨Entries.insert key value table.entries, table.sorted.insert key value⟩

/-- The table of a list of entries; of two entries with one key the later one counts. -/
def ofList (entries : List (κ × α)) : Table κ α :=
  entries.foldl (fun table entry => table.insert entry.1 entry.2) empty

@[simp] theorem get?_insert (table : Table κ α) (key other : κ) (value : α) :
    (table.insert key value).get? other = if key = other then some value else table.get? other :=
  Entries.get?_insert key other value table.entries

/-- What is found in a table with a new entry is this entry or was found before. -/
theorem get?_insert_cases {table : Table κ α} {key other : κ} {value found : α}
    (present : (table.insert key value).get? other = some found) :
    (other = key ∧ found = value) ∨ (other ≠ key ∧ table.get? other = some found) := by
  rw [get?_insert] at present
  split at present
  · rename_i same
    exact .inl ⟨same.symm, (Option.some.inj present).symm⟩
  · rename_i differ
    exact .inr ⟨Ne.symm differ, present⟩

theorem get?_insert_of_absent {table : Table κ α} {key other : κ} {value found : α}
    (absent : table.get? key = none) (present : table.get? other = some found) :
    (table.insert key value).get? other = some found := by
  rw [get?_insert, if_neg, present]
  rintro rfl
  rw [absent] at present
  cases present

/-- Tables with the same look-ups are equal. -/
theorem ext_get? {left right : Table κ α} (same : ∀ key, left.get? key = right.get? key) :
    left = right := by
  obtain ⟨_, leftSorted⟩ := left
  obtain ⟨_, rightSorted⟩ := right
  congr
  exact leftSorted.eq_of_get?_eq rightSorted same

end Table

end RuleTree
