import ClockedC.Ast.Program

/-!
# Symbol tables

What the grammar remembers of declarations: the sizes of the arrays of the function being read, and the
layouts of all structs so far.

* `NameMap` : one number for a name, the last one put in;
* `ArraySizes` : the sizes of arrays by name;
* `Layouts` : the structs in the order of their registration, with a map of the positions at which their names
  stand. That the map agrees with the structs is part of the table.
-/

namespace ClockedC

/-! ## Numbers by name -/

/-- A number for each of some names. -/
structure NameMap where
  entries : List (String × Nat) := []
  deriving Repr

namespace NameMap

/-- The number of `name`. -/
def get? (map : NameMap) (name : String) : Option Nat := map.entries.lookup name

/-- Gives `name` a number, in place of an earlier one. -/
def insert (map : NameMap) (name : String) (number : Nat) : NameMap :=
  ⟨(name, number) :: map.entries.filter (·.1 ≠ name)⟩

/-- How many names have a number. -/
def count (map : NameMap) : Nat := map.entries.length

/-- Whether no name has a number. -/
def isEmpty (map : NameMap) : Bool := map.entries.isEmpty

@[simp] theorem get?_empty (name : String) : ({} : NameMap).get? name = none := rfl

theorem lookup_filter_ne {name other : String} (h : name ≠ other) (entries : List (String × Nat)) :
    (entries.filter (·.1 ≠ name)).lookup other = entries.lookup other := by
  induction entries with
  | nil => rfl
  | cons entry entries ih =>
    by_cases hentry : entry.1 = name
    · have hne : (other == entry.1) = false := beq_eq_false_iff_ne.2 (hentry ▸ h.symm)
      rw [List.filter_cons_of_neg (by simpa using hentry), ih, List.lookup_cons, hne]
    · rw [List.filter_cons_of_pos (by simpa using hentry), List.lookup_cons, List.lookup_cons, ih]

@[simp] theorem get?_insert_self (map : NameMap) (name : String) (number : Nat) :
    (map.insert name number).get? name = some number := by
  simp [insert, get?]

/-- Other names keep their numbers. -/
theorem get?_insert_of_ne (map : NameMap) {name other : String} (number : Nat) (h : name ≠ other) :
    (map.insert name number).get? other = map.get? other := by
  have hne : (other == name) = false := beq_eq_false_iff_ne.2 h.symm
  rw [insert, get?, List.lookup_cons, hne]
  exact lookup_filter_ne h map.entries

end NameMap

/-! ## Array sizes -/

/-- The sizes of the arrays in sight. -/
structure ArraySizes where
  sizes : NameMap := {}
  deriving Repr

namespace ArraySizes

/-- The table without entries. -/
def empty : ArraySizes := {}

/-- The size registered for `name`. -/
def size? (table : ArraySizes) (name : String) : Option Nat := table.sizes.get? name

/-- Gives `name` a size, in place of an earlier one. -/
def register (table : ArraySizes) (name : String) (size : Nat) : ArraySizes := ⟨table.sizes.insert name size⟩

/-- How many names have a size. -/
def count (table : ArraySizes) : Nat := table.sizes.count

/-- Whether no name has a size. -/
def isEmpty (table : ArraySizes) : Bool := table.sizes.isEmpty

@[simp] theorem size?_empty (name : String) : empty.size? name = none := rfl

@[simp] theorem size?_register_self (table : ArraySizes) (name : String) (size : Nat) :
    (table.register name size).size? name = some size := table.sizes.get?_insert_self name size

/-- The arrays of other names keep their sizes. -/
theorem size?_register_of_ne (table : ArraySizes) {name other : String} (size : Nat) (h : name ≠ other) :
    (table.register name size).size? other = table.size? other := table.sizes.get?_insert_of_ne size h

end ArraySizes

/-! ## Struct layouts -/

/-- The fields of a struct, in order. -/
structure Layout where
  name : String
  fields : List Field
  deriving DecidableEq, Repr

namespace Layout

/-- The type of the first field called `name`. -/
def fieldType? (layout : Layout) (name : String) : Option DataType :=
  (layout.fields.find? (·.name = name)).map (·.type)

/-- The layout with one more field, behind the others. -/
def addField (layout : Layout) (field : Field) : Layout := { layout with fields := layout.fields ++ [field] }

end Layout

/-- No name has a position among no layouts. -/
theorem NameMap.agrees_nil (name : String) (index : Nat) :
    ({} : NameMap).get? name = some index ↔ ([] : List Layout)[index]?.map (·.name) = some name := by
  simp

/-- The layouts of the structs registered so far, and the positions at which their names stand. Structs are listed
from `all` and looked up through `positions`, so the two have to agree. -/
@[ext] structure Layouts where
  all : List Layout := []
  positions : NameMap := {}
  /-- A name has a position exactly if the layout at the position has the name. -/
  agrees : ∀ name index, positions.get? name = some index ↔ all[index]?.map (·.name) = some name := by
    exact NameMap.agrees_nil
  deriving Repr

namespace Layouts

/-- The table without layouts. -/
def empty : Layouts := {}

/-- The position of the layout called `name`. -/
def index? (table : Layouts) (name : String) : Option Nat := table.positions.get? name

/-- The layout at a position. -/
def get? (table : Layouts) (index : Nat) : Option Layout := table.all[index]?

/-- The layout called `name`. -/
def lookup? (table : Layouts) (name : String) : Option Layout := (table.index? name).bind table.get?

/-- A position is found for a name exactly if the layout at the position has the name. -/
theorem index?_eq_some_iff {table : Layouts} {name : String} {index : Nat} :
    table.index? name = some index ↔ ∃ layout, table.get? index = some layout ∧ layout.name = name := by
  rw [index?, table.agrees, Option.map_eq_some_iff]
  rfl

/-- The map agrees with the layouts once a new name is put at the end of both. -/
theorem agrees_push (table : Layouts) {name : String} (h : table.index? name = none) (other : String) (index : Nat) :
    (table.positions.insert name table.all.length).get? other = some index ↔
      (table.all ++ [⟨name, []⟩])[index]?.map (·.name) = some other := by
  rw [List.getElem?_append]
  by_cases hother : name = other
  · subst hother
    rw [NameMap.get?_insert_self, Option.some.injEq]
    split
    · -- the name stood nowhere before
      next hlt =>
      rw [← table.agrees, show table.positions.get? name = none from h]
      simp [Nat.ne_of_gt hlt]
    · next hge =>
      rw [List.getElem?_singleton]
      by_cases hlast : index = table.all.length <;> simp [hlast] <;> omega
  · rw [table.positions.get?_insert_of_ne _ hother, table.agrees]
    split
    · rfl
    · next hge =>
      rw [List.getElem?_eq_none (Nat.le_of_not_lt hge), List.getElem?_singleton]
      by_cases hlast : index - table.all.length = 0 <;> simp [hlast, hother]

/-- Puts a layout without fields at the end, under a name that has none. -/
def push (table : Layouts) (name : String) (h : table.index? name = none) : Layouts where
  all := table.all ++ [⟨name, []⟩]
  positions := table.positions.insert name table.all.length
  agrees := table.agrees_push h

/-- Gives `name` a layout without fields unless it has one, and tells its position. -/
def register (table : Layouts) (name : String) : Nat × Layouts :=
  match h : table.index? name with
  | some index => (index, table)
  | none => (table.all.length, table.push name h)

/-- A name that has a layout keeps its position. -/
theorem register_of_index? {table : Layouts} {name : String} {index : Nat} (h : table.index? name = some index) :
    table.register name = (index, table) := by
  unfold register
  split
  · next found hfound => rw [Option.some.inj (hfound.symm.trans h)]
  · next hnone => cases hnone.symm.trans h

/-- A new name is put at the end. -/
theorem register_of_fresh {table : Layouts} {name : String} (h : table.index? name = none) :
    table.register name = (table.all.length, table.push name h) := by
  unfold register
  split
  · next hfound => cases hfound.symm.trans h
  · rfl

/-- Adding fields renames nothing. -/
theorem name_modify_addField (layouts : List Layout) (index : Nat) (field : Field) (i : Nat) :
    (layouts.modify index (·.addField field))[i]?.map (·.name) = layouts[i]?.map (·.name) := by
  rw [List.getElem?_modify]
  by_cases h : index = i <;> simp [h, Layout.addField, Option.map_map, Function.comp_def]

/-- Adds a field at the end of the layout at a position, if there is one. -/
def addField (table : Layouts) (index : Nat) (field : Field) : Layouts where
  all := table.all.modify index (·.addField field)
  positions := table.positions
  agrees name i := by rw [name_modify_addField, table.agrees]

@[simp] theorem all_addField (table : Layouts) (index : Nat) (field : Field) :
    (table.addField index field).all = table.all.modify index (·.addField field) := rfl

/-- The type of a field of the struct called `name`. -/
def fieldType? (table : Layouts) (name field : String) : Option DataType :=
  (table.lookup? name).bind (·.fieldType? field)

/-- How many structs there are. -/
def count (table : Layouts) : Nat := table.all.length

/-- Whether there is no struct. -/
def isEmpty (table : Layouts) : Bool := table.all.isEmpty

/-- Registers a struct together with its fields. -/
def define (table : Layouts) (name : String) (fields : List Field) : Layouts :=
  let (index, table) := table.register name
  fields.foldl (fun table field => table.addField index field) table

end Layouts

/-- Both tables. -/
structure Tables where
  arrays : ArraySizes := {}
  structs : Layouts := {}
  deriving Repr

end ClockedC
