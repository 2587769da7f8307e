import ClockedC.Proofs.Reading.Canonical

/-!
# Admissible programs

The programs that reading can give, said on syntax trees alone. Declarations are checked in source order: an array is
in sight from its brackets on to the end of the function, a struct from the end of its definition on.
-/

namespace ClockedC

/-! ## Arrays in sight -/

namespace ArraySizes

/-- The arrays in sight behind a declaration. -/
def declare (arrays : ArraySizes) (decl : Variable) : ArraySizes :=
  match decl.length with
  | some length => arrays.register decl.name length
  | none => arrays

/-- The arrays in sight behind several declarations. -/
def declareAll (arrays : ArraySizes) (decls : List Variable) : ArraySizes := decls.foldl declare arrays

@[simp] theorem declareAll_nil (arrays : ArraySizes) : arrays.declareAll [] = arrays := rfl

@[simp] theorem declareAll_singleton (arrays : ArraySizes) (decl : Variable) :
    arrays.declareAll [decl] = arrays.declare decl := rfl

@[simp] theorem declareAll_append (arrays : ArraySizes) (decls decls' : List Variable) :
    arrays.declareAll (decls ++ decls') = (arrays.declareAll decls).declareAll decls' := List.foldl_append

end ArraySizes

/-! ## Declarations and assignments -/

/-- The type is defined. -/
def DataType.Known (structs : Layouts) : DataType → Prop
  | struct name => (structs.index? name).isSome
  | _ => True

/-- How many values a brace list for a struct may have. -/
def Layouts.fieldCount (structs : Layouts) (name : String) : Nat :=
  ((structs.lookup? name).map (·.fields.length)).getD 0

/-- The value fits a variable of the given type and length. -/
def Initializer.Admissible (structs : Layouts) (arrays : ArraySizes) (type : DataType) (length : Option Nat) :
    Initializer → Prop
  | value e => length = none ∧ e.Written arrays
  | elements es => (∃ n, length = some n ∧ es.length ≤ n) ∧ ∀ e ∈ es, e.Written arrays
  | fields es =>
    length = none ∧ (∃ name, type = .struct name ∧ es.length ≤ structs.fieldCount name) ∧ ∀ e ∈ es, e.Written arrays

/-- The declaration can be read where `arrays` are in sight. Its own brackets are read before its value. -/
structure Variable.Admissible (structs : Layouts) (arrays : ArraySizes) (decl : Variable) : Prop where
  known : decl.type.Known structs
  ne_void : decl.type ≠ .void
  length : ∀ n ∈ decl.length, 0 < n ∧ n < Text.wordCount
  init : ∀ init ∈ decl.init, init.Admissible structs (arrays.declare decl) decl.type decl.length

/-- The assignment can be read where `arrays` are in sight. -/
structure Assignment.Admissible (arrays : ArraySizes) (assignment : Assignment) : Prop where
  isPlace : assignment.target.isPlace
  target : assignment.target.Written arrays
  value : assignment.value.Written arrays

/-! ## Statements -/

/-- Whether the first lexeme of an expression is a name. -/
def Expr.startsWithName : Expr → Bool
  | ident .. => true
  | field .. => true
  | element .. => true
  | call .. => true
  | binary op left _ _ => left.bindsFrom op.precedence && left.startsWithName
  | _ => false

/-- Whether a statement may stand before the first round of a loop. -/
def Statement.isForStart : Statement → Bool
  | declare _ => true
  | assign _ => true
  | _ => false

mutual

/-- The statement can be read where `arrays` are in sight, inside of a loop or not. -/
def Statement.Admissible (structs : Layouts) (inLoop : Prop) (arrays : ArraySizes) : Statement → Prop
  | .declare decl => decl.Admissible structs arrays
  | .assign assignment => assignment.Admissible arrays
  | .branch condition body alternative _ =>
    condition.Written arrays ∧ Statement.AllAdmissible structs inLoop arrays body ∧
      alternative.Admissible structs inLoop (arrays.declareAll (Statement.localsOf body))
  | .whileLoop condition body _ => condition.Written arrays ∧ Statement.AllAdmissible structs True arrays body
  | .forLoop none condition step body _ =>
    (∀ e ∈ condition, e.Written arrays) ∧ (∀ a ∈ step, a.Admissible arrays) ∧
      Statement.AllAdmissible structs True arrays body
  | .forLoop (some start) condition step body _ =>
    start.isForStart ∧ start.Admissible structs inLoop arrays ∧
      (∀ e ∈ condition, e.Written (arrays.declareAll start.locals)) ∧
      (∀ a ∈ step, a.Admissible (arrays.declareAll start.locals)) ∧
      Statement.AllAdmissible structs True (arrays.declareAll start.locals) body
  | .giveBack value _ => ∀ e ∈ value, e.Written arrays
  | .leaveLoop _ => inLoop
  | .nextRound _ => inLoop
  | .evaluate value => value.startsWithName ∧ value.Written arrays

/-- The remaining arms of a branch can be read. -/
def Alternative.Admissible (structs : Layouts) (inLoop : Prop) (arrays : ArraySizes) : Alternative → Prop
  | .nothing => True
  | .elseIf condition body alternative =>
    condition.Written arrays ∧ Statement.AllAdmissible structs inLoop arrays body ∧
      alternative.Admissible structs inLoop (arrays.declareAll (Statement.localsOf body))
  | .otherwise body => Statement.AllAdmissible structs inLoop arrays body

/-- The statements can be read in a row. -/
def Statement.AllAdmissible (structs : Layouts) (inLoop : Prop) (arrays : ArraySizes) : List Statement → Prop
  | [] => True
  | s :: ss =>
    s.Admissible structs inLoop arrays ∧ Statement.AllAdmissible structs inLoop (arrays.declareAll s.locals) ss

end

/-- Statements behind admissible ones are admissible if they are so with what those declare. -/
theorem Statement.AllAdmissible.append {structs : Layouts} {inLoop : Prop} {arrays : ArraySizes}
    {ss ts : List Statement} (hs : AllAdmissible structs inLoop arrays ss)
    (ht : AllAdmissible structs inLoop (arrays.declareAll (localsOf ss)) ts) :
    AllAdmissible structs inLoop arrays (ss ++ ts) := by
  induction ss generalizing arrays with
  | nil => exact ht
  | cons s ss ih =>
    rw [localsOf_cons, ArraySizes.declareAll_append] at ht
    exact ⟨hs.1, ih hs.2 ht⟩

/-! ## Programs -/

/-- The types of fields are known and not `void`, and their names differ. -/
structure FieldsAdmissible (structs : Layouts) (fields : List Field) : Prop where
  known : ∀ f ∈ fields, f.type.Known structs ∧ f.type ≠ .void
  nodup : (fields.map (·.name)).Nodup

theorem FieldsAdmissible.nil (structs : Layouts) : FieldsAdmissible structs [] := ⟨by simp, by simp⟩

/-- One more field of a new name. -/
theorem FieldsAdmissible.append {structs : Layouts} {fields : List Field} {field : Field}
    (h : FieldsAdmissible structs fields) (hknown : field.type.Known structs) (hvoid : field.type ≠ .void)
    (hnew : ¬ fields.any (·.name = field.name)) : FieldsAdmissible structs (fields ++ [field]) := by
  constructor
  · intro f hf
    rcases List.mem_append.1 hf with hf | hf
    · exact h.known f hf
    · rw [List.mem_singleton.1 hf]
      exact ⟨hknown, hvoid⟩
  · rw [List.map_append, List.nodup_append]
    refine ⟨h.nodup, by simp, ?_⟩
    simp only [List.any_eq_true, decide_eq_true_eq, not_exists, not_and] at hnew
    simpa using hnew

/-- A parameter as a field. -/
def Parameter.toField (p : Parameter) : Field := ⟨p.name, p.type⟩

/-- The struct can be read where `structs` are defined. -/
structure Struct.Admissible (structs : Layouts) (decl : Struct) : Prop where
  fresh : structs.index? decl.name = none
  ne_nil : decl.fields ≠ []
  fields : FieldsAdmissible structs decl.fields

/-- The function can be read where `structs` are defined. -/
structure Function.Admissible (structs : Layouts) (f : Function) : Prop where
  result : f.result.Known structs
  parameters : FieldsAdmissible structs (f.parameters.map Parameter.toField)
  body : Statement.AllAdmissible structs False .empty f.body

/-- The item can be read where `structs` are defined. -/
def Item.Admissible (structs : Layouts) : Item → Prop
  | struct decl => decl.Admissible structs
  | function f => f.Admissible structs

/-- The structs defined behind an item. -/
def Layouts.behind (structs : Layouts) : Item → Layouts
  | .struct decl => structs.define decl.name decl.fields
  | .function _ => structs

/-- The items can be read in a row. -/
def Item.AllAdmissible (structs : Layouts) : List Item → Prop
  | [] => True
  | item :: items => item.Admissible structs ∧ Item.AllAdmissible (structs.behind item) items

/-- The structs defined behind several items. -/
def Layouts.behindAll (structs : Layouts) (items : List Item) : Layouts := items.foldl behind structs

@[simp] theorem Layouts.behindAll_nil (structs : Layouts) : structs.behindAll [] = structs := rfl

@[simp] theorem Layouts.behindAll_append (structs : Layouts) (items items' : List Item) :
    structs.behindAll (items ++ items') = (structs.behindAll items).behindAll items' := List.foldl_append

end ClockedC
