import ClockedC.Ast.Program

/-!
# Outlines

A program drawn as a tree, one node a line, with rules from each node to its children.

* `Outline.draw` : the drawing of a tree;
* `Program.outline` : the tree of a program.
-/

namespace ClockedC

/-- A tree of labels. -/
inductive Outline where
  | node (label : String) (children : List Outline)

namespace Outline

/-- A node without children. -/
def leaf (label : String) : Outline := node label []

/-- The lines of trees that hang side by side, `margin` being what stands in front of each line. -/
def drawChildren (margin : String) : List Outline → String
  | [] => ""
  | [node label children] =>
    margin ++ "└── " ++ label ++ "\n" ++ drawChildren (margin ++ "    ") children
  | node label children :: rest =>
    margin ++ "├── " ++ label ++ "\n" ++ drawChildren (margin ++ "│   ") children ++
      drawChildren margin rest

/-- The lines of a tree. -/
def draw : Outline → String
  | node label children => label ++ "\n" ++ drawChildren "" children

end Outline

/-! ## Expressions -/

mutual

/-- The tree of an expression. -/
def Expr.outline : Expr → Outline
  | .number text _ => .leaf ("Number " ++ text)
  | .ident name _ => .leaf ("Identifier " ++ name)
  | .field base name _ => .node ("Field ." ++ name) [base.outline]
  | .element base index _ => .node "Index" [base.outline, index.outline]
  | .negate operand _ => .node "Negate" [operand.outline]
  | .binary op left right _ => .node ("BinaryOp " ++ op.spelling) [left.outline, right.outline]
  | .unary op operand _ => .node ("UnaryOp " ++ op.spelling) [operand.outline]
  | .call name args _ => .node ("Call " ++ name) (Expr.outlines args)

/-- The trees of several expressions. -/
def Expr.outlines : List Expr → List Outline
  | [] => []
  | e :: es => e.outline :: Expr.outlines es

end

/-! ## Statements -/

/-- The trees of what a variable holds at first. -/
def Initializer.outlines : Initializer → List Outline
  | value e => [e.outline]
  | elements es => [.node "ArrayInit" (Expr.outlines es)]
  | fields es => [.node "StructInit" (Expr.outlines es)]

/-- The tree of the declaration of a variable. -/
def Variable.outline (decl : Variable) : Outline :=
  let length := (decl.length.map fun n => "[" ++ toString n ++ "]").getD ""
  .node ("VarDecl " ++ decl.type.spelling ++ " " ++ decl.name ++ length)
    (decl.init.toList.flatMap Initializer.outlines)

/-- The tree of an assignment. -/
def Assignment.outline (assignment : Assignment) : Outline :=
  .node "Assignment" [assignment.target.outline, assignment.value.outline]

/-- The tree of a condition. -/
def conditionOutline (condition : Expr) : Outline := .node "Condition" [condition.outline]

mutual

/-- The tree of a statement. -/
def Statement.outline : Statement → Outline
  | .declare decl => decl.outline
  | .assign assignment => assignment.outline
  | .branch condition body alternative _ =>
    .node "If" (conditionOutline condition :: .node "Then" (Statement.outlines body) ::
      alternative.outlines)
  | .whileLoop condition body _ =>
    .node "While" [conditionOutline condition, .node "Body" (Statement.outlines body)]
  | .forLoop start condition step body _ =>
    .node "For"
      ((match start with
        | some start => [.node "Init" [start.outline]]
        | none => []) ++
        condition.toList.map conditionOutline ++
        step.toList.map (fun step => .node "Increment" [step.outline]) ++
        [.node "Body" (Statement.outlines body)])
  | .giveBack value _ => .node "Return" (value.toList.map Expr.outline)
  | .leaveLoop _ => .leaf "Break"
  | .nextRound _ => .leaf "Continue"
  | .evaluate value => .node "ExpressionStatement" [value.outline]

/-- The trees of the further arms of a branch. -/
def Alternative.outlines : Alternative → List Outline
  | .nothing => []
  | .elseIf condition body alternative =>
    .node "ElseIf" [conditionOutline condition, .node "Then" (Statement.outlines body)] ::
      alternative.outlines
  | .otherwise body => [.node "Else" (Statement.outlines body)]

/-- The trees of several statements. -/
def Statement.outlines : List Statement → List Outline
  | [] => []
  | s :: ss => s.outline :: Statement.outlines ss

end

/-! ## Programs -/

/-- The tree of a struct. -/
def Struct.outline (decl : Struct) : Outline :=
  .node ("Struct " ++ decl.name)
    (decl.fields.map fun field => .leaf ("Field " ++ field.type.spelling ++ " " ++ field.name))

/-- The tree of a function. -/
def Function.outline (f : Function) : Outline :=
  .node ("Function " ++ f.result.spelling ++ " " ++ f.name)
    (f.parameters.map (fun p => .leaf ("Param " ++ p.type.spelling ++ " " ++ p.name)) ++
      [.node "Body" (Statement.outlines f.body)])

/-- The tree of an item. -/
def Item.outline : Item → Outline
  | struct decl => decl.outline
  | function decl => decl.outline

/-- The tree of a program. -/
def Program.outline (program : Program) : Outline := .node "Program" (program.items.map Item.outline)

/-- The drawing of a program. -/
def Program.drawing (program : Program) : String := program.outline.draw

end ClockedC
