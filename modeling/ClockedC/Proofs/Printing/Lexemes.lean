import ClockedC.Proofs.Reading.Canonical

/-!
# Writing programs as lexemes

The canonical way to write a syntax tree down. Parentheses stand only where an operator would group otherwise, every
body stands in braces, and the sign of a literal is a symbol of its own.
-/

namespace ClockedC

/-- Lexemes as tokens that stand nowhere. -/
def tokensOf (lexemes : List Lexeme) : List Token := lexemes.map (⟨·, .nowhere⟩)

@[simp] theorem tokensOf_nil : tokensOf [] = [] := rfl

@[simp] theorem tokensOf_cons (l : Lexeme) (ls : List Lexeme) : tokensOf (l :: ls) = ⟨l, .nowhere⟩ :: tokensOf ls := rfl

@[simp] theorem tokensOf_append (ls ms : List Lexeme) : tokensOf (ls ++ ms) = tokensOf ls ++ tokensOf ms :=
  List.map_append

@[simp] theorem map_lexeme_tokensOf (ls : List Lexeme) : (tokensOf ls).map (·.lexeme) = ls := by
  rw [tokensOf, List.map_map]
  exact List.map_id ls

@[simp] theorem length_tokensOf (ls : List Lexeme) : (tokensOf ls).length = ls.length := List.length_map _

/-! ## Expressions -/

/-- Tighter than every operator: the precedence of what needs no parentheses anywhere. -/
def Operator.operandPrecedence : Int := 8

/-- Lexemes in parentheses. -/
def parenthesised (lexemes : List Lexeme) : List Lexeme :=
  .symbol .openParen :: lexemes ++ [.symbol .closeParen]

/-- Lexemes in braces. -/
def braced (lexemes : List Lexeme) : List Lexeme :=
  .symbol .openBrace :: lexemes ++ [.symbol .closeBrace]

/-- Lexemes that stand in parentheses unless they are `bare`. -/
def grouped (bare : Bool) (lexemes : List Lexeme) : List Lexeme :=
  if bare then lexemes else parenthesised lexemes

/-- Lexemes with commas between them. -/
def commaJoined : List (List Lexeme) → List Lexeme
  | [] => []
  | [first] => first
  | first :: second :: rest => first ++ .symbol .comma :: commaJoined (second :: rest)

/-- The lexemes of a literal, its sign apart. -/
def literalLexemes (text : String) : List Lexeme :=
  match text.toList with
  | '-' :: cs => [.symbol .minus, .number (String.ofList cs)]
  | _ => [.number text]

mutual

/-- How an expression is written. -/
def Expr.lexemes : Expr → List Lexeme
  | .number text _ => literalLexemes text
  | .ident name _ => [.identifier name]
  | .field base name _ => base.lexemes ++ [.symbol .dot, .identifier name]
  | .element base index _ =>
    base.lexemes ++ .symbol .openBracket :: (index.lexemes ++ [.symbol .closeBracket])
  | .negate operand _ => .symbol .minus :: operand.lexemes
  | .binary op left right _ =>
    grouped (left.bindsFrom op.precedence) left.lexemes ++
      .symbol op.symbol :: grouped (right.bindsFrom (op.precedence + 1)) right.lexemes
  | .unary op operand _ =>
    .symbol op.symbol :: grouped (operand.bindsFrom Operator.operandPrecedence) operand.lexemes
  | .call name args _ => .identifier name :: parenthesised (commaJoined (Expr.lexemesAll args))

/-- How several expressions are written, each for itself. -/
def Expr.lexemesAll : List Expr → List (List Lexeme)
  | [] => []
  | e :: es => e.lexemes :: Expr.lexemesAll es

end

theorem Expr.lexemesAll_eq_map (es : List Expr) : Expr.lexemesAll es = es.map Expr.lexemes :=
  eq_map_of_cons rfl (fun _ _ => rfl) es

/-- How an expression is written as an operand of an operator that asks for `least`. -/
def Expr.lexemesFrom (least : Int) (e : Expr) : List Lexeme := grouped (e.bindsFrom least) e.lexemes

/-- How several expressions are written with commas between them. -/
def Expr.listLexemes (es : List Expr) : List Lexeme := commaJoined (es.map Expr.lexemes)

/-! ## Declarations and assignments -/

/-- How a type is written. -/
def DataType.lexemes : DataType → List Lexeme
  | int => [.keyword .int]
  | float => [.keyword .float]
  | double => [.keyword .double]
  | char => [.keyword .char]
  | void => [.keyword .void]
  | struct name => [.keyword .struct, .identifier name]

/-- How the value that a variable holds at first is written. -/
def Initializer.lexemes : Initializer → List Lexeme
  | value e => e.lexemes
  | elements values => braced (Expr.listLexemes values)
  | fields values => braced (Expr.listLexemes values)

/-- How the length of an array is written. -/
def lengthLexemes : Option Nat → List Lexeme
  | none => []
  | some n => [.symbol .openBracket, .number (toString n), .symbol .closeBracket]

/-- How the value of a declaration is written. -/
def initLexemes : Option Initializer → List Lexeme
  | none => []
  | some init => .symbol .assign :: init.lexemes

/-- How the declaration of a variable is written. -/
def Variable.lexemes (v : Variable) : List Lexeme :=
  v.type.lexemes ++ .identifier v.name :: (lengthLexemes v.length ++ (initLexemes v.init ++ [.symbol .semicolon]))

/-- How an assignment is written. -/
def Assignment.lexemes (a : Assignment) : List Lexeme :=
  a.target.lexemes ++ .symbol .assign :: a.value.lexemes

/-! ## Statements -/

/-- How an expression that may be missing is written. -/
def conditionLexemes : Option Expr → List Lexeme
  | none => []
  | some e => e.lexemes

/-- How a step that may be missing is written. -/
def stepLexemes : Option Assignment → List Lexeme
  | none => []
  | some a => a.lexemes

mutual

/-- How a statement is written. -/
def Statement.lexemes : Statement → List Lexeme
  | .declare decl => decl.lexemes
  | .assign a => a.lexemes ++ [.symbol .semicolon]
  | .branch condition body alternative _ =>
    .keyword .ifWord :: (parenthesised condition.lexemes ++
      (braced (Statement.listLexemes body) ++ alternative.lexemes))
  | .whileLoop condition body _ =>
    .keyword .whileWord :: (parenthesised condition.lexemes ++ braced (Statement.listLexemes body))
  | .forLoop none condition step body _ =>
    .keyword .forWord :: .symbol .openParen :: .symbol .semicolon :: (conditionLexemes condition ++
      .symbol .semicolon :: (stepLexemes step ++ .symbol .closeParen :: braced (Statement.listLexemes body)))
  | .forLoop (some start) condition step body _ =>
    .keyword .forWord :: .symbol .openParen :: (start.lexemes ++ (conditionLexemes condition ++
      .symbol .semicolon :: (stepLexemes step ++ .symbol .closeParen :: braced (Statement.listLexemes body))))
  | .giveBack value _ => .keyword .returnWord :: (conditionLexemes value ++ [.symbol .semicolon])
  | .leaveLoop _ => [.keyword .breakWord, .symbol .semicolon]
  | .nextRound _ => [.keyword .continueWord, .symbol .semicolon]
  | .evaluate value => value.lexemes ++ [.symbol .semicolon]

/-- How the remaining arms of a branch are written. -/
def Alternative.lexemes : Alternative → List Lexeme
  | .nothing => []
  | .elseIf condition body alternative =>
    .keyword .elseWord :: .keyword .ifWord :: (parenthesised condition.lexemes ++
      (braced (Statement.listLexemes body) ++ alternative.lexemes))
  | .otherwise body => .keyword .elseWord :: braced (Statement.listLexemes body)

/-- How statements are written in a row. -/
def Statement.listLexemes : List Statement → List Lexeme
  | [] => []
  | s :: ss => s.lexemes ++ Statement.listLexemes ss

end

/-! ## Programs -/

/-- How a field of a struct is written. -/
def Field.lexemes (f : Field) : List Lexeme := f.type.lexemes ++ [.identifier f.name, .symbol .semicolon]

/-- How the definition of a struct is written. -/
def Struct.lexemes (s : Struct) : List Lexeme :=
  .keyword .struct :: .identifier s.name ::
    (braced (s.fields.flatMap Field.lexemes) ++ [.symbol .semicolon])

/-- How a parameter is written. -/
def Parameter.lexemes (p : Parameter) : List Lexeme := p.type.lexemes ++ [.identifier p.name]

/-- How a function is written. -/
def Function.lexemes (f : Function) : List Lexeme :=
  f.result.lexemes ++ .identifier f.name ::
    (parenthesised (commaJoined (f.parameters.map Parameter.lexemes)) ++ braced (Statement.listLexemes f.body))

/-- How an item is written. -/
def Item.lexemes : Item → List Lexeme
  | struct decl => decl.lexemes
  | function decl => decl.lexemes

/-- How a program is written. -/
def Program.lexemes (p : Program) : List Lexeme := p.items.flatMap Item.lexemes

end ClockedC
