import ClockedC.Token.Basic

/-!
# Faults

Why a source text is refused. Each fault is a cause with what was found at the place; its wording stands in one
function. A fault that someone else found is given in words of its own, by the constructor `stated`.
-/

namespace ClockedC

/-! ## Lexical faults -/

/-- Why a text cannot be cut into tokens. -/
inductive LexicalFault where
  | unexpected (c : Char)
  | openString
  | openComment
  | stated (message : String)
  deriving DecidableEq, Repr

/-- The wording of a lexical fault. -/
def LexicalFault.message : LexicalFault → String
  | unexpected c => "Unexpected character: '" ++ String.ofList [c] ++ "'"
  | openString => "Unterminated string literal"
  | openComment => "Unterminated block comment"
  | stated message => message

/-! ## Syntactic faults -/

/-- Why tokens do not follow the grammar. -/
inductive SyntacticFault where
  /-- A symbol is missing; `context` says after, before or in what. -/
  | missing (symbol : Symbol) (context : String) (found : Lexeme)
  | noIdentifier (found : Lexeme)
  | noType (found : Lexeme)
  | noExpression (found : Lexeme)
  | noStatement (found : Lexeme)
  | noForStart (found : Lexeme)
  | noStep (found : Lexeme)
  | stringLiteral
  /-- The nesting exceeds the bound set for a text. -/
  | tooDeep
  | stated (message : String)
  deriving DecidableEq, Repr

/-- The wording of a syntactic fault. -/
def SyntacticFault.message : SyntacticFault → String
  | missing symbol context found =>
    "Expected '" ++ symbol.spelling ++ "' " ++ context ++ ", found " ++ found.describe
  | noIdentifier found =>
    if found.isKeyword then "Expected identifier, found reserved word " ++ found.describe
    else "Expected identifier, found " ++ found.describe
  | noType found => "Expected type, found " ++ found.describe
  | noExpression found => "Expected expression, found " ++ found.describe
  | noStatement found => "Unexpected " ++ found.describe ++ " at start of statement"
  | noForStart found =>
    "Expected declaration or assignment in for initializer, found " ++ found.describe
  | noStep found => "Expected '++', '--' or '=' in increment, found " ++ found.describe
  | stringLiteral => "String literals are not supported"
  | tooDeep => "Nesting is too deep"
  | stated message => message

/-! ## Faults of declarations -/

/-- Why a declaration is refused. -/
inductive DeclarationFault where
  | redefinedStruct (struct : String)
  | emptyStruct (struct : String)
  | undefinedStruct (struct : String)
  | voidField (field struct : String)
  | duplicateField (field struct : String)
  | voidParameter (parameter : String)
  | arrayParameter (parameter : String)
  | duplicateParameter (parameter : String)
  | voidVariable (name : String)
  | badArraySize (array text : String)
  | noArraySize (found : Lexeme)
  | bareArrayInitializer (array : String)
  | tooManyElements (array : String) (given size : Nat)
  | tooManyFields (struct : String) (given count : Nat)
  | bracedScalar (name : String)
  | stated (message : String)
  deriving DecidableEq, Repr

/-- The wording of a fault of a declaration. -/
def DeclarationFault.message : DeclarationFault → String
  | redefinedStruct s => "Redefinition of struct '" ++ s ++ "'"
  | emptyStruct s => "Struct '" ++ s ++ "' has no fields"
  | undefinedStruct s => "Undefined struct '" ++ s ++ "'"
  | voidField f s => "Field '" ++ f ++ "' of struct '" ++ s ++ "' cannot be void"
  | duplicateField f s => "Duplicate field '" ++ f ++ "' in struct '" ++ s ++ "'"
  | voidParameter p => "Parameter '" ++ p ++ "' cannot be void"
  | arrayParameter p => "Array parameter '" ++ p ++ "' is not supported"
  | duplicateParameter p => "Duplicate parameter '" ++ p ++ "'"
  | voidVariable x => "Variable '" ++ x ++ "' cannot be void"
  | badArraySize a text =>
    "Array size of '" ++ a ++ "' must be a positive integer constant, found " ++ text
  | noArraySize found => "Expected array size after '[', found " ++ found.describe
  | bareArrayInitializer a => "Array '" ++ a ++ "' must be initialized with a brace list"
  | tooManyElements a given size =>
    "Too many initializers for '" ++ a ++ "': " ++ toString given ++ " given, size is " ++ toString size
  | tooManyFields s given count =>
    "Too many initializers for struct '" ++ s ++ "': " ++ toString given ++ " given, " ++
      toString count ++ " fields"
  | bracedScalar x => "Brace initializer used for scalar '" ++ x ++ "'"
  | stated message => message

end ClockedC
