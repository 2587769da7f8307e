import ClockedC.Vhdl.Sequential

/-!
# Designs

A design is a list of record types and a list of entities, each entity with one architecture that holds signals
and one clocked process.

* `Record.lines`, `Entity.lines`, `Design.lines` : their layout;
* `Design.text` : the text of a design.
-/

namespace ClockedC.Vhdl

/-! ## Types of signals -/

/-- The type of a signal. -/
inductive SignalType where
  | vector (width : Nat)
  /-- The record type of a struct. -/
  | record (struct : String)
  deriving DecidableEq, Repr

/-- The name of the record type of a struct. -/
def recordName (struct : String) : String := struct ++ "_t"

/-- How the type of a signal is written. -/
def SignalType.text : SignalType → String
  | vector width => "std_logic_vector(" ++ toString (width - 1) ++ " downto 0)"
  | record struct => recordName struct

/-! ## Records -/

/-- A record type. -/
structure Record where
  /-- The struct it is made for. -/
  struct : String
  fields : List (String × SignalType)
  deriving DecidableEq, Repr

/-- The lines of a record type. -/
def Record.lines (record : Record) : List Line :=
  [⟨0, "-- Struct " ++ record.struct ++ " as VHDL record"⟩,
    ⟨0, "type " ++ recordName record.struct ++ " is record"⟩] ++
    record.fields.map (fun (name, type) => ⟨1, name ++ " : " ++ type.text ++ ";"⟩) ++
    [⟨0, "end record;"⟩, .empty]

/-! ## Signals -/

/-- The declaration of a signal. An array has a type of its own, and its first contents are a constant. -/
inductive Declaration where
  | signal (name : String) (type : SignalType)
  | array (name : String) (length : Nat) (element : SignalType) (contents : Option (List Expr))
  deriving Repr

namespace Declaration

/-- The name of the type of an array. -/
def arrayTypeName (name : String) : String := name ++ "_type"

/-- The name of the constant with the first contents of an array. -/
def contentsName (name : String) : String := name ++ "_init"

/-- The elements of an array in parentheses; a single one needs its index. -/
def aggregate : List Expr → String
  | [e] => "(0 => " ++ e.text ++ ")"
  | es => "(" ++ ", ".intercalate (es.map Expr.text) ++ ")"

/-- The lines of a declaration. -/
def lines : Declaration → List Line
  | signal name type => [⟨1, "signal " ++ name ++ " : " ++ type.text ++ ";"⟩]
  | array name length element contents =>
    let type := arrayTypeName name
    ⟨1, "type " ++ type ++ " is array (0 to " ++ toString (length - 1) ++ ") of " ++ element.text ++ ";"⟩ ::
      match contents with
      | none => [⟨1, "signal " ++ name ++ " : " ++ type ++ ";"⟩]
      | some es =>
        [⟨1, "-- Array initialization"⟩,
          ⟨1, "constant " ++ contentsName name ++ " : " ++ type ++ " := " ++ aggregate es ++ ";"⟩,
          ⟨1, "signal " ++ name ++ " : " ++ type ++ " := " ++ contentsName name ++ ";"⟩]

end Declaration

/-! ## Entities -/

/-- The port that carries the result of an entity. -/
def resultPort : String := "result"

/-- The ports that every entity has. -/
def reservedPorts : List String := ["clk", "reset", resultPort]

/-- An entity with its architecture. -/
structure Entity where
  name : String
  inputs : List (String × SignalType)
  output : SignalType
  signals : List Declaration
  /-- What happens at a rising edge of the clock. -/
  body : List Stmt

namespace Entity

/-- The lines of the ports. -/
def portLines (entity : Entity) : List Line :=
  [⟨0, "-- Function: " ++ entity.name⟩,
    ⟨0, "entity " ++ entity.name ++ " is"⟩,
    ⟨1, "port ("⟩,
    ⟨2, "clk   : in  std_logic;"⟩,
    ⟨2, "reset : in  std_logic;"⟩] ++
    entity.inputs.map (fun (name, type) => ⟨2, name ++ " : in " ++ type.text ++ ";"⟩) ++
    [⟨2, resultPort ++ " : out " ++ entity.output.text⟩,
      ⟨1, ");"⟩,
      ⟨0, "end entity;"⟩,
      .empty]

/-- The lines of the architecture. -/
def architectureLines (entity : Entity) : List Line :=
  [⟨0, "architecture behavioral of " ++ entity.name ++ " is"⟩] ++
    entity.signals.flatMap Declaration.lines ++
    [⟨0, "begin"⟩,
      ⟨1, "process(clk, reset)"⟩,
      ⟨1, "begin"⟩,
      ⟨2, "if reset = '1' then"⟩,
      ⟨3, "-- Reset logic (user-defined)"⟩,
      ⟨2, "elsif rising_edge(clk) then"⟩] ++
    Stmt.linesOf 3 entity.body ++
    [⟨2, "end if;"⟩,
      ⟨1, "end process;"⟩,
      ⟨0, "end architecture;"⟩,
      .empty]

/-- The lines of an entity. -/
def lines (entity : Entity) : List Line := entity.portLines ++ entity.architectureLines

end Entity

/-! ## Designs -/

/-- Record types and the entities that use them. -/
structure Design where
  records : List Record
  entities : List Entity

namespace Design

/-- The lines at the beginning of every design. -/
def preamble : List Line :=
  [⟨0, "-- VHDL generated by compi"⟩,
    .empty,
    ⟨0, "library IEEE;"⟩,
    ⟨0, "use IEEE.STD_LOGIC_1164.ALL;"⟩,
    ⟨0, "use IEEE.NUMERIC_STD.ALL;"⟩,
    .empty]

/-- The lines of a design. -/
def lines (design : Design) : List Line :=
  preamble ++ design.records.flatMap Record.lines ++ design.entities.flatMap Entity.lines

/-- The text of a design. -/
def text (design : Design) : String := Line.renderAll design.lines

end Design

end ClockedC.Vhdl
