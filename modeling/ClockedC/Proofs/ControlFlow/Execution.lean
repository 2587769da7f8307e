import ClockedC.Compile
import ClockedC.Proofs.ControlFlow.Behavior
import ClockedC.Proofs.Hardware.Generation

/-!
# Executing statements

What the statements of a function do, and what the sequential statements of a process do. Conditions are decided by an
oracle that knows all actions so far, so that nothing is said about values. An action of the source is named by the
text it has in hardware.
-/

namespace ClockedC

/-- What a condition comes to after the actions of a history. -/
abbrev Oracle := List Action → String → Bool

/-! ## Hardware -/

/-- Whether the condition with a text holds after a history: `true` always does. -/
def Oracle.decides (oracle : Oracle) (condition : String) (h : List Action) : Bool :=
  condition = "true" || oracle h condition

namespace Vhdl

mutual

/-- What a sequential statement does. -/
def Stmt.behavior (oracle : Oracle) : Stmt → Behavior
  | .assign target value => .act (.assign (target.text ++ " <= " ++ value.text ++ ";"))
  | .ifThen condition body arms =>
    .choose condition.text (oracle.decides condition.text) (Stmt.behaviorOf oracle body) (arms.behavior oracle)
  | .loop condition body => .whileLoop condition.text (oracle.decides condition.text) (Stmt.behaviorOf oracle body)
  | .exit => .exit .left
  | .next => .exit .again
  | .unsynthesized _ => .exit .finished

/-- What the further arms of a branch do. -/
def Arms.behavior (oracle : Oracle) : Arms → Behavior
  | .done => .exit .finished
  | .elsif condition body arms =>
    .choose condition.text (oracle.decides condition.text) (Stmt.behaviorOf oracle body) (arms.behavior oracle)
  | .otherwise body => Stmt.behaviorOf oracle body

/-- What several sequential statements do in turn. -/
def Stmt.behaviorOf (oracle : Oracle) : List Stmt → Behavior
  | [] => .exit .finished
  | s :: ss => (s.behavior oracle).andThen (Stmt.behaviorOf oracle ss)

end

end Vhdl

/-! ## Source -/

/-- The lines of assignments, as actions. -/
def lineActions (assignments : List Vhdl.Stmt) : List Action :=
  (Vhdl.Stmt.linesOf 0 assignments).map fun line => .assign line.text

/-- Whether the condition of a loop holds after a history; one that is left out always does. -/
def Oracle.holds (oracle : Oracle) (signals : Signals) : Option Expr → List Action → Bool
  | some condition, h => oracle h (hardwareCondition signals condition).text
  | none, _ => true

/-- What the loop of a `for` statement does behind its start. -/
def Oracle.forLoop (oracle : Oracle) (signals : Signals) (condition : Option Expr) (step : Option Assignment)
    (body : Behavior) : Behavior :=
  .forLoop (loopCondition signals condition).text (oracle.holds signals condition) body
    (.acts (lineActions (step.toList.map (hardwareAssignment signals))))

mutual

/-- What a statement does in a function that gives back a value of type `type`, where `signals` are in sight. -/
def Statement.behavior (oracle : Oracle) (layouts : Layouts) (type : DataType) : Statement → Signals → Behavior
  | .declare decl, signals =>
    .acts (lineActions (hardwareInitializer layouts (signals.declare decl.name) decl))
  | .assign assignment, signals => .acts (lineActions [hardwareAssignment signals assignment])
  | .branch condition body alternative _, signals =>
    .choose (hardwareCondition signals condition).text (oracle.holds signals condition)
      (Statement.behaviorOf oracle layouts type body signals) (alternative.behavior oracle layouts type signals)
  | .whileLoop condition body _, signals =>
    .whileLoop (hardwareCondition signals condition).text (oracle.holds signals condition)
      (Statement.behaviorOf oracle layouts type body signals)
  | .forLoop none condition step body _, signals =>
    oracle.forLoop signals condition step (Statement.behaviorOf oracle layouts type body signals)
  | .forLoop (some start) condition step body _, signals =>
    (start.behavior oracle layouts type signals).andThen
      (oracle.forLoop (signals.behind start) condition step
        (Statement.behaviorOf oracle layouts type body (signals.behind start)))
  | .giveBack (some value) _, signals =>
    (Behavior.acts (lineActions (hardwareReturn layouts signals type value))).andThen (.exit .returned)
  | .giveBack none _, _ => .exit .returned
  | .leaveLoop _, _ => .exit .left
  | .nextRound _, _ => .exit .again
  | .evaluate _, _ => .exit .finished

/-- What the remaining arms of a branch do. -/
def Alternative.behavior (oracle : Oracle) (layouts : Layouts) (type : DataType) : Alternative → Signals → Behavior
  | .nothing, _ => .exit .finished
  | .elseIf condition body alternative, signals =>
    .choose (hardwareCondition signals condition).text (oracle.holds signals condition)
      (Statement.behaviorOf oracle layouts type body signals) (alternative.behavior oracle layouts type signals)
  | .otherwise body, signals => Statement.behaviorOf oracle layouts type body signals

/-- What several statements do in turn. -/
def Statement.behaviorOf (oracle : Oracle) (layouts : Layouts) (type : DataType) :
    List Statement → Signals → Behavior
  | [], _ => .exit .finished
  | s :: ss, signals =>
    (s.behavior oracle layouts type signals).andThen
      (Statement.behaviorOf oracle layouts type ss (signals.behind s))

end

/-- What a function does when it is called. -/
def Function.behavior (oracle : Oracle) (layouts : Layouts) (f : Function) : Behavior :=
  (Statement.behaviorOf oracle layouts f.result f.body (Signals.ofFunction f)).catching .returned

/-! ## Jumps -/

mutual

/-- Whether a statement may end by `e`, as far as the jumps in it tell. -/
def Statement.mayExit (e : Exit) : Statement → Bool
  | .declare _ => false
  | .assign _ => false
  | .branch _ body alternative _ => Statement.anyMayExit e body || alternative.mayExit e
  | .whileLoop _ body _ => e = .returned && Statement.anyMayExit e body
  | .forLoop none _ _ body _ => e = .returned && Statement.anyMayExit e body
  | .forLoop (some start) _ _ body _ => start.mayExit e || (e = .returned && Statement.anyMayExit e body)
  | .giveBack _ _ => e = .returned
  | .leaveLoop _ => e = .left
  | .nextRound _ => e = .again
  | .evaluate _ => false

/-- Whether a further arm of a branch may end by `e`. -/
def Alternative.mayExit (e : Exit) : Alternative → Bool
  | .nothing => false
  | .elseIf _ body alternative => Statement.anyMayExit e body || alternative.mayExit e
  | .otherwise body => Statement.anyMayExit e body

/-- Whether one of several statements may end by `e`. -/
def Statement.anyMayExit (e : Exit) : List Statement → Bool
  | [] => false
  | s :: ss => s.mayExit e || Statement.anyMayExit e ss

end

mutual

/-- Whether a `continue` stands in the statement whose innermost loop is a `for` loop in the statement. -/
def Statement.continuesFor : Statement → Bool
  | .branch _ body alternative _ => Statement.anyContinuesFor body || alternative.continuesFor
  | .whileLoop _ body _ => Statement.anyContinuesFor body
  | .forLoop none _ _ body _ => Statement.anyMayExit .again body || Statement.anyContinuesFor body
  | .forLoop (some start) _ _ body _ =>
    start.continuesFor || Statement.anyMayExit .again body || Statement.anyContinuesFor body
  | _ => false

/-- Whether such a `continue` stands in a further arm of a branch. -/
def Alternative.continuesFor : Alternative → Bool
  | .nothing => false
  | .elseIf _ body alternative => Statement.anyContinuesFor body || alternative.continuesFor
  | .otherwise body => Statement.anyContinuesFor body

/-- Whether such a `continue` stands in one of several statements. -/
def Statement.anyContinuesFor : List Statement → Bool
  | [] => false
  | s :: ss => s.continuesFor || Statement.anyContinuesFor ss

end

/-- Whether `return` stands nowhere in the statements but at their end. -/
def Statement.returnsOnlyLast : List Statement → Bool
  | [] => true
  | [.giveBack _ _] => true
  | s :: ss => !s.mayExit .returned && Statement.returnsOnlyLast ss

end ClockedC
