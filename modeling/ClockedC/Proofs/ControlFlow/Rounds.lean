import ClockedC.Proofs.ControlFlow.Simulation
import ClockedC.Proofs.Hardware.Emission

/-!
# Rounds of loops

A loop tests its condition and then makes a round, again and again. What is done between two tests is a round. In
hardware the step of a `for` loop stands at the end of the body, so that it is made in every round that comes to the end
of the body. A round that `continue` cuts short does not make the step.

* `for_step_between_tests` : what a `for` loop does between two tests of its condition;
* `for_step_skipped` : a loop that tests its condition again without having made its step.
-/

namespace ClockedC

/-! ## Rounds -/

namespace Behavior

variable {h : List Action}

/-- A round of a loop: the history up to the test before it, and what is done behind the test. -/
structure Round where
  start : List Action
  actions : List Action
  deriving DecidableEq, Repr

/-- The rounds that are seen of a loop, one for every test of its condition. The last one may be cut short, or the test
before it may have ended the loop. -/
def rounds (condition : String) (holds : List Action → Bool) (round : Behavior) (h : List Action) : Nat → List Round
  | 0 => []
  | n + 1 =>
    let tested := h ++ [.test condition]
    let seen := round.observe tested n
    if holds h then
      ⟨tested, seen.actions⟩ ::
        if seen.exit = some .finished then
          rounds condition holds round (tested ++ seen.actions) (n - seen.actions.length)
        else []
    else [⟨tested, []⟩]
termination_by n => n
decreasing_by omega

/-- Tests and rounds in turn are all that is seen of a loop. -/
theorem actions_observeRounds (condition : String) (holds : List Action → Bool) (round : Behavior) (h : List Action)
    (n : Nat) :
    (observeRounds condition holds round h n).actions =
      (rounds condition holds round h n).flatMap fun r => .test condition :: r.actions := by
  induction n using Nat.strong_induction_on generalizing h with
  | _ n ih =>
    cases n with
    | zero => rw [observeRounds, rounds, List.flatMap_nil]
    | succ n =>
      rw [observeRounds, rounds]
      by_cases hholds : holds h
      · simp only [hholds, if_true, Observation.prepend, List.flatMap_cons, List.cons_append]
        by_cases hexit : (round.observe (h ++ [.test condition]) n).exit = some .finished
        · rw [Observation.followedBy_of_finished hexit, if_pos hexit, ih _ (by omega)]
        · rw [Observation.followedBy_of_not_finished hexit, if_neg hexit, List.flatMap_nil, List.append_nil]
      · rw [if_neg hholds, if_neg hholds]
        rfl

/-- A round with another test behind it finished. -/
theorem endsBy_of_mem_dropLast {condition : String} {holds : List Action → Bool} {round : Behavior} {n : Nat}
    {r : Round} (hr : r ∈ (rounds condition holds round h n).dropLast) : round.EndsBy r.start r.actions .finished := by
  induction n using Nat.strong_induction_on generalizing h with
  | _ n ih =>
    cases n with
    | zero => simp [rounds] at hr
    | succ n =>
      rw [rounds] at hr
      by_cases hholds : holds h
      · simp only [hholds, if_true] at hr
        by_cases hexit : (round.observe (h ++ [.test condition]) n).exit = some .finished
        · rw [if_pos hexit] at hr
          have hlater := @ih (n - (round.observe (h ++ [.test condition]) n).actions.length) (by omega)
            (h ++ [.test condition] ++ (round.observe (h ++ [.test condition]) n).actions)
          revert hr hlater
          -- a round behind which there is another one is not the last
          cases rounds condition holds round _ (n - (round.observe (h ++ [.test condition]) n).actions.length) with
          | nil =>
            intro hr
            cases hr
          | cons next rest =>
            intro hr hlater
            rcases List.mem_cons.1 hr with rfl | hr
            · exact endsBy_of_exit hexit
            · exact hlater hr
        · rw [if_neg hexit] at hr
          cases hr
      · rw [if_neg hholds] at hr
        cases hr

/-- The rounds of a loop whose body may go on to the next round by itself. -/
def whileRounds (condition : String) (holds : List Action → Bool) (body : Behavior) : List Action → Nat → List Round :=
  rounds condition holds (body.catching .again)

/-- What is seen of a loop is the test and the actions of one round after another. -/
theorem actions_whileLoop (condition : String) (holds : List Action → Bool) (body : Behavior) (h : List Action)
    (n : Nat) :
    ((whileLoop condition holds body).observe h n).actions =
      (whileRounds condition holds body h n).flatMap fun r => .test condition :: r.actions := by
  rw [whileLoop, observe_catching, Observation.actions_catching]
  exact actions_observeRounds ..

/-- A round with another test behind it made the action at the end of the body, or the body went on by itself before. -/
theorem cases_of_mem_whileRounds {condition : String} {holds : List Action → Bool} {body : Behavior} {a : Action}
    {n : Nat} {r : Round} (hr : r ∈ (whileRounds condition holds (body.andThen (act a)) h n).dropLast) :
    (∃ as, r.actions = as ++ [a] ∧ body.EndsBy r.start as .finished) ∨ body.EndsBy r.start r.actions .again := by
  rcases (endsBy_of_mem_dropLast hr).of_catching with hends | ⟨-, hends⟩
  · rcases hends.of_andThen with ⟨as, last, hactions, hbody, hlast⟩ | ⟨hne, -⟩
    · obtain ⟨rfl, -⟩ := hlast.of_act
      exact .inl ⟨as, hactions, hbody⟩
    · exact absurd rfl hne
  · rcases hends.of_andThen with ⟨_, _, -, -, hlast⟩ | ⟨-, hbody⟩
    · exact absurd hlast.of_act.2 (by decide)
    · exact .inr hbody

end Behavior

/-! ## Jumps in hardware -/

section Jumps

variable (oracle : Oracle) (layouts : Layouts) (type : DataType) {e : Exit}

/-- Assignments only finish. -/
theorem Vhdl.Stmt.never_behaviorOf_assignments {ss : List Vhdl.Stmt} (h : ∀ s ∈ ss, s.IsAssign) (he : e ≠ .finished) :
    (Vhdl.Stmt.behaviorOf oracle ss).Never e := by
  rw [Vhdl.Stmt.behaviorOf_assignments oracle h]
  exact Behavior.never_acts he _

mutual

/-- The sequential statements of a statement leave a loop, or go on to its next round, only by jumps that stand in
it. -/
theorem never_hardwareStatement (he : e = .left ∨ e = .again) (s : Statement) (h : s.mayExit e = false)
    (signals : Signals) : (Vhdl.Stmt.behaviorOf oracle ((hardwareStatement layouts type s).run signals).1).Never e := by
  have hfinished : e ≠ .finished := by rcases he with rfl | rfl <;> decide
  have hreturned : e ≠ .returned := by rcases he with rfl | rfl <;> decide
  cases s with
  | declare decl =>
    exact Vhdl.Stmt.never_behaviorOf_assignments oracle
      (fun s hs => (assignsTo_of_mem_hardwareInitializer hs).isAssign) hfinished
  | assign assignment =>
    rw [run_assign]
    refine Vhdl.Stmt.never_behaviorOf_assignments oracle (fun s hs => ?_) hfinished
    rw [List.mem_singleton.1 hs]
    exact ⟨_, _, hardwareAssignment_eq signals assignment⟩
  | branch condition body alternative loc =>
    rw [Statement.mayExit, Bool.or_eq_false_iff] at h
    rw [run_branch (run_block body signals) (run_hardwareArms alternative signals), Vhdl.Stmt.behaviorOf_singleton]
    exact Behavior.never_choose (never_hardwareStatements he body h.1 signals)
      (never_hardwareArms he alternative h.2 signals)
  | whileLoop condition body loc =>
    -- the jumps of the body end in the loop, so nothing is asked of the body
    rw [run_whileLoop (run_block body signals), Vhdl.Stmt.behaviorOf_singleton]
    exact Behavior.never_whileLoop hfinished fun hreturn => absurd hreturn hreturned
  | forLoop start condition step body loc =>
    rw [fst_run_forLoop, Vhdl.Stmt.behaviorOf_append, Vhdl.Stmt.behaviorOf_singleton]
    refine Behavior.Never.andThen ?_ (Behavior.never_whileLoop hfinished fun hreturn => absurd hreturn hreturned)
    cases start with
    | none => exact Behavior.never_exit hfinished.symm
    | some start =>
      rw [Statement.mayExit, Bool.or_eq_false_iff] at h
      exact never_hardwareStatement he start h.1 signals
  | giveBack value loc =>
    cases value with
    | none => exact Behavior.never_exit hfinished.symm
    | some value =>
      exact Vhdl.Stmt.never_behaviorOf_assignments oracle
        (fun s hs => (assignsTo_of_mem_hardwareReturn hs).isAssign) hfinished
  | leaveLoop loc =>
    have hleft : Exit.left ≠ e := by simpa [Statement.mayExit, eq_comm] using h
    exact (Behavior.never_exit hleft).andThen (Behavior.never_exit hfinished.symm)
  | nextRound loc =>
    have hagain : Exit.again ≠ e := by simpa [Statement.mayExit, eq_comm] using h
    exact (Behavior.never_exit hagain).andThen (Behavior.never_exit hfinished.symm)
  | evaluate value =>
    rw [run_evaluate]
    exact (Behavior.never_exit hfinished.symm).andThen (Behavior.never_exit hfinished.symm)

/-- The hardware of further arms without a jump does not end by it. -/
theorem never_hardwareArms (he : e = .left ∨ e = .again) (alternative : Alternative)
    (h : alternative.mayExit e = false) (signals : Signals) :
    (((hardwareArms layouts type alternative).run signals).1.behavior oracle).Never e := by
  have hfinished : e ≠ .finished := by rcases he with rfl | rfl <;> decide
  cases alternative with
  | nothing => exact Behavior.never_exit hfinished.symm
  | elseIf condition body rest =>
    rw [Alternative.mayExit, Bool.or_eq_false_iff] at h
    rw [run_elseIf (run_block body signals) (run_hardwareArms rest signals)]
    exact Behavior.never_choose (never_hardwareStatements he body h.1 signals) (never_hardwareArms he rest h.2 signals)
  | otherwise body =>
    rw [run_otherwise (run_block body signals)]
    exact never_hardwareStatements he body h signals

/-- The hardware of statements without a jump does not end by it. -/
theorem never_hardwareStatements (he : e = .left ∨ e = .again) (ss : List Statement)
    (h : Statement.anyMayExit e ss = false) (signals : Signals) :
    (Vhdl.Stmt.behaviorOf oracle ((hardwareStatements layouts type ss).run signals).1).Never e := by
  cases ss with
  | nil => exact Behavior.never_exit (by rcases he with rfl | rfl <;> decide)
  | cons s ss =>
    rw [Statement.anyMayExit, Bool.or_eq_false_iff] at h
    rw [run_cons (run_hardwareStatement s signals) (run_eq_of_snd rfl), Vhdl.Stmt.behaviorOf_append]
    exact (never_hardwareStatement he s h.1 signals).andThen (never_hardwareStatements he ss h.2 _)

end

end Jumps

/-! ## The lines of loops -/

namespace Vhdl

theorem Arms.Legible.of_mem_bodies {arms : Arms} (h : arms.Legible) {arm : List Stmt} (harm : arm ∈ arms.bodies) :
    Stmt.AllLegible arm := by
  cases arms with
  | done => cases harm
  | elsif condition body rest =>
    rcases List.mem_cons.1 harm with rfl | harm
    · exact h.1
    · exact Legible.of_mem_bodies h.2 harm
  | otherwise body =>
    rw [List.mem_singleton.1 harm]
    exact h

/-- To be legible passes on to the statements inside. -/
theorem Stmt.inherited_allLegible : Stmt.Inherited fun _ ss => Stmt.AllLegible ss where
  left h := Stmt.allLegible_iff.2 fun s hs => Stmt.allLegible_iff.1 h s (List.mem_append_left _ hs)
  right h := Stmt.allLegible_iff.2 fun s hs => Stmt.allLegible_iff.1 h s (List.mem_append_right _ hs)
  body h := h.1.1
  arm h harm := h.1.2.of_mem_bodies harm
  loop h := h.1

/-- The lines of a loop: its level of indentation, its condition and the lines of its body. -/
structure Line.Loop where
  level : Nat
  condition : String
  body : List Line
  deriving DecidableEq, Repr

namespace Line.Loop

/-- All lines of a loop. -/
def lines (loop : Loop) : List Line :=
  ⟨loop.level, "while " ++ loop.condition ++ " loop"⟩ :: (loop.body ++ [⟨loop.level, "end loop;"⟩])

/-- The rounds that are seen of a loop, if the lines of its body are nested properly. -/
def rounds? (oracle : Oracle) (loop : Loop) (h : List Action) (n : Nat) : Option (List Behavior.Round) :=
  (Line.behavior? oracle loop.body).map fun body =>
    Behavior.whileRounds loop.condition (oracle.decides loop.condition) body h n

/-- Wherever the loop is begun, it makes the action between any two tests of its condition. -/
def MakesBetweenTests (loop : Loop) (a : Action) : Prop :=
  ∀ (oracle : Oracle) (h : List Action) (n : Nat), ∃ rounds, loop.rounds? oracle h n = some rounds ∧
    ∀ r ∈ rounds.dropLast, a ∈ r.actions

/-- The lines of a loop are those of a sequential statement. -/
theorem lines_eq_linesOf (condition : Vhdl.Expr) (body : List Stmt) (level : Nat) :
    (Loop.mk level condition.text (Stmt.linesOf (level + 1) body)).lines =
      Stmt.linesOf level [.loop condition body] := by
  rw [Stmt.linesOf_singleton, Stmt.lines, lines]

end Line.Loop

end Vhdl

/-! ## `for` loops -/

/-- The line of an assignment, as an action. -/
def Assignment.action (signals : Signals) (a : Assignment) : Action :=
  .assign ((hardwareExpr signals a.target).text ++ " <= " ++ (hardwareExpr signals a.value).text ++ ";")

/-- The lines of the body of a loop. -/
def bodyLines (layouts : Layouts) (type : DataType) (signals : Signals) (body : List Statement) (level : Nat) :
    List Vhdl.Line :=
  Vhdl.Stmt.linesOf (level + 1) ((hardwareStatements layouts type body).run signals).1

/-- The loop that a `for` statement becomes, where `signals` are in sight behind its start: the step stands at the end
of the body. -/
def loopOfFor (layouts : Layouts) (type : DataType) (signals : Signals) (condition : Option Expr) (step : Assignment)
    (body : List Statement) (level : Nat) : Vhdl.Line.Loop where
  level := level
  condition := (loopCondition signals condition).text
  body := bodyLines layouts type signals body level ++ (hardwareAssignment signals step).lines (level + 1)

section ForLoops

variable {layouts : Layouts} {type : DataType} {start : Option Statement} {condition : Option Expr} {step : Assignment}
  {body : List Statement} {loc : Location} {signals : Signals}

theorem body_loopOfFor (level : Nat) :
    (loopOfFor layouts type signals condition step body level).body =
      Vhdl.Stmt.linesOf (level + 1)
        (((hardwareStatements layouts type body).run signals).1 ++ [hardwareAssignment signals step]) := by
  rw [Vhdl.Stmt.linesOf_append, Vhdl.Stmt.linesOf_singleton]
  rfl

/-- The lines of the loop are those of the sequential loop whose last statement is the step. -/
theorem lines_loopOfFor (level : Nat) :
    (loopOfFor layouts type signals condition step body level).lines =
      Vhdl.Stmt.linesOf level [.loop (loopCondition signals condition)
        (((hardwareStatements layouts type body).run signals).1 ++ [hardwareAssignment signals step])] := by
  have hbody : (loopOfFor layouts type signals condition step body level).body = _ := body_loopOfFor level
  rw [← Vhdl.Line.Loop.lines_eq_linesOf, ← hbody]
  rfl

/-- The lines of a `for` statement are those of its start and of its loop. -/
theorem linesOf_forLoop (level : Nat) :
    Vhdl.Stmt.linesOf level
        ((hardwareStatement layouts type (.forLoop start condition (some step) body loc)).run signals).1 =
      Vhdl.Stmt.linesOf level (startStatements layouts type signals start) ++
        (loopOfFor layouts type (signals.behindStart start) condition step body level).lines := by
  rw [fst_run_forLoop, Vhdl.Stmt.linesOf_append, lines_loopOfFor]
  rfl

/-- The lines of the loop stand together among the lines around the `for` statement. -/
theorem EmittedIn.lines_loopOfFor_isInfix {ss : List Statement} {outer : Signals}
    (h : EmittedIn (.forLoop start condition (some step) body loc) signals ss outer) (level : Nat) :
    ∃ level', (loopOfFor layouts type (signals.behindStart start) condition step body level').lines <:+:
      Vhdl.Stmt.linesOf level ((hardwareStatements layouts type ss).run outer).1 := by
  obtain ⟨level', hlines⟩ := h.linesOf_isInfix layouts type level
  rw [linesOf_forLoop] at hlines
  exact ⟨level', (List.suffix_append ..).isInfix.trans hlines⟩

/-- The lines of the loop of a `for` statement of a function stand in its process. -/
theorem EmittedIn.lines_loopOfFor_isInfix_body {f : Function}
    (h : EmittedIn (.forLoop start condition (some step) body loc) signals f.body (Signals.ofFunction f))
    (layouts : Layouts) (level : Nat) :
    ∃ level', (loopOfFor layouts f.result (signals.behindStart start) condition step body level').lines <:+:
      Vhdl.Stmt.linesOf level (hardwareEntity layouts f).body := by
  rw [hardwareEntity_body]
  exact h.lines_loopOfFor_isInfix level

/-- The body of the loop and its step are legible if the statements around the `for` statement are. -/
theorem EmittedIn.allLegible_body {ss : List Statement} {outer : Signals}
    (h : EmittedIn (.forLoop start condition (some step) body loc) signals ss outer)
    (hss : Vhdl.Stmt.AllLegible ((hardwareStatements layouts type ss).run outer).1) :
    Vhdl.Stmt.AllLegible (((hardwareStatements layouts type body).run (signals.behindStart start)).1 ++
      [hardwareAssignment (signals.behindStart start) step]) := by
  obtain ⟨-, hlegible⟩ := h.inherits Vhdl.Stmt.inherited_allLegible 0 hss
  rw [fst_run_forLoop] at hlegible
  exact Vhdl.Stmt.allLegible_iff.1 hlegible _ (List.mem_append_right _ (List.mem_singleton_self _))

variable (oracle : Oracle) (level : Nat)
  (hlegible : Vhdl.Stmt.AllLegible
    (((hardwareStatements layouts type body).run signals).1 ++ [hardwareAssignment signals step]))

include hlegible

/-- The lines of the body of the loop do what the body does and then the step. -/
theorem behavior?_body_loopOfFor :
    Vhdl.Line.behavior? oracle (loopOfFor layouts type signals condition step body level).body =
      some ((Vhdl.Stmt.behaviorOf oracle ((hardwareStatements layouts type body).run signals).1).andThen
        (.act (step.action signals))) := by
  rw [body_loopOfFor, Vhdl.Stmt.behavior?_linesOf oracle hlegible, Vhdl.Stmt.behaviorOf_append,
    Vhdl.Stmt.behaviorOf_singleton, hardwareAssignment_eq]
  rfl

/-- The lines of the loop are a loop over the lines of its body. -/
theorem behavior?_loopOfFor :
    Vhdl.Line.behavior? oracle (loopOfFor layouts type signals condition step body level).lines =
      some (.whileLoop (loopCondition signals condition).text (oracle.decides (loopCondition signals condition).text)
        ((Vhdl.Stmt.behaviorOf oracle ((hardwareStatements layouts type body).run signals).1).andThen
          (.act (step.action signals)))) := by
  have hloop : Vhdl.Stmt.AllLegible [.loop (loopCondition signals condition)
      (((hardwareStatements layouts type body).run signals).1 ++ [hardwareAssignment signals step])] := .loop hlegible
  rw [lines_loopOfFor, Vhdl.Stmt.behavior?_linesOf oracle hloop, Vhdl.Stmt.behaviorOf_singleton, Vhdl.Stmt.behavior,
    Vhdl.Stmt.behaviorOf_append, Vhdl.Stmt.behaviorOf_singleton, hardwareAssignment_eq]
  rfl

/-- The rounds of the loop are those of a loop over its body and its step. -/
theorem rounds?_loopOfFor (h : List Action) (n : Nat) :
    (loopOfFor layouts type signals condition step body level).rounds? oracle h n =
      some (Behavior.whileRounds (loopCondition signals condition).text
        (oracle.decides (loopCondition signals condition).text)
        ((Vhdl.Stmt.behaviorOf oracle ((hardwareStatements layouts type body).run signals).1).andThen
          (.act (step.action signals))) h n) := by
  rw [Vhdl.Line.Loop.rounds?, behavior?_body_loopOfFor oracle level hlegible]
  rfl

omit oracle

/-- If no `continue` belongs to the loop, the step is made between any two tests of its condition. -/
theorem makesBetweenTests_loopOfFor (hcontinue : Statement.anyMayExit .again body = false) :
    (loopOfFor layouts type signals condition step body level).MakesBetweenTests (step.action signals) := by
  intro oracle h n
  refine ⟨_, rounds?_loopOfFor oracle level hlegible h n, ?_⟩
  intro r hr
  rcases Behavior.cases_of_mem_whileRounds hr with ⟨as, hactions, -⟩ | hagain
  · rw [hactions]
    exact List.mem_append_right _ (List.mem_singleton_self _)
  · exact absurd hagain (never_hardwareStatements oracle layouts type (.inr rfl) body hcontinue signals).not_endsBy

end ForLoops

/-- **What a `for` loop does between two tests of its condition.** The process of a function that is compiled has the
lines of every `for` loop with a step in it. What is seen of these lines is tests of the condition with rounds between
them. A round with another test behind it is what the body does and then the step, unless the body ends by `continue`:
then it is what the body does, and no step. So the step is made between any two tests if no `continue` belongs to the
loop. -/
theorem for_step_between_tests {source : String} {c : Compilation} {i : Nat} {f : Function} {start : Option Statement}
    {condition : Option Expr} {step : Assignment} {body : List Statement} {loc : Location} {signals : Signals}
    (hc : (compile source).outcome = .ok c) (hf : c.program.functions[i]? = some f)
    (hfor : EmittedIn (.forLoop start condition (some step) body loc) signals f.body (Signals.ofFunction f)) :
    ∃ entity lines loop level, c.design.entities[i]? = some entity ∧ entity.Clocks lines ∧
      loop = loopOfFor c.tables.structs f.result (signals.behindStart start) condition step body level ∧
      loop.lines <:+: lines ∧
      (∀ (oracle : Oracle) (h : List Action) (n : Nat), ∃ loopBehavior bodyBehavior rounds,
        Vhdl.Line.behavior? oracle loop.lines = some loopBehavior ∧
        Vhdl.Line.behavior? oracle (bodyLines c.tables.structs f.result (signals.behindStart start) body level) =
          some bodyBehavior ∧
        loop.rounds? oracle h n = some rounds ∧
        (loopBehavior.observe h n).actions = rounds.flatMap (fun r => .test loop.condition :: r.actions) ∧
        ∀ r ∈ rounds.dropLast,
          (∃ as, r.actions = as ++ [step.action (signals.behindStart start)] ∧
            bodyBehavior.EndsBy r.start as .finished) ∨
          bodyBehavior.EndsBy r.start r.actions .again) ∧
      (Statement.anyMayExit .again body = false →
        loop.MakesBetweenTests (step.action (signals.behindStart start))) := by
  have hwhole := legible_hardwareEntity hc (List.mem_of_getElem? hf) c.tables.structs
  rw [hardwareEntity_body] at hwhole
  obtain ⟨level, hlines⟩ := hfor.lines_loopOfFor_isInfix_body c.tables.structs 3
  have hloop := hfor.allLegible_body hwhole
  have hbody := Vhdl.Stmt.allLegible_iff.2 fun s hs => Vhdl.Stmt.allLegible_iff.1 hloop s (List.mem_append_left _ hs)
  refine ⟨_, _, _, level, getElem?_entities_of_compile hc hf, Vhdl.Entity.clocks_linesOf _, rfl, hlines, ?_, ?_⟩
  · intro oracle h n
    refine ⟨_, _, _, behavior?_loopOfFor oracle level hloop, Vhdl.Stmt.behavior?_linesOf oracle hbody _,
      rounds?_loopOfFor oracle level hloop h n, Behavior.actions_whileLoop .., ?_⟩
    intro r hr
    exact Behavior.cases_of_mem_whileRounds hr
  · exact makesBetweenTests_loopOfFor level hloop

/-- The parts of a `for` statement with a step. -/
structure SteppedFor where
  start : Option Statement
  condition : Option Expr
  step : Assignment
  body : List Statement
  loc : Location

/-- The statement of the parts. -/
def SteppedFor.statement (parts : SteppedFor) : Statement :=
  .forLoop parts.start parts.condition (some parts.step) parts.body parts.loc

/-- The parts of a statement, if it is a `for` statement with a step. -/
def Statement.steppedFor? : Statement → Option SteppedFor
  | .forLoop start condition step body loc => step.map fun step => ⟨start, condition, step, body, loc⟩
  | _ => none

/-- The parts of a `for` loop with a step make up the loop. -/
theorem Statement.eq_of_steppedFor? {s : Statement} {parts : SteppedFor} (h : s.steppedFor? = some parts) :
    s = parts.statement := by
  cases s with
  | forLoop start condition step body loc =>
    obtain ⟨step, rfl, rfl⟩ := Option.map_eq_some_iff.1 h
    rfl
  | _ => cases h

/-- A check of the `for` statement at a place of a list that comes out true is about the statement there. -/
theorem exists_getElem?_of_any_steppedFor {ss : List Statement} {i : Nat} {p : SteppedFor → Bool}
    (h : (ss[i]?.bind Statement.steppedFor?).any p) : ∃ parts, ss[i]? = some parts.statement ∧ p parts := by
  obtain ⟨parts, hparts, hp⟩ := (Option.any_eq_true _ _).1 h
  obtain ⟨s, hs, hfor⟩ := Option.bind_eq_some_iff.1 hparts
  rw [Statement.eq_of_steppedFor? hfor] at hs
  exact ⟨parts, hs, hp⟩

/-- A source text with a `for` loop around a loop with `continue`. -/
def nestedLoopSource : String :=
  "int f(int n)\x7bfor(int i=0;i<n;i++)\x7bwhile(n)\x7bn--;if(n>i)continue;n--;\x7d\x7dreturn n;\x7d"

theorem for_step_between_tests_nestedLoopSource :
    ∃ c f start condition step body loc signals entity lines loop level, (compile nestedLoopSource).outcome = .ok c ∧
      c.program.functions[0]? = some f ∧
      EmittedIn (.forLoop start condition (some step) body loc) signals f.body (Signals.ofFunction f) ∧
      Statement.anyMayExit .again body = false ∧
      c.design.entities[0]? = some entity ∧ entity.Clocks lines ∧
      loop = loopOfFor c.tables.structs f.result (signals.behindStart start) condition step body level ∧
      loop.lines <:+: lines ∧ loop.MakesBetweenTests (step.action (signals.behindStart start)) := by
  have hchecked : (compile nestedLoopSource).outcome.toOption.any (fun c => c.program.functions[0]?.any fun f =>
      (f.body[0]?.bind Statement.steppedFor?).any fun parts => !Statement.anyMayExit .again parts.body) := by
    decide +kernel
  obtain ⟨c, f, hc, hf, hbody⟩ := exists_function_of_any hchecked
  obtain ⟨parts, hfor, hbody⟩ := exists_getElem?_of_any_steppedFor hbody
  have hemitted := EmittedIn.of_getElem? hfor (Signals.ofFunction f)
  have hcontinue : Statement.anyMayExit .again parts.body = false := by simpa using hbody
  obtain ⟨entity, lines, loop, level, hentity, hclocks, hloop, hlines, -, hstep⟩ :=
    for_step_between_tests hc hf hemitted
  exact ⟨c, f, _, _, _, _, _, _, entity, lines, loop, level, hc, hf, hemitted, hcontinue, hentity, hclocks, hloop,
    hlines, hstep hcontinue⟩

/-- A source text with a `for` loop that `continue` belongs to. -/
def skippingSource : String :=
  "int f(int n)\x7bint s=0;for(int i=0;i<n;i++)\x7bif(i==2)continue;s=s+i;\x7dreturn s;\x7d"

/-- Where every condition holds, the loop of `skippingSource` tests its condition again without having made its step. -/
theorem for_step_skipped :
    ∃ c f start condition step body loc signals entity lines loop level, (compile skippingSource).outcome = .ok c ∧
      c.program.functions[0]? = some f ∧
      EmittedIn (.forLoop start condition (some step) body loc) signals f.body (Signals.ofFunction f) ∧
      c.design.entities[0]? = some entity ∧ entity.Clocks lines ∧
      loop = loopOfFor c.tables.structs f.result (signals.behindStart start) condition step body level ∧
      loop.lines <:+: lines ∧ ¬ loop.MakesBetweenTests (step.action (signals.behindStart start)) := by
  have hchecked : (compile skippingSource).outcome.toOption.any (fun c => c.program.functions[0]?.any fun f =>
      (f.body[1]?.bind Statement.steppedFor?).any fun parts =>
        let signals := ((Signals.ofFunction f).behindAll (f.body.take 1)).behindStart parts.start
        (Behavior.whileRounds (loopCondition signals parts.condition).text
          (Oracle.decides (fun _ _ => true) (loopCondition signals parts.condition).text)
          ((Vhdl.Stmt.behaviorOf (fun _ _ => true)
            ((hardwareStatements c.tables.structs f.result parts.body).run signals).1).andThen
              (.act (parts.step.action signals))) [] 3).dropLast.any fun r =>
                parts.step.action signals ∉ r.actions) := by
    decide +kernel
  obtain ⟨c, f, hc, hf, hskipped⟩ := exists_function_of_any hchecked
  obtain ⟨parts, hfor, hskipped⟩ := exists_getElem?_of_any_steppedFor hskipped
  have hemitted := EmittedIn.of_getElem? hfor (Signals.ofFunction f)
  have hwhole := legible_hardwareEntity hc (List.mem_of_getElem? hf) c.tables.structs
  rw [hardwareEntity_body] at hwhole
  have hloop := hemitted.allLegible_body hwhole
  obtain ⟨level, hlines⟩ := hemitted.lines_loopOfFor_isInfix_body c.tables.structs 3
  refine ⟨c, f, _, _, _, _, _, _, _, _, _, level, hc, hf, hemitted, getElem?_entities_of_compile hc hf,
    Vhdl.Entity.clocks_linesOf _, rfl, hlines, ?_⟩
  intro hmakes
  obtain ⟨rounds, hrounds, hall⟩ := hmakes (fun _ _ => true) [] 3
  rw [rounds?_loopOfFor _ level hloop] at hrounds
  cases hrounds
  obtain ⟨r, hr, hmissing⟩ := List.any_eq_true.1 hskipped
  exact of_decide_eq_true hmissing (hall r hr)

end ClockedC
