import ClockedC.Proofs.ControlFlow.Legibility

/-!
# Hardware does what the source does

The lines of the process of a function make the same actions as the function, in the same order, if `return` stands
only at its end and no `continue` belongs to a `for` loop. Both are executed with the same oracle.

* `control_flow_simulation` : the lines of the process of a function do what the function does.
-/

namespace ClockedC

/-! ## Conditions -/

/-- An operator stands between spaces. -/
theorem space_mem_text_binary (op : Vhdl.Operator) (l r : Vhdl.Expr) : ' ' ∈ (Vhdl.Expr.binary op l r).text.toList := by
  simp [Vhdl.Expr.text]

theorem space_mem_text_paren {e : Vhdl.Expr} (h : ' ' ∈ e.text.toList) : ' ' ∈ (Vhdl.Expr.paren e).text.toList := by
  simp [Vhdl.Expr.text, h]

/-- A truth value is written with a blank. -/
theorem space_mem_text_of_isTruth (signals : Signals) {e : Expr} (h : e.isTruth) :
    ' ' ∈ (hardwareExpr signals e).text.toList := by
  cases e with
  | binary op l r loc =>
    rw [hardwareExpr_binary]
    cases op with
    | and => exact space_mem_text_paren (space_mem_text_binary ..)
    | or => exact space_mem_text_paren (space_mem_text_binary ..)
    | eq | ne | lt | le | gt | ge => exact space_mem_text_binary ..
    | _ => cases h
  | unary op operand loc =>
    rw [hardwareExpr_unary]
    cases op with
    | not =>
      rw [hardwareUnary]
      split
      · simp [Vhdl.Expr.text]
      · exact space_mem_text_paren (space_mem_text_binary ..)
    | bitNot => cases h
  | _ => cases h

/-- No condition of the source is written as the word `true`. -/
theorem text_hardwareCondition_ne (signals : Signals) (e : Expr) : (hardwareCondition signals e).text ≠ "true" := by
  have hspace : ' ' ∈ (hardwareCondition signals e).text.toList := by
    rw [hardwareCondition, asCondition]
    split
    · next h => exact space_mem_text_of_isTruth signals h
    · exact space_mem_text_binary ..
  intro htext
  rw [htext] at hspace
  exact absurd hspace (by decide)

/-- Hardware tests the condition of a loop as the source does. -/
theorem decides_loopCondition (oracle : Oracle) (signals : Signals) (condition : Option Expr) :
    oracle.decides (loopCondition signals condition).text = oracle.holds signals condition := by
  funext h
  cases condition with
  | none => rfl
  | some e => simp [loopCondition_some, Oracle.decides, Oracle.holds, text_hardwareCondition_ne]

theorem decides_hardwareCondition (oracle : Oracle) (signals : Signals) (condition : Expr) :
    oracle.decides (hardwareCondition signals condition).text = oracle.holds signals condition :=
  decides_loopCondition oracle signals (some condition)

/-! ## Assignments -/

namespace Vhdl.Stmt

theorem behaviorOf_append (oracle : Oracle) (ss ts : List Stmt) :
    behaviorOf oracle (ss ++ ts) = (behaviorOf oracle ss).andThen (behaviorOf oracle ts) := by
  induction ss with
  | nil => exact (Behavior.finished_andThen _).symm
  | cons s ss ih => rw [List.cons_append, behaviorOf, behaviorOf, ih, Behavior.andThen_assoc]

/-- A single statement does what it does among no others. -/
theorem behaviorOf_singleton (oracle : Oracle) (s : Stmt) : behaviorOf oracle [s] = s.behavior oracle :=
  Behavior.andThen_finished _

/-- The statement is an assignment. -/
def IsAssign (s : Stmt) : Prop := ∃ target value, s = .assign target value

/-- Assignments make their lines, in turn. -/
theorem behaviorOf_assignments (oracle : Oracle) {ss : List Stmt} (h : ∀ s ∈ ss, s.IsAssign) :
    behaviorOf oracle ss = .acts (lineActions ss) := by
  induction ss with
  | nil => rfl
  | cons s ss ih =>
    rw [List.forall_mem_cons] at h
    obtain ⟨⟨target, value, rfl⟩, hrest⟩ := h
    rw [behaviorOf, ih hrest]
    rfl

theorem AssignsTo.isAssign {signal : String} {s : Stmt} (h : s.AssignsTo signal) : s.IsAssign := by
  obtain ⟨value, rfl | ⟨field, rfl⟩⟩ := h
  · exact ⟨_, _, rfl⟩
  · exact ⟨_, _, rfl⟩

end Vhdl.Stmt

/-! ## Jumps -/

section Jumps

variable {oracle : Oracle} {layouts : Layouts} {type : DataType} {e : Exit}

theorem Oracle.never_forLoop {signals : Signals} {condition : Option Expr} {step : Option Assignment} {body : Behavior}
    (he : e ≠ .finished) (hbody : e = .returned → body.Never e) :
    (oracle.forLoop signals condition step body).Never e :=
  Behavior.never_forLoop he hbody (Behavior.never_acts he _)

mutual

/-- A statement ends only by jumps that stand in it. -/
theorem Statement.never_behavior (he : e ≠ .finished) (s : Statement) (h : s.mayExit e = false) (signals : Signals) :
    (s.behavior oracle layouts type signals).Never e := by
  cases s with
  | declare decl => exact Behavior.never_acts he _
  | assign assignment => exact Behavior.never_acts he _
  | branch condition body alternative loc =>
    rw [Statement.mayExit, Bool.or_eq_false_iff] at h
    rw [Statement.behavior]
    exact Behavior.never_choose (Statement.never_behaviorOf he body h.1 signals)
      (Alternative.never_behavior he alternative h.2 signals)
  | whileLoop condition body loc =>
    -- a loop ends by no jump of its body but `return`
    rw [Statement.behavior]
    refine Behavior.never_whileLoop he fun hreturned => Statement.never_behaviorOf he body ?_ signals
    simpa [Statement.mayExit, hreturned] using h
  | forLoop start condition step body loc =>
    cases start with
    | none =>
      rw [Statement.behavior]
      refine Oracle.never_forLoop he fun hreturned => Statement.never_behaviorOf he body ?_ signals
      simpa [Statement.mayExit, hreturned] using h
    | some start =>
      rw [Statement.mayExit, Bool.or_eq_false_iff] at h
      rw [Statement.behavior]
      refine (Statement.never_behavior he start h.1 signals).andThen ?_
      refine Oracle.never_forLoop he fun hreturned => Statement.never_behaviorOf he body ?_ _
      simpa [hreturned] using h.2
  | giveBack value loc =>
    have hreturned : Exit.returned ≠ e := by simpa [Statement.mayExit, eq_comm] using h
    cases value with
    | none => exact Behavior.never_exit hreturned
    | some value => exact (Behavior.never_acts he _).andThen (Behavior.never_exit hreturned)
  | leaveLoop loc => exact Behavior.never_exit (by simpa [Statement.mayExit, eq_comm] using h)
  | nextRound loc => exact Behavior.never_exit (by simpa [Statement.mayExit, eq_comm] using h)
  | evaluate value => exact Behavior.never_exit he.symm

/-- Further arms without a jump do not end by it. -/
theorem Alternative.never_behavior (he : e ≠ .finished) (alternative : Alternative)
    (h : alternative.mayExit e = false) (signals : Signals) :
    (alternative.behavior oracle layouts type signals).Never e := by
  cases alternative with
  | nothing => exact Behavior.never_exit he.symm
  | elseIf condition body rest =>
    rw [Alternative.mayExit, Bool.or_eq_false_iff] at h
    rw [Alternative.behavior]
    exact Behavior.never_choose (Statement.never_behaviorOf he body h.1 signals)
      (Alternative.never_behavior he rest h.2 signals)
  | otherwise body => exact Statement.never_behaviorOf he body h signals

/-- Statements without a jump do not end by it. -/
theorem Statement.never_behaviorOf (he : e ≠ .finished) (ss : List Statement)
    (h : Statement.anyMayExit e ss = false) (signals : Signals) :
    (Statement.behaviorOf oracle layouts type ss signals).Never e := by
  cases ss with
  | nil => exact Behavior.never_exit he.symm
  | cons s ss =>
    rw [Statement.anyMayExit, Bool.or_eq_false_iff] at h
    exact (Statement.never_behavior he s h.1 signals).andThen (Statement.never_behaviorOf he ss h.2 _)

end

end Jumps

/-! ## Simulation -/

section Simulation

variable (oracle : Oracle) (layouts : Layouts) (type : DataType)

/-- A loop with a step at the end of its body makes the step in every round that comes to the end. -/
theorem behavior_loop_append_step (signals : Signals) (condition : Option Expr) (step : Option Assignment)
    (stmts : List Vhdl.Stmt) :
    (Vhdl.Stmt.loop (loopCondition signals condition)
        (stmts ++ step.toList.map (hardwareAssignment signals))).behavior oracle =
      .whileLoop (loopCondition signals condition).text (oracle.holds signals condition)
        ((Vhdl.Stmt.behaviorOf oracle stmts).andThen
          (.acts (lineActions (step.toList.map (hardwareAssignment signals))))) := by
  have hstep : ∀ s ∈ step.toList.map (hardwareAssignment signals), s.IsAssign := by
    intro s hs
    obtain ⟨a, -, rfl⟩ := List.mem_map.1 hs
    exact ⟨_, _, rfl⟩
  rw [Vhdl.Stmt.behavior, Vhdl.Stmt.behaviorOf_append, Vhdl.Stmt.behaviorOf_assignments oracle hstep,
    decides_loopCondition]

/-- A loop whose body ends with a step does what the loop with that step does. -/
theorem behavior_loop_step {signals : Signals} {condition : Option Expr} {step : Option Assignment} {body : Behavior}
    {stmts : List Vhdl.Stmt} (hstmts : Vhdl.Stmt.behaviorOf oracle stmts = body) (hbody : body.Never .again) :
    (Vhdl.Stmt.loop (loopCondition signals condition)
        (stmts ++ step.toList.map (hardwareAssignment signals))).behavior oracle =
      oracle.forLoop signals condition step body := by
  rw [behavior_loop_append_step, hstmts, Oracle.forLoop,
    Behavior.forLoop_eq_whileLoop hbody (Behavior.never_acts (by decide) _)]

mutual

/-- The sequential statements of a statement do what the statement does. -/
theorem behaviorOf_hardwareStatement (s : Statement) (hreturn : s.mayExit .returned = false)
    (hcontinue : s.continuesFor = false) (signals : Signals) :
    Vhdl.Stmt.behaviorOf oracle ((hardwareStatement layouts type s).run signals).1 =
      s.behavior oracle layouts type signals := by
  cases s with
  | declare decl =>
    refine Vhdl.Stmt.behaviorOf_assignments oracle fun s hs => ?_
    exact (assignsTo_of_mem_hardwareInitializer hs).isAssign
  | assign assignment =>
    rw [run_assign]
    refine Vhdl.Stmt.behaviorOf_assignments oracle fun s hs => ?_
    rw [List.mem_singleton.1 hs]
    exact ⟨_, _, hardwareAssignment_eq signals assignment⟩
  | branch condition body alternative loc =>
    rw [Statement.mayExit, Bool.or_eq_false_iff] at hreturn
    rw [Statement.continuesFor, Bool.or_eq_false_iff] at hcontinue
    have hbody := behaviorOf_hardwareStatements body hreturn.1 hcontinue.1 signals
    have harms := behavior_hardwareArms alternative hreturn.2 hcontinue.2 signals
    rw [run_branch (run_block body signals) (run_hardwareArms alternative signals), Vhdl.Stmt.behaviorOf_singleton,
      Vhdl.Stmt.behavior, hbody, harms, decides_hardwareCondition, Statement.behavior]
  | whileLoop condition body loc =>
    have hbody := behaviorOf_hardwareStatements body (by simpa [Statement.mayExit] using hreturn) hcontinue signals
    rw [run_whileLoop (run_block body signals), Vhdl.Stmt.behaviorOf_singleton, Vhdl.Stmt.behavior, hbody,
      decides_hardwareCondition, Statement.behavior]
  | forLoop start condition step body loc =>
    cases start with
    | none =>
      -- the body does not go on to the next round by itself, so the step may stand at its end
      rw [Statement.continuesFor, Bool.or_eq_false_iff] at hcontinue
      have hbody := behaviorOf_hardwareStatements body (by simpa [Statement.mayExit] using hreturn) hcontinue.2 signals
      have hnever : (Statement.behaviorOf oracle layouts type body signals).Never .again :=
        Statement.never_behaviorOf (by decide) body hcontinue.1 signals
      rw [run_forLoop_none (run_block body signals), Vhdl.Stmt.behaviorOf_singleton,
        behavior_loop_step oracle hbody hnever, Statement.behavior]
    | some start =>
      rw [Statement.mayExit, Bool.or_eq_false_iff] at hreturn
      rw [Statement.continuesFor, Bool.or_eq_false_iff, Bool.or_eq_false_iff] at hcontinue
      have hstart := behaviorOf_hardwareStatement start hreturn.1 hcontinue.1.1 signals
      have hbody := behaviorOf_hardwareStatements body (by simpa using hreturn.2) hcontinue.2 (signals.behind start)
      have hnever : (Statement.behaviorOf oracle layouts type body (signals.behind start)).Never .again :=
        Statement.never_behaviorOf (by decide) body hcontinue.1.2 _
      rw [run_forLoop_some (run_hardwareStatement start signals) (run_block body _), Vhdl.Stmt.behaviorOf_append,
        hstart, Vhdl.Stmt.behaviorOf_singleton, behavior_loop_step oracle hbody hnever, Statement.behavior]
  -- a `return` here would leave the function in the source, and nothing in hardware
  | giveBack value loc => simp [Statement.mayExit] at hreturn
  | leaveLoop loc => exact Vhdl.Stmt.behaviorOf_singleton oracle _
  | nextRound loc => exact Vhdl.Stmt.behaviorOf_singleton oracle _
  | evaluate value =>
    rw [run_evaluate]
    exact Vhdl.Stmt.behaviorOf_singleton oracle _

/-- The further arms of a branch do in hardware what they do in the source. -/
theorem behavior_hardwareArms (alternative : Alternative) (hreturn : alternative.mayExit .returned = false)
    (hcontinue : alternative.continuesFor = false) (signals : Signals) :
    ((hardwareArms layouts type alternative).run signals).1.behavior oracle =
      alternative.behavior oracle layouts type signals := by
  cases alternative with
  | nothing => rfl
  | elseIf condition body rest =>
    rw [Alternative.mayExit, Bool.or_eq_false_iff] at hreturn
    rw [Alternative.continuesFor, Bool.or_eq_false_iff] at hcontinue
    have hbody := behaviorOf_hardwareStatements body hreturn.1 hcontinue.1 signals
    have hrest := behavior_hardwareArms rest hreturn.2 hcontinue.2 signals
    rw [run_elseIf (run_block body signals) (run_hardwareArms rest signals), Vhdl.Arms.behavior, hbody, hrest,
      decides_hardwareCondition, Alternative.behavior]
  | otherwise body =>
    rw [run_otherwise (run_block body signals), Vhdl.Arms.behavior,
      behaviorOf_hardwareStatements body hreturn hcontinue, Alternative.behavior]

/-- Without `return` and without `continue` in a `for` loop, statements do in hardware what they do in the source. -/
theorem behaviorOf_hardwareStatements (ss : List Statement) (hreturn : Statement.anyMayExit .returned ss = false)
    (hcontinue : Statement.anyContinuesFor ss = false) (signals : Signals) :
    Vhdl.Stmt.behaviorOf oracle ((hardwareStatements layouts type ss).run signals).1 =
      Statement.behaviorOf oracle layouts type ss signals := by
  cases ss with
  | nil => rfl
  | cons s ss =>
    rw [Statement.anyMayExit, Bool.or_eq_false_iff] at hreturn
    rw [Statement.anyContinuesFor, Bool.or_eq_false_iff] at hcontinue
    have hfirst := behaviorOf_hardwareStatement s hreturn.1 hcontinue.1 signals
    have hrest := behaviorOf_hardwareStatements ss hreturn.2 hcontinue.2 (signals.behind s)
    rw [run_cons (run_hardwareStatement s signals) (run_eq_of_snd rfl), Vhdl.Stmt.behaviorOf_append, hfirst, hrest,
      Statement.behaviorOf]

end

/-- If `return` stands only at the end, the first statement is a `return` and the last one, or has none. -/
theorem Statement.returnsOnlyLast_cons {s : Statement} {ss : List Statement}
    (h : Statement.returnsOnlyLast (s :: ss)) :
    (∃ value loc, s = .giveBack value loc ∧ ss = []) ∨
      (s.mayExit .returned = false ∧ Statement.returnsOnlyLast ss) := by
  unfold Statement.returnsOnlyLast at h
  split at h
  · contradiction
  · next value loc heq =>
    obtain ⟨rfl, rfl⟩ := List.cons.inj heq
    exact .inl ⟨value, loc, rfl, rfl⟩
  · next heq =>
    obtain ⟨rfl, rfl⟩ := List.cons.inj heq
    rw [Bool.and_eq_true, Bool.not_eq_true'] at h
    exact .inr h

/-- A value that is given back is assigned, and nothing follows. -/
theorem behaviorOf_hardwareStatement_giveBack (value : Option Expr) (loc : Location) (signals : Signals) :
    Vhdl.Stmt.behaviorOf oracle ((hardwareStatement layouts type (.giveBack value loc)).run signals).1 =
      ((Statement.giveBack value loc).behavior oracle layouts type signals).catching .returned := by
  cases value with
  | none => exact (Behavior.catching_exit_self _).symm
  | some value =>
    rw [Statement.behavior, (Behavior.never_acts (by decide) _).catching_andThen, Behavior.catching_exit_self,
      Behavior.andThen_finished]
    exact Vhdl.Stmt.behaviorOf_assignments oracle fun _ hs => (assignsTo_of_mem_hardwareReturn hs).isAssign

/-- The sequential statements of a body do what the body does up to its `return`. -/
theorem behaviorOf_hardwareStatements_body (ss : List Statement) (hreturn : Statement.returnsOnlyLast ss)
    (hcontinue : Statement.anyContinuesFor ss = false) (signals : Signals) :
    Vhdl.Stmt.behaviorOf oracle ((hardwareStatements layouts type ss).run signals).1 =
      (Statement.behaviorOf oracle layouts type ss signals).catching .returned := by
  induction ss generalizing signals with
  | nil => exact (Behavior.never_exit (by decide)).catching_eq.symm
  | cons s ss ih =>
    rw [Statement.anyContinuesFor, Bool.or_eq_false_iff] at hcontinue
    -- hardware goes on behind a `return`, but only the end of the body can follow one
    obtain ⟨value, loc, rfl, rfl⟩ | ⟨hs, hss⟩ := Statement.returnsOnlyLast_cons hreturn
    · rw [run_cons (run_hardwareStatement _ signals) (run_eq_of_snd rfl), Statement.behaviorOf]
      show Vhdl.Stmt.behaviorOf oracle (_ ++ []) = (Behavior.andThen _ (.exit .finished)).catching .returned
      rw [List.append_nil, Behavior.andThen_finished]
      exact behaviorOf_hardwareStatement_giveBack oracle layouts type value loc signals
    · have hfirst := behaviorOf_hardwareStatement oracle layouts type s hs hcontinue.1 signals
      rw [run_cons (run_hardwareStatement s signals) (run_eq_of_snd rfl), Vhdl.Stmt.behaviorOf_append, hfirst,
        ih hss hcontinue.2, Statement.behaviorOf, (Statement.never_behavior (by decide) s hs signals).catching_andThen]

end Simulation

/-! ## Functions -/

/-- The process of a function does what the function does. -/
theorem behaviorOf_hardwareEntity (oracle : Oracle) (layouts : Layouts) {f : Function}
    (hreturn : Statement.returnsOnlyLast f.body) (hcontinue : Statement.anyContinuesFor f.body = false) :
    Vhdl.Stmt.behaviorOf oracle (hardwareEntity layouts f).body = f.behavior oracle layouts := by
  rw [hardwareEntity_body]
  exact behaviorOf_hardwareStatements_body oracle layouts f.result f.body hreturn hcontinue (Signals.ofFunction f)

/-- **Hardware does what the source does.** Every function of a source text that is compiled has an entity. If `return`
stands only at the end of the function and no `continue` belongs to a `for` loop, then the lines of its process are
nested properly, and with any oracle, after any history and for any number of actions, the same is seen of the lines
and of the function. -/
theorem control_flow_simulation {source : String} {c : Compilation} {i : Nat} {f : Function}
    (hc : (compile source).outcome = .ok c) (hf : c.program.functions[i]? = some f)
    (hreturn : Statement.returnsOnlyLast f.body) (hcontinue : Statement.anyContinuesFor f.body = false) :
    ∃ entity lines, c.design.entities[i]? = some entity ∧ entity.name = f.name ∧ entity.Clocks lines ∧
      ∀ oracle : Oracle, ∃ behavior, Vhdl.Line.behavior? oracle lines = some behavior ∧
        ∀ (history : List Action) (n : Nat),
          behavior.observe history n = (f.behavior oracle c.tables.structs).observe history n := by
  obtain ⟨-, -, -, -, -, hdesign⟩ := exists_run_of_compile hc
  have hlegible := legible_hardwareEntity hc (List.mem_of_getElem? hf) c.tables.structs
  refine ⟨hardwareEntity c.tables.structs f, _, ?_, rfl, Vhdl.Entity.clocks_linesOf _, ?_⟩
  · rw [hdesign, hardwareDesign_eq, List.getElem?_map, hf]
    rfl
  · intro oracle
    refine ⟨_, Vhdl.Stmt.behavior?_linesOf oracle hlegible 3, ?_⟩
    intro history n
    rw [behaviorOf_hardwareEntity oracle c.tables.structs hreturn hcontinue]

/-- A source text with loops, branches and jumps. -/
def loopSource : String :=
  "int f(int n)\x7bwhile(n)\x7bif(n>3)break;else\x7bn--;continue;\x7d\x7dfor(int i=0;i<n;i++)n=i;return n;\x7d"

theorem control_flow_simulation_loopSource :
    ∃ c f entity lines, (compile loopSource).outcome = .ok c ∧ c.program.functions[0]? = some f ∧
      Statement.returnsOnlyLast f.body ∧ Statement.anyContinuesFor f.body = false ∧
      c.design.entities[0]? = some entity ∧ entity.name = f.name ∧ entity.Clocks lines ∧
      ∀ oracle : Oracle, ∃ behavior, Vhdl.Line.behavior? oracle lines = some behavior ∧
        ∀ (history : List Action) (n : Nat),
          behavior.observe history n = (f.behavior oracle c.tables.structs).observe history n := by
  have hchecked : ((compile loopSource).outcome.toOption.bind fun c => c.program.functions[0]?).any (fun f =>
      Statement.returnsOnlyLast f.body && !Statement.anyContinuesFor f.body) := by decide +kernel
  cases hc : (compile loopSource).outcome with
  | error e =>
    rw [hc] at hchecked
    cases hchecked
  | ok c =>
    rw [hc] at hchecked
    obtain ⟨f, hf, hjumps⟩ := (Option.any_eq_true ..).1 hchecked
    rw [Bool.and_eq_true, Bool.not_eq_true'] at hjumps
    obtain ⟨entity, lines, hsame⟩ := control_flow_simulation hc hf hjumps.1 hjumps.2
    exact ⟨c, f, entity, lines, rfl, hf, hjumps.1, hjumps.2, hsame⟩

end ClockedC
