import ClockedC.Proofs.Hardware.Values

/-!
# Scopes

Which signals are in sight while the statements of a function become sequential statements. A declaration brings its
variable into sight for the statements behind it, and a block brings back what was in sight before it. So the
sequential statements of a statement are said in terms of those of its parts.
-/

namespace ClockedC

variable {signals signals' : Signals}

/-! ## Signals in sight -/

/-- The signals in sight behind a statement. -/
def Signals.behind (signals : Signals) : Statement → Signals
  | .declare decl => signals.declare decl.name
  | _ => signals

/-- The signals in sight behind several statements. -/
def Signals.behindAll (signals : Signals) (ss : List Statement) : Signals := ss.foldl behind signals

/-- Leaving a block undoes what a statement in it brought into sight. -/
theorem Signals.leaveBlock_behind (signals : Signals) (s : Statement) (saved : List String) :
    (signals.behind s).leaveBlock saved = signals.leaveBlock saved := by
  cases s with
  | declare decl =>
    rw [behind, declare]
    split <;> rfl
  | _ => rfl

/-- Leaving a block undoes what its statements brought into sight. -/
theorem Signals.leaveBlock_behindAll (signals : Signals) (ss : List Statement) (saved : List String) :
    (signals.behindAll ss).leaveBlock saved = signals.leaveBlock saved := by
  induction ss generalizing signals with
  | nil => rfl
  | cons s ss ih => exact (ih (signals.behind s)).trans (signals.leaveBlock_behind s saved)

/-! ## Assignments -/

/-- The statement assigns to a signal or to one of its fields. -/
def Vhdl.Stmt.AssignsTo (signal : String) (s : Vhdl.Stmt) : Prop :=
  ∃ value, s = .assign (.name signal) value ∨ ∃ field, s = .assign (.field (.name signal) field) value

/-- A variable gets its first value by assignments to its signal. -/
theorem assignsTo_of_mem_hardwareInitializer {layouts : Layouts} {decl : Variable} {s : Vhdl.Stmt}
    (h : s ∈ hardwareInitializer layouts signals decl) : s.AssignsTo (signals.signal decl.name) := by
  obtain ⟨e, he⟩ | ⟨values, layout, hvalues, hlayout⟩ | hnone := decl.init_cases layouts
  · rw [hardwareInitializer_value signals he] at h
    exact ⟨_, .inl (List.mem_singleton.1 h)⟩
  · rw [hardwareInitializer_fields signals hvalues hlayout] at h
    obtain ⟨part, -, hs⟩ := List.mem_filterMap.1 h
    obtain ⟨v, -, rfl⟩ := Option.map_eq_some_iff.1 hs
    exact ⟨v, .inr ⟨part.1.name, rfl⟩⟩
  · rw [hardwareInitializer_none signals hnone] at h
    cases h

/-- A value is given back by assignments to the port of the result. -/
theorem assignsTo_of_mem_hardwareReturn {layouts : Layouts} {type : DataType} {value : Expr} {s : Vhdl.Stmt}
    (h : s ∈ hardwareReturn layouts signals type value) : s.AssignsTo Vhdl.resultPort := by
  obtain ⟨layout, name, loc, hlayout, rfl⟩ | hvalue := return_cases layouts type value
  · rw [hardwareReturn_fields signals hlayout] at h
    obtain ⟨field, -, rfl⟩ := List.mem_map.1 h
    exact ⟨_, .inr ⟨field.name, rfl⟩⟩
  · rw [hardwareReturn_value signals hvalue] at h
    exact ⟨_, .inl (List.mem_singleton.1 h)⟩

/-! ## Steps -/

/-- Two steps in turn. -/
theorem run_bind_of_eq {α β : Type} {step : ScopeM α} {next : α → ScopeM β} {a : α}
    (h : step.run signals = (a, signals')) : (step >>= next).run signals = (next a).run signals' := by
  show (next (step.run signals).1).run (step.run signals).2 = _
  rw [h]

theorem run_eq_of_snd {α : Type} {step : ScopeM α} (h : (step.run signals).2 = signals') :
    step.run signals = ((step.run signals).1, signals') :=
  Prod.ext rfl h

theorem run_get (signals : Signals) : (get : ScopeM Signals).run signals = (signals, signals) := rfl

theorem run_looking {α : Type} (value : Signals → α) (signals : Signals) :
    (looking value).run signals = (value signals, signals) := rfl

theorem run_inBlock_of_eq {α : Type} {step : ScopeM α} {a : α} (h : step.run signals = (a, signals')) :
    (inBlock step).run signals = (a, signals'.leaveBlock signals.enterBlock) := by
  rw [inBlock, run_bind_of_eq (run_get signals), run_bind_of_eq h]
  rfl

/-! ## Statements -/

section Runs

variable {layouts : Layouts} {type : DataType} {inner : Signals} {body : List Statement} {first stmts : List Vhdl.Stmt}
  {condition : Expr} {alternative : Alternative} {arms : Vhdl.Arms} {loc : Location}

/-- A variable is in sight of its own first value. -/
theorem run_declare (decl : Variable) :
    (hardwareStatement layouts type (.declare decl)).run signals =
      (hardwareInitializer layouts (signals.declare decl.name) decl, signals.declare decl.name) := by
  rw [hardwareStatement_declare]
  rfl

/-- An assignment leaves in sight what was. -/
theorem run_assign (assignment : Assignment) :
    (hardwareStatement layouts type (.assign assignment)).run signals =
      ([hardwareAssignment signals assignment], signals) := by
  rw [hardwareStatement_assign]
  rfl

/-- A `return` leaves in sight what was. -/
theorem run_giveBack (value : Expr) :
    (hardwareStatement layouts type (.giveBack (some value) loc)).run signals =
      (hardwareReturn layouts signals type value, signals) := by
  rw [hardwareStatement_giveBack]
  rfl

/-- An expression that is evaluated leaves in sight what was. -/
theorem run_evaluate (e : Expr) :
    (hardwareStatement layouts type (.evaluate e)).run signals =
      ([.unsynthesized (hardwareExpr signals e)], signals) := by
  rw [hardwareStatement_evaluate]
  rfl

/-- What becomes of a branch, from what becomes of its body and of its further arms. -/
theorem run_branch (hbody : (inBlock (hardwareStatements layouts type body)).run signals = (stmts, signals))
    (harms : (hardwareArms layouts type alternative).run signals = (arms, signals)) :
    (hardwareStatement layouts type (.branch condition body alternative loc)).run signals =
      ([.ifThen (hardwareCondition signals condition) stmts arms], signals) := by
  rw [hardwareStatement_branch, run_bind_of_eq (run_looking _ signals), run_bind_of_eq hbody, run_bind_of_eq harms]
  rfl

/-- What becomes of a further arm, from what becomes of its body and of those behind it. -/
theorem run_elseIf (hbody : (inBlock (hardwareStatements layouts type body)).run signals = (stmts, signals))
    (harms : (hardwareArms layouts type alternative).run signals = (arms, signals)) :
    (hardwareArms layouts type (.elseIf condition body alternative)).run signals =
      (.elsif (hardwareCondition signals condition) stmts arms, signals) := by
  rw [hardwareArms_elseIf, run_bind_of_eq (run_looking _ signals), run_bind_of_eq hbody, run_bind_of_eq harms]
  rfl

/-- What becomes of the last arm, from what becomes of its body. -/
theorem run_otherwise (hbody : (inBlock (hardwareStatements layouts type body)).run signals = (stmts, signals)) :
    (hardwareArms layouts type (.otherwise body)).run signals = (.otherwise stmts, signals) := by
  rw [hardwareArms_otherwise, run_bind_of_eq hbody]
  rfl

/-- What becomes of a loop, from what becomes of its body. -/
theorem run_whileLoop (hbody : (inBlock (hardwareStatements layouts type body)).run signals = (stmts, signals)) :
    (hardwareStatement layouts type (.whileLoop condition body loc)).run signals =
      ([.loop (hardwareCondition signals condition) stmts], signals) := by
  rw [hardwareStatement_whileLoop, run_bind_of_eq (run_looking _ signals), run_bind_of_eq hbody]
  rfl

/-- The step of a `for` loop stands at the end of the body. -/
theorem run_forLoop_none {condition : Option Expr} {step : Option Assignment}
    (hbody : (inBlock (hardwareStatements layouts type body)).run signals = (stmts, signals)) :
    (hardwareStatement layouts type (.forLoop none condition step body loc)).run signals =
      ([.loop (loopCondition signals condition) (stmts ++ step.toList.map (hardwareAssignment signals))], signals) := by
  rw [hardwareStatement_forLoop_none]
  refine (run_inBlock_of_eq ?_ : _ = (_, signals.leaveBlock signals.enterBlock))
  rw [run_bind_of_eq (run_looking _ signals), run_bind_of_eq hbody, run_bind_of_eq (run_looking _ signals)]
  rfl

/-- The start of a `for` loop stands before the loop. -/
theorem run_forLoop_some {start : Statement} {condition : Option Expr} {step : Option Assignment}
    (hstart : (hardwareStatement layouts type start).run signals = (first, inner))
    (hbody : (inBlock (hardwareStatements layouts type body)).run inner = (stmts, inner)) :
    (hardwareStatement layouts type (.forLoop (some start) condition step body loc)).run signals =
      (first ++ [.loop (loopCondition inner condition) (stmts ++ step.toList.map (hardwareAssignment inner))],
        inner.leaveBlock signals.enterBlock) := by
  rw [hardwareStatement_forLoop_some]
  apply run_inBlock_of_eq
  rw [run_bind_of_eq hstart, run_bind_of_eq (run_looking _ inner), run_bind_of_eq hbody,
    run_bind_of_eq (run_looking _ inner)]
  rfl

/-- What becomes of statements, from what becomes of the first one and of the others behind it. -/
theorem run_cons {s : Statement} {ss : List Statement} {rest : List Vhdl.Stmt} {last : Signals}
    (hfirst : (hardwareStatement layouts type s).run signals = (first, inner))
    (hrest : (hardwareStatements layouts type ss).run inner = (rest, last)) :
    (hardwareStatements layouts type (s :: ss)).run signals = (first ++ rest, last) := by
  rw [hardwareStatements_cons, run_bind_of_eq hfirst, run_bind_of_eq hrest]
  rfl

end Runs

/-! ## What statements leave in sight -/

section Sight

variable (layouts : Layouts) (type : DataType)

/-- A block brings back what was in sight before it if its statements bring into sight what they declare. -/
theorem run_inBlock_of_behindAll {layouts : Layouts} {type : DataType} {ss : List Statement}
    (h : ((hardwareStatements layouts type ss).run signals).2 = signals.behindAll ss) :
    (inBlock (hardwareStatements layouts type ss)).run signals =
      (((hardwareStatements layouts type ss).run signals).1, signals) := by
  rw [run_inBlock_of_eq (run_eq_of_snd h), Signals.leaveBlock_behindAll, Signals.leaveBlock_enterBlock]

mutual

/-- A statement leaves in sight what it declares. -/
theorem snd_run_hardwareStatement (s : Statement) (signals : Signals) :
    ((hardwareStatement layouts type s).run signals).2 = signals.behind s := by
  cases s with
  | declare decl =>
    rw [run_declare]
    rfl
  | assign assignment =>
    rw [run_assign]
    rfl
  | branch condition body alternative loc =>
    rw [run_branch (run_inBlock_of_behindAll (snd_run_hardwareStatements body signals))
      (run_eq_of_snd (snd_run_hardwareArms alternative signals))]
    rfl
  | whileLoop condition body loc =>
    rw [run_whileLoop (run_inBlock_of_behindAll (snd_run_hardwareStatements body signals))]
    rfl
  | forLoop start condition step body loc =>
    cases start with
    | none =>
      have hbody := run_inBlock_of_behindAll (snd_run_hardwareStatements body signals)
      rw [run_forLoop_none hbody]
      rfl
    | some start =>
      have hbody := run_inBlock_of_behindAll (snd_run_hardwareStatements body (signals.behind start))
      -- the variable of the start goes out of sight behind the loop
      rw [run_forLoop_some (run_eq_of_snd (snd_run_hardwareStatement start signals)) hbody]
      exact signals.leaveBlock_behind start _
  | giveBack value loc =>
    cases value with
    | none => rfl
    | some value =>
      rw [run_giveBack]
      rfl
  | leaveLoop loc => rfl
  | nextRound loc => rfl
  | evaluate value =>
    rw [run_evaluate]
    rfl

/-- Arms leave in sight what was. -/
theorem snd_run_hardwareArms (alternative : Alternative) (signals : Signals) :
    ((hardwareArms layouts type alternative).run signals).2 = signals := by
  cases alternative with
  | nothing => rfl
  | elseIf condition body rest =>
    rw [run_elseIf (run_inBlock_of_behindAll (snd_run_hardwareStatements body signals))
      (run_eq_of_snd (snd_run_hardwareArms rest signals))]
  | otherwise body => rw [run_otherwise (run_inBlock_of_behindAll (snd_run_hardwareStatements body signals))]

/-- Statements leave in sight what is in sight behind the last of them. -/
theorem snd_run_hardwareStatements (ss : List Statement) (signals : Signals) :
    ((hardwareStatements layouts type ss).run signals).2 = signals.behindAll ss := by
  cases ss with
  | nil => rfl
  | cons s ss =>
    rw [run_cons (run_eq_of_snd (snd_run_hardwareStatement s signals))
      (run_eq_of_snd (snd_run_hardwareStatements ss (signals.behind s)))]
    rfl

end

variable {layouts type}

/-- A statement leaves in sight what is in sight behind it. -/
theorem run_hardwareStatement (s : Statement) (signals : Signals) :
    (hardwareStatement layouts type s).run signals =
      (((hardwareStatement layouts type s).run signals).1, signals.behind s) :=
  run_eq_of_snd (snd_run_hardwareStatement layouts type s signals)

theorem run_hardwareArms (alternative : Alternative) (signals : Signals) :
    (hardwareArms layouts type alternative).run signals =
      (((hardwareArms layouts type alternative).run signals).1, signals) :=
  run_eq_of_snd (snd_run_hardwareArms layouts type alternative signals)

theorem run_block (ss : List Statement) (signals : Signals) :
    (inBlock (hardwareStatements layouts type ss)).run signals =
      (((hardwareStatements layouts type ss).run signals).1, signals) :=
  run_inBlock_of_behindAll (snd_run_hardwareStatements layouts type ss signals)

end Sight

end ClockedC
