import ClockedC.Proofs.Hardware.Generation

/-!
# Where statements are emitted

A statement inside of others is emitted with the signals that are in sight where it stands, and its lines stand
together among the lines of the statements around it.
-/

namespace ClockedC

variable {s : Statement} {ss : List Statement}

/-! ## Statements inside of others -/

/-- The bodies of the remaining arms of a branch. -/
def Alternative.bodies : Alternative → List (List Statement)
  | .nothing => []
  | .elseIf _ body alternative => body :: alternative.bodies
  | .otherwise body => [body]

/-- The signals in sight behind the start of a `for` loop. -/
def Signals.behindStart (signals : Signals) (start : Option Statement) : Signals :=
  start.elim signals signals.behind

/-- While the statements of a list are emitted where certain signals are in sight, the statement `s` is emitted where
`inner` are. -/
inductive EmittedIn (s : Statement) (inner : Signals) : List Statement → Signals → Prop
  | here {ss : List Statement} : EmittedIn s inner (s :: ss) inner
  | behind {t : Statement} {ss : List Statement} {outer : Signals} (h : EmittedIn s inner ss (outer.behind t)) :
      EmittedIn s inner (t :: ss) outer
  | branch {condition : Expr} {body : List Statement} {alternative : Alternative} {loc : Location}
      {ss : List Statement} {outer : Signals} (h : EmittedIn s inner body outer) :
      EmittedIn s inner (.branch condition body alternative loc :: ss) outer
  | arm {condition : Expr} {body arm : List Statement} {alternative : Alternative} {loc : Location}
      {ss : List Statement} {outer : Signals} (harm : arm ∈ alternative.bodies) (h : EmittedIn s inner arm outer) :
      EmittedIn s inner (.branch condition body alternative loc :: ss) outer
  | whileLoop {condition : Expr} {body : List Statement} {loc : Location} {ss : List Statement} {outer : Signals}
      (h : EmittedIn s inner body outer) : EmittedIn s inner (.whileLoop condition body loc :: ss) outer
  | start {start : Statement} {condition : Option Expr} {step : Option Assignment} {body : List Statement}
      {loc : Location} {ss : List Statement} {outer : Signals} (h : EmittedIn s inner [start] outer) :
      EmittedIn s inner (.forLoop (some start) condition step body loc :: ss) outer
  | forLoop {start : Option Statement} {condition : Option Expr} {step : Option Assignment} {body : List Statement}
      {loc : Location} {ss : List Statement} {outer : Signals} (h : EmittedIn s inner body (outer.behindStart start)) :
      EmittedIn s inner (.forLoop start condition step body loc :: ss) outer

/-- A statement of a list is emitted where the statements before it leave their variables in sight. -/
theorem EmittedIn.of_getElem? {i : Nat} (h : ss[i]? = some s) (outer : Signals) :
    EmittedIn s (outer.behindAll (ss.take i)) ss outer := by
  induction ss generalizing i outer with
  | nil => cases h
  | cons t ss ih =>
    cases i with
    | zero =>
      cases h
      exact .here
    | succ i => exact .behind (ih h (outer.behind t))

/-- The signals are in sight at some point while the body of a function is emitted: before or behind a statement. -/
def Function.InSight (f : Function) (signals : Signals) : Prop :=
  ∃ s inner, EmittedIn s inner f.body (Signals.ofFunction f) ∧ (signals = inner ∨ signals = inner.behind s)

/-! ## What never changes on the way -/

/-- The same replacements are known. -/
structure Signals.SameNames (signals signals' : Signals) : Prop where
  fixed : signals'.fixed = signals.fixed
  shadows : signals'.shadows = signals.shadows

namespace Signals.SameNames

variable {signals signals' signals'' : Signals}

theorem refl (signals : Signals) : signals.SameNames signals := ⟨rfl, rfl⟩

/-- Signals with the same names as others have the names of those. -/
theorem trans (h : signals.SameNames signals') (h' : signals'.SameNames signals'') : signals.SameNames signals'' :=
  ⟨h'.fixed.trans h.fixed, h'.shadows.trans h.shadows⟩

/-- A declaration changes what is in sight, and no name. -/
theorem declare (signals : Signals) (name : String) : signals.SameNames (signals.declare name) := by
  unfold Signals.declare
  split
  · exact ⟨rfl, rfl⟩
  · exact refl signals

/-- A statement changes what is in sight, and no name. -/
theorem behind (signals : Signals) (s : Statement) : signals.SameNames (signals.behind s) := by
  cases s with
  | declare decl => exact declare signals decl.name
  | _ => exact refl signals

/-- The start of a loop changes what is in sight, and no name. -/
theorem behindStart (signals : Signals) (start : Option Statement) : signals.SameNames (signals.behindStart start) := by
  cases start with
  | none => exact refl signals
  | some s => exact behind signals s

end Signals.SameNames

/-- On the way through statements only what is in sight changes, not how it is called. -/
theorem EmittedIn.sameNames {inner outer : Signals} (h : EmittedIn s inner ss outer) : outer.SameNames inner := by
  induction h with
  | here => exact .refl inner
  | behind h ih => exact (Signals.SameNames.behind _ _).trans ih
  | branch h ih => exact ih
  | arm harm h ih => exact ih
  | whileLoop h ih => exact ih
  | start h ih => exact ih
  | forLoop h ih => exact (Signals.SameNames.behindStart _ _).trans ih

theorem Function.InSight.sameNames {f : Function} {signals : Signals} (h : f.InSight signals) :
    (Signals.ofFunction f).SameNames signals := by
  obtain ⟨s, inner, hs, rfl | rfl⟩ := h
  · exact hs.sameNames
  · exact hs.sameNames.trans (.behind inner s)

/-! ## Sequential statements -/

/-- The bodies of the further arms of a branch. -/
def Vhdl.Arms.bodies : Vhdl.Arms → List (List Vhdl.Stmt)
  | .done => []
  | .elsif _ body arms => body :: arms.bodies
  | .otherwise body => [body]

/-- A property of sequential statements at a level of indentation that passes on to the statements inside of them. -/
structure Vhdl.Stmt.Inherited (P : Nat → List Vhdl.Stmt → Prop) : Prop where
  left : ∀ {level ss ts}, P level (ss ++ ts) → P level ss
  right : ∀ {level ss ts}, P level (ss ++ ts) → P level ts
  body : ∀ {level condition body arms}, P level [.ifThen condition body arms] → P (level + 1) body
  arm : ∀ {level condition body arms arm}, P level [.ifThen condition body arms] → arm ∈ arms.bodies → P (level + 1) arm
  loop : ∀ {level condition body}, P level [.loop condition body] → P (level + 1) body

section Emission

variable (layouts : Layouts) (type : DataType)

/-- The sequential statements of the start of a `for` loop. -/
def startStatements (signals : Signals) (start : Option Statement) : List Vhdl.Stmt :=
  start.elim [] fun s => ((hardwareStatement layouts type s).run signals).1

/-- A `for` loop is emitted as its start and then a loop whose body ends with the step. -/
theorem fst_run_forLoop (start : Option Statement) (condition : Option Expr) (step : Option Assignment)
    (body : List Statement) (loc : Location) (signals : Signals) :
    ((hardwareStatement layouts type (.forLoop start condition step body loc)).run signals).1 =
      startStatements layouts type signals start ++
        [.loop (loopCondition (signals.behindStart start) condition)
          (((hardwareStatements layouts type body).run (signals.behindStart start)).1 ++
            step.toList.map (hardwareAssignment (signals.behindStart start)))] := by
  cases start with
  | none =>
    rw [run_forLoop_none (run_block body signals)]
    rfl
  | some s =>
    rw [run_forLoop_some (run_hardwareStatement s signals) (run_block body _)]
    rfl

theorem fst_run_cons (s : Statement) (ss : List Statement) (signals : Signals) :
    ((hardwareStatements layouts type (s :: ss)).run signals).1 =
      ((hardwareStatement layouts type s).run signals).1 ++
        ((hardwareStatements layouts type ss).run (signals.behind s)).1 := by
  rw [run_cons (run_hardwareStatement s signals) (run_eq_of_snd rfl)]

theorem fst_run_singleton (s : Statement) (signals : Signals) :
    ((hardwareStatements layouts type [s]).run signals).1 = ((hardwareStatement layouts type s).run signals).1 := by
  rw [fst_run_cons]
  exact List.append_nil _

/-- The arms of a branch are arms in hardware. -/
theorem mem_bodies_hardwareArms {body : List Statement} {alternative : Alternative} (h : body ∈ alternative.bodies)
    (signals : Signals) :
    ((hardwareStatements layouts type body).run signals).1 ∈
      ((hardwareArms layouts type alternative).run signals).1.bodies := by
  cases alternative with
  | nothing => cases h
  | elseIf condition first rest =>
    rw [run_elseIf (run_block first signals) (run_hardwareArms rest signals), Vhdl.Arms.bodies]
    rcases List.mem_cons.1 h with rfl | h
    · exact List.mem_cons_self
    · exact List.mem_cons_of_mem _ (mem_bodies_hardwareArms h signals)
  | otherwise last =>
    rw [run_otherwise (run_block last signals), List.mem_singleton.1 h]
    exact List.mem_singleton_self _

variable {layouts type}

/-- What passes on to statements inside passes on to every statement that is emitted on the way. -/
theorem EmittedIn.inherits {P : Nat → List Vhdl.Stmt → Prop} (hP : Vhdl.Stmt.Inherited P) {inner outer : Signals}
    (h : EmittedIn s inner ss outer) (level : Nat) (hss : P level ((hardwareStatements layouts type ss).run outer).1) :
    ∃ level', P level' ((hardwareStatement layouts type s).run inner).1 := by
  induction h generalizing level with
  | here =>
    rw [fst_run_cons] at hss
    exact ⟨level, hP.left hss⟩
  | behind h ih =>
    rw [fst_run_cons] at hss
    exact ih level (hP.right hss)
  | @branch condition body alternative loc ss outer h ih =>
    rw [fst_run_cons, run_branch (run_block body outer) (run_hardwareArms alternative outer)] at hss
    exact ih (level + 1) (hP.body (hP.left hss))
  | @arm condition body arm alternative loc ss outer harm h ih =>
    rw [fst_run_cons, run_branch (run_block body outer) (run_hardwareArms alternative outer)] at hss
    exact ih (level + 1) (hP.arm (hP.left hss) (mem_bodies_hardwareArms layouts type harm outer))
  | @whileLoop condition body loc ss outer h ih =>
    rw [fst_run_cons, run_whileLoop (run_block body outer)] at hss
    exact ih (level + 1) (hP.loop (hP.left hss))
  | @start start condition step body loc ss outer h ih =>
    rw [fst_run_cons, fst_run_forLoop] at hss
    -- the start stands in front of the loop, on the level of the loop itself
    have hstart : P level ((hardwareStatements layouts type [start]).run outer).1 := by
      rw [fst_run_singleton]
      exact hP.left (hP.left hss)
    exact ih level hstart
  | forLoop h ih =>
    rw [fst_run_cons, fst_run_forLoop] at hss
    exact ih (level + 1) (hP.left (hP.loop (hP.right (hP.left hss))))

end Emission

/-! ## Lines -/

namespace Vhdl

theorem Stmt.linesOf_singleton (level : Nat) (s : Stmt) : Stmt.linesOf level [s] = s.lines level := List.append_nil _

/-- The lines of the body of an arm stand together among the lines of the arms. -/
theorem Arms.linesOf_isInfix {arm : List Stmt} {arms : Arms} (h : arm ∈ arms.bodies) (level : Nat) :
    Stmt.linesOf (level + 1) arm <:+: arms.lines level := by
  cases arms with
  | done => cases h
  | elsif condition body rest =>
    rw [Arms.lines]
    apply List.infix_cons
    rcases List.mem_cons.1 h with rfl | h
    · exact (List.prefix_append ..).isInfix
    · exact (Arms.linesOf_isInfix h level).trans (List.suffix_append ..).isInfix
  | otherwise body =>
    rw [Arms.lines, List.mem_singleton.1 h]
    exact List.infix_cons (List.infix_refl _)

/-- To have all its lines together among certain lines passes on to the statements inside. -/
theorem Stmt.inherited_linesOf (lines : List Line) :
    Stmt.Inherited fun level ss => Stmt.linesOf level ss <:+: lines where
  left h := by
    rw [Stmt.linesOf_append] at h
    exact (List.prefix_append ..).isInfix.trans h
  right h := by
    rw [Stmt.linesOf_append] at h
    exact (List.suffix_append ..).isInfix.trans h
  body h := by
    rw [Stmt.linesOf_singleton, Stmt.lines, List.append_assoc] at h
    exact (List.infix_cons (List.prefix_append ..).isInfix).trans h
  arm h harm := by
    rw [Stmt.linesOf_singleton, Stmt.lines, List.append_assoc] at h
    exact ((Arms.linesOf_isInfix harm _).trans (List.infix_cons (List.infix_append' ..))).trans h
  loop h := by
    rw [Stmt.linesOf_singleton, Stmt.lines] at h
    exact (List.infix_cons (List.prefix_append ..).isInfix).trans h

end Vhdl

/-- The lines of a statement stand together among the lines of the statements around it. -/
theorem EmittedIn.linesOf_isInfix {inner outer : Signals} (h : EmittedIn s inner ss outer) (layouts : Layouts)
    (type : DataType) (level : Nat) :
    ∃ level', Vhdl.Stmt.linesOf level' ((hardwareStatement layouts type s).run inner).1 <:+:
      Vhdl.Stmt.linesOf level ((hardwareStatements layouts type ss).run outer).1 :=
  h.inherits (Vhdl.Stmt.inherited_linesOf _) level (List.infix_refl _)

end ClockedC
