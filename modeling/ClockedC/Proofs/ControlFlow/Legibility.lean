import ClockedC.Proofs.ControlFlow.Lines
import ClockedC.Proofs.Hardware.SignalNames
import ClockedC.Proofs.Reading.Accepted

/-!
# The lines of a function can be told apart

What a function assigns to is a place, and a place begins with an identifier. So in hardware every target begins with a
word, and no assignment is taken for a remark.
-/

namespace ClockedC

/-! ## Targets -/

/-- An identifier begins with a letter or an underscore. -/
theorem exists_head_of_isIdentifier {name : String} (h : isIdentifier name) :
    ∃ c, name.toList.head? = some c ∧ Piece.isWordStart c := by
  unfold isIdentifier at h
  split at h
  · cases h
  · next c cs hname =>
    rw [Bool.and_eq_true, Bool.and_eq_true] at h
    exact ⟨c, by rw [hname]; rfl, h.1.1⟩

namespace Vhdl.Expr.BeginsWithWord

/-- An identifier begins with a word, also with a suffix. -/
theorem name {n suffix : String} (h : isIdentifier n) : (Vhdl.Expr.name (n ++ suffix)).BeginsWithWord := by
  obtain ⟨c, hc, hstart⟩ := exists_head_of_isIdentifier h
  refine ⟨c, ?_, hstart⟩
  simp [Vhdl.Expr.text, hc]

/-- A field begins as its record does. -/
theorem field {e : Vhdl.Expr} (h : e.BeginsWithWord) (n : String) : (Vhdl.Expr.field e n).BeginsWithWord := by
  obtain ⟨c, hc, hstart⟩ := h
  refine ⟨c, ?_, hstart⟩
  simp [Vhdl.Expr.text, hc]

/-- An element begins as its array does. -/
theorem apply {e : Vhdl.Expr} (h : e.BeginsWithWord) (args : List Vhdl.Expr) :
    (Vhdl.Expr.apply e args).BeginsWithWord := by
  obtain ⟨c, hc, hstart⟩ := h
  refine ⟨c, ?_, hstart⟩
  simp [Vhdl.Expr.text, hc]

end Vhdl.Expr.BeginsWithWord

section Targets

variable {signals : Signals} (hsignals : signals.Extending)

include hsignals

/-- The signal of a variable begins with a word. -/
theorem beginsWithWord_signal {name : String} (h : isIdentifier name) :
    (Vhdl.Expr.name (signals.signal name)).BeginsWithWord := by
  obtain ⟨suffix, hsuffix⟩ := hsignals.signal_eq_append name
  rw [hsuffix]
  exact .name h

/-- Fields of fields begin with the name of a variable. -/
theorem beginsWithWord_of_isFieldChain {e : Expr} (hchain : e.isFieldChain) (hnamed : e.Named) :
    (hardwareExpr signals e).BeginsWithWord := by
  induction e with
  | ident name loc => exact beginsWithWord_signal hsignals hnamed
  | field base name loc ih => exact (ih hchain hnamed.1).field name
  | _ => simp [Expr.isFieldChain] at hchain

/-- A place begins with a word. -/
theorem beginsWithWord_of_isPlace {e : Expr} (hplace : e.isPlace) (hcanonical : e.Canonical) (hnamed : e.Named) :
    (hardwareExpr signals e).BeginsWithWord := by
  cases e with
  | ident name loc => exact beginsWithWord_signal hsignals hnamed
  | field base name loc => exact (beginsWithWord_of_isFieldChain hsignals hcanonical hnamed.1).field name
  | element base index loc =>
    rw [hardwareExpr_element]
    exact (beginsWithWord_of_isFieldChain hsignals hcanonical.1 hnamed.1).apply _
  | _ => simp [Expr.isPlace] at hplace

theorem legible_hardwareAssignment {arrays : ArraySizes} {a : Assignment} (hok : a.Admissible arrays)
    (hnamed : a.Named) : (hardwareAssignment signals a).Legible := by
  rw [hardwareAssignment_eq]
  exact beginsWithWord_of_isPlace hsignals hok.isPlace hok.target.canonical hnamed.target

end Targets

/-- An assignment to a signal is legible if the signal begins with a word. -/
theorem Vhdl.Stmt.AssignsTo.legible {signal : String} {s : Vhdl.Stmt} (h : s.AssignsTo signal)
    (hsignal : (Vhdl.Expr.name signal).BeginsWithWord) : s.Legible := by
  obtain ⟨value, rfl | ⟨field, rfl⟩⟩ := h
  · exact hsignal
  · exact hsignal.field field

/-! ## Statements -/

theorem Vhdl.Stmt.AllLegible.append {ss ts : List Vhdl.Stmt} (hs : AllLegible ss) (ht : AllLegible ts) :
    AllLegible (ss ++ ts) := by
  rw [allLegible_iff] at *
  exact List.forall_mem_append.2 ⟨hs, ht⟩

theorem Vhdl.Stmt.AllLegible.loop {condition : Vhdl.Expr} {ss : List Vhdl.Stmt} (h : AllLegible ss) :
    AllLegible [.loop condition ss] := ⟨h, trivial⟩

/-- The step of a loop is an assignment, if there is one. -/
theorem legible_step {signals : Signals} (hsignals : signals.Extending) {arrays : ArraySizes}
    {step : Option Assignment} (hok : ∀ a ∈ step, a.Admissible arrays) (hnamed : ∀ a ∈ step, a.Named) :
    Vhdl.Stmt.AllLegible (step.toList.map (hardwareAssignment signals)) := by
  rw [Vhdl.Stmt.allLegible_iff]
  intro s hs
  obtain ⟨a, ha, rfl⟩ := List.mem_map.1 hs
  rw [Option.mem_toList] at ha
  exact legible_hardwareAssignment hsignals (hok a ha) (hnamed a ha)

section Statements

variable (layouts : Layouts) (type : DataType)

mutual

/-- The sequential statements of a statement are legible. -/
theorem legible_hardwareStatement (s : Statement) {structs : Layouts} {inLoop : Prop} {arrays : ArraySizes}
    (hok : s.Admissible structs inLoop arrays) (hnamed : s.Named) {signals : Signals} (hsignals : signals.Extending) :
    Vhdl.Stmt.AllLegible ((hardwareStatement layouts type s).run signals).1 := by
  cases s with
  | declare decl =>
    rw [run_declare, Vhdl.Stmt.allLegible_iff]
    intro s hs
    exact (assignsTo_of_mem_hardwareInitializer hs).legible
      (beginsWithWord_signal (hsignals.declare decl.name) hnamed.name)
  | assign assignment =>
    rw [run_assign]
    exact ⟨legible_hardwareAssignment hsignals hok hnamed, trivial⟩
  | branch condition body alternative loc =>
    rw [run_branch (run_block body signals) (run_hardwareArms alternative signals)]
    exact ⟨⟨legible_hardwareStatements body hok.2.1 hnamed.2.1 hsignals,
      legible_hardwareArms alternative hok.2.2 hnamed.2.2 hsignals⟩, trivial⟩
  | whileLoop condition body loc =>
    rw [run_whileLoop (run_block body signals)]
    exact .loop (legible_hardwareStatements body hok.2 hnamed.2 hsignals)
  | forLoop start condition step body loc =>
    cases start with
    | none =>
      rw [run_forLoop_none (run_block body signals)]
      have hbody := legible_hardwareStatements body hok.2.2 hnamed.2.2 hsignals
      exact .loop (hbody.append (legible_step hsignals hok.2.1 hnamed.2.1))
    | some start =>
      -- the rest of the loop is emitted with what its start has brought into sight
      have hbehind := hsignals.behind start
      have hstart := legible_hardwareStatement start hok.2.1 hnamed.1 hsignals
      have hbody := legible_hardwareStatements body hok.2.2.2.2 hnamed.2.2.2 hbehind
      rw [run_forLoop_some (run_hardwareStatement start signals) (run_block body _)]
      exact hstart.append (.loop (hbody.append (legible_step hbehind hok.2.2.2.1 hnamed.2.2.1)))
  | giveBack value loc =>
    cases value with
    | none => trivial
    | some value =>
      rw [run_giveBack, Vhdl.Stmt.allLegible_iff]
      intro s hs
      -- what is given back goes to the port `result` or to its fields
      exact (assignsTo_of_mem_hardwareReturn hs).legible ⟨'r', by decide, by decide⟩
  | leaveLoop loc => exact ⟨trivial, trivial⟩
  | nextRound loc => exact ⟨trivial, trivial⟩
  | evaluate value =>
    rw [run_evaluate]
    exact ⟨trivial, trivial⟩

/-- Legibility of the further arms, by the recursion through the syntax. -/
theorem legible_hardwareArms (alternative : Alternative) {structs : Layouts} {inLoop : Prop} {arrays : ArraySizes}
    (hok : alternative.Admissible structs inLoop arrays) (hnamed : alternative.Named) {signals : Signals}
    (hsignals : signals.Extending) : ((hardwareArms layouts type alternative).run signals).1.Legible := by
  cases alternative with
  | nothing => trivial
  | elseIf condition body rest =>
    rw [run_elseIf (run_block body signals) (run_hardwareArms rest signals)]
    exact ⟨legible_hardwareStatements body hok.2.1 hnamed.2.1 hsignals,
      legible_hardwareArms rest hok.2.2 hnamed.2.2 hsignals⟩
  | otherwise body =>
    rw [run_otherwise (run_block body signals)]
    exact legible_hardwareStatements body hok hnamed hsignals

/-- The sequential statements made of statements that can be read are legible. -/
theorem legible_hardwareStatements (ss : List Statement) {structs : Layouts} {inLoop : Prop} {arrays : ArraySizes}
    (hok : Statement.AllAdmissible structs inLoop arrays ss) (hnamed : Statement.AllNamed ss) {signals : Signals}
    (hsignals : signals.Extending) : Vhdl.Stmt.AllLegible ((hardwareStatements layouts type ss).run signals).1 := by
  cases ss with
  | nil => trivial
  | cons s ss =>
    have hfirst := legible_hardwareStatement s hok.1 hnamed.1 hsignals
    have hrest := legible_hardwareStatements ss hok.2 hnamed.2 (hsignals.behind s)
    rw [run_cons (run_hardwareStatement s signals) (run_eq_of_snd rfl)]
    exact hfirst.append hrest

end

end Statements

/-- The process of a function of a source text that is compiled is legible. -/
theorem legible_hardwareEntity {source : String} {c : Compilation} {f : Function}
    (h : (compile source).outcome = .ok c) (hf : f ∈ c.program.functions) (layouts : Layouts) :
    Vhdl.Stmt.AllLegible (hardwareEntity layouts f).body := by
  obtain ⟨structs, hok⟩ := Function.admissible_of_compile h hf
  rw [hardwareEntity_body]
  exact legible_hardwareStatements layouts f.result f.body hok.body (Function.named_of_compile h hf).body
    (.ofFunction f)

end ClockedC
