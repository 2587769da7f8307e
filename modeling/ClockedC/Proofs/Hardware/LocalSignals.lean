import ClockedC.Proofs.Hardware.DeclarationLines
import ClockedC.Proofs.Structs.Records

/-!
# One signal for each local variable

The declarations of a function are gone through twice: once for the signals of its architecture, and once on the way
through its body, where each of them assigns the first value of its variable. Both ways meet the same declarations, and
what a declaration assigns to is the signal that was made for its name.

* `local_signals_declared_once` : one signal for each name, written to by all declarations of that name.
-/

namespace ClockedC

variable {decl : Variable}

/-! ## First declarations -/

/-- The names of the declarations that count are the names not seen before, each of them once. -/
theorem map_name_firstDeclarations (seen : List String) (decls : List Variable) :
    (firstDeclarations seen decls).map (·.name) = ((decls.map (·.name)).filter (· ∉ seen)).eraseDups := by
  induction decls generalizing seen with
  | nil => rfl
  | cons decl decls ih =>
    rw [firstDeclarations, List.map_cons]
    split
    next hseen => rw [ih, List.filter_cons_of_neg (by simpa using hseen)]
    next hnew =>
      rw [List.map_cons, ih, List.filter_cons_of_pos (by simpa using hnew), List.eraseDups_cons, List.filter_filter]
      congr 3
      funext name
      simp [beq_eq_decide]

/-! ## The signal of a variable -/

/-- The number of elements of an array. -/
def Vhdl.Declaration.length? : Vhdl.Declaration → Option Nat
  | .signal _ _ => none
  | .array _ length _ _ => some length

theorem length?_hardwareDeclaration (signals : Signals) (decl : Variable) :
    (hardwareDeclaration signals decl).length? = decl.length := by
  rw [hardwareDeclaration_eq]
  cases decl.length <;> rfl

/-- The signal belongs to the local variable called `name`: it has the type and the length of the first declaration of
that name. -/
def Function.DeclaresAs (f : Function) (name : String) (declaration : Vhdl.Declaration) : Prop :=
  declaration.name = (Signals.ofFunction f).localSignal name ∧
    ∃ decl, f.locals.find? (·.name = name) = some decl ∧ declaration.type = decl.type.signalType ∧
      declaration.length? = decl.length

/-- The signal of a declaration that counts belongs to its name. -/
theorem declaresAs_of_mem_firstDeclarations {f : Function} (h : decl ∈ firstDeclarations [] f.locals) :
    f.DeclaresAs decl.name (hardwareDeclaration (Signals.ofFunction f) decl) :=
  ⟨name_hardwareDeclaration _ decl, decl, (find?_of_mem_firstDeclarations h).2, type_hardwareDeclaration _ decl,
    length?_hardwareDeclaration _ decl⟩

/-- The signals of an entity belong to the names of the local variables, one to each. -/
theorem forall₂_declaresAs (layouts : Layouts) (f : Function) :
    List.Forall₂ f.DeclaresAs (f.locals.map (·.name)).eraseDups (hardwareEntity layouts f).signals := by
  have hnames : (f.locals.map (·.name)).eraseDups = (firstDeclarations [] f.locals).map (·.name) := by
    simp [map_name_firstDeclarations]
  rw [hnames, hardwareEntity_signals, List.forall₂_map_left_iff, List.forall₂_map_right_iff, List.forall₂_same]
  exact fun decl => declaresAs_of_mem_firstDeclarations

/-- The line declares the signal of the local variable called `name`, with the type and the length of the first
declaration of that name. An array has a type of its own, which is declared among the lines. -/
def Function.DeclaresInLine (f : Function) (lines : List Vhdl.Line) (name : String) (line : Vhdl.Line) : Prop :=
  let signal := (Signals.ofFunction f).localSignal name
  let arrayType := Vhdl.Declaration.arrayTypeName signal
  ∃ decl, f.locals.find? (·.name = name) = some decl ∧
    (decl.length = none → line = ⟨1, "signal " ++ signal ++ " : " ++ decl.type.signalType.text ++ ";"⟩) ∧
    ∀ n, decl.length = some n →
      (line = ⟨1, "signal " ++ signal ++ " : " ++ arrayType ++ ";"⟩ ∨
        line = ⟨1, "signal " ++ signal ++ " : " ++ arrayType ++ " := " ++ Vhdl.Declaration.contentsName signal ++
          ";"⟩) ∧
      ⟨1, "type " ++ arrayType ++ " is array (0 to " ++ toString (n - 1) ++ ") of " ++ decl.type.signalType.text ++
        ";"⟩ ∈ lines

/-- The line of a declaration that counts declares the signal of its name. -/
theorem declaresInLine_of_mem_firstDeclarations {f : Function} (h : decl ∈ firstDeclarations [] f.locals)
    (layouts : Layouts) :
    f.DeclaresInLine (hardwareEntity layouts f).lines decl.name
      (hardwareDeclaration (Signals.ofFunction f) decl).signalLine := by
  have hsignal : hardwareDeclaration (Signals.ofFunction f) decl ∈ (hardwareEntity layouts f).signals := by
    rw [hardwareEntity_signals]
    exact List.mem_map_of_mem h
  refine ⟨decl, (find?_of_mem_firstDeclarations h).2, ?_, ?_⟩
  · intro hlength
    rw [hardwareDeclaration_scalar _ hlength]
    rfl
  · intro n hlength
    rw [hardwareDeclaration_array _ hlength] at hsignal ⊢
    refine ⟨?_, Vhdl.Entity.mem_lines_of_mem_signals hsignal List.mem_cons_self⟩
    cases hardwareContents (Signals.ofFunction f) decl.type n decl.init with
    | none => exact .inl rfl
    | some contents => exact .inr rfl

/-- The lines of an entity that declare signals declare those of the local variables, one for each name. -/
theorem forall₂_declaresInLine (layouts : Layouts) (f : Function) :
    List.Forall₂ (f.DeclaresInLine (hardwareEntity layouts f).lines) (f.locals.map (·.name)).eraseDups
      ((hardwareEntity layouts f).lines.filter (·.declares "signal")) := by
  have hnames : (f.locals.map (·.name)).eraseDups = (firstDeclarations [] f.locals).map (·.name) := by
    simp [map_name_firstDeclarations]
  rw [Vhdl.Entity.filter_declares_signal, hnames, hardwareEntity_signals, List.map_map,
    List.forall₂_map_left_iff, List.forall₂_map_right_iff, List.forall₂_same]
  exact fun decl hdecl => declaresInLine_of_mem_firstDeclarations hdecl layouts

/-- The signals of local variables differ, whatever the parameters are called. -/
theorem nodup_map_name_signals (layouts : Layouts) (f : Function) :
    ((hardwareEntity layouts f).signals.map Vhdl.Declaration.name).Nodup := by
  have hnames : (hardwareEntity layouts f).signals.map Vhdl.Declaration.name =
      ((firstDeclarations [] f.locals).map (·.name)).map (Signals.ofFunction f).localSignal := by
    simp [hardwareEntity_signals, name_hardwareDeclaration]
  rw [hnames]
  refine List.Nodup.map_on ?_ (nodup_firstDeclarations [] f.locals).1
  intro name hname name' hname' heq
  have hvariable {x : String} (hx : x ∈ (firstDeclarations [] f.locals).map (·.name)) : x ∈ f.variableNames := by
    obtain ⟨decl, hdecl, rfl⟩ := List.mem_map.1 hx
    exact List.mem_append_right _ (List.mem_map_of_mem (mem_of_mem_firstDeclarations hdecl))
  exact (Signals.Separates.ofFunction f).localSignal_injective (hvariable hname) (hvariable hname') heq

/-! ## Declarations on the way through a body -/

/-- The declarations in an arm are declarations of the branch. -/
theorem Alternative.mem_locals {arm : List Statement} {alternative : Alternative} (harm : arm ∈ alternative.bodies)
    (h : decl ∈ Statement.localsOf arm) : decl ∈ alternative.locals := by
  cases alternative with
  | nothing => cases harm
  | elseIf condition body rest =>
    rcases List.mem_cons.1 harm with rfl | harm
    · exact List.mem_append_left _ h
    · exact List.mem_append_right _ (Alternative.mem_locals harm h)
  | otherwise body =>
    rw [List.mem_singleton.1 harm] at h
    exact h

/-- What a statement declares that is met is declared in the body. -/
theorem EmittedIn.mem_localsOf {s : Statement} {inner outer : Signals} {ss : List Statement}
    (h : EmittedIn s inner ss outer) (hdecl : decl ∈ s.locals) : decl ∈ Statement.localsOf ss := by
  induction h with
  | here => exact List.mem_append_left _ hdecl
  | behind h ih => exact List.mem_append_right _ ih
  | branch h ih => exact List.mem_append_left _ (List.mem_append_left _ ih)
  | arm harm h ih => exact List.mem_append_left _ (List.mem_append_right _ (Alternative.mem_locals harm ih))
  | whileLoop h ih => exact List.mem_append_left _ ih
  | start h ih =>
    rw [Statement.localsOf_cons, Statement.localsOf_nil, List.append_nil] at ih
    exact List.mem_append_left _ (List.mem_append_left _ ih)
  | @forLoop start condition step body loc ss outer h ih =>
    apply List.mem_append_left
    cases start with
    | none => exact ih
    | some start => exact List.mem_append_right _ ih

mutual

/-- Every declaration inside a statement is met, wherever the statement stands. -/
theorem Statement.exists_emittedIn (s : Statement) {decl : Variable} (h : decl ∈ s.locals) (ss : List Statement)
    (outer : Signals) : ∃ inner, EmittedIn (.declare decl) inner (s :: ss) outer := by
  cases s with
  | declare decl' =>
    rw [List.mem_singleton.1 h]
    exact ⟨outer, .here⟩
  | branch condition body alternative loc =>
    rcases List.mem_append.1 h with h | h
    · obtain ⟨inner, hinner⟩ := Statement.exists_emittedIn_of_localsOf body h outer
      exact ⟨inner, .branch hinner⟩
    · obtain ⟨arm, harm, inner, hinner⟩ := Alternative.exists_emittedIn alternative h outer
      exact ⟨inner, .arm harm hinner⟩
  | whileLoop condition body loc =>
    obtain ⟨inner, hinner⟩ := Statement.exists_emittedIn_of_localsOf body h outer
    exact ⟨inner, .whileLoop hinner⟩
  | forLoop start condition step body loc =>
    cases start with
    | none =>
      obtain ⟨inner, hinner⟩ := Statement.exists_emittedIn_of_localsOf body h outer
      exact ⟨inner, .forLoop hinner⟩
    | some start =>
      -- the start may be any statement, with declarations anywhere inside
      rcases List.mem_append.1 h with h | h
      · obtain ⟨inner, hinner⟩ := Statement.exists_emittedIn start h [] outer
        exact ⟨inner, .start hinner⟩
      · obtain ⟨inner, hinner⟩ := Statement.exists_emittedIn_of_localsOf body h (outer.behind start)
        exact ⟨inner, .forLoop hinner⟩
  | _ => cases h

/-- A declaration in the further arms is met while its arm is emitted. -/
theorem Alternative.exists_emittedIn (alternative : Alternative) {decl : Variable} (h : decl ∈ alternative.locals)
    (outer : Signals) : ∃ arm ∈ alternative.bodies, ∃ inner, EmittedIn (.declare decl) inner arm outer := by
  cases alternative with
  | nothing => cases h
  | elseIf condition body rest =>
    rcases List.mem_append.1 h with h | h
    · exact ⟨body, List.mem_cons_self, Statement.exists_emittedIn_of_localsOf body h outer⟩
    · obtain ⟨arm, harm, hinner⟩ := Alternative.exists_emittedIn rest h outer
      exact ⟨arm, List.mem_cons_of_mem _ harm, hinner⟩
  | otherwise body => exact ⟨body, List.mem_singleton_self _, Statement.exists_emittedIn_of_localsOf body h outer⟩

/-- A declaration in statements is met while they are emitted. -/
theorem Statement.exists_emittedIn_of_localsOf (ss : List Statement) {decl : Variable}
    (h : decl ∈ Statement.localsOf ss) (outer : Signals) : ∃ inner, EmittedIn (.declare decl) inner ss outer := by
  cases ss with
  | nil => cases h
  | cons s ss =>
    rcases List.mem_append.1 h with h | h
    · exact Statement.exists_emittedIn s h ss outer
    · obtain ⟨inner, hinner⟩ := Statement.exists_emittedIn_of_localsOf ss h (outer.behind s)
      exact ⟨inner, .behind hinner⟩

end

/-- The declarations of a body are those that are met while it is emitted. -/
theorem mem_localsOf_iff {ss : List Statement} (outer : Signals) :
    decl ∈ Statement.localsOf ss ↔ ∃ inner, outer.SameNames inner ∧ EmittedIn (.declare decl) inner ss outer := by
  constructor
  · intro h
    obtain ⟨inner, hinner⟩ := Statement.exists_emittedIn_of_localsOf ss h outer
    exact ⟨inner, hinner.sameNames, hinner⟩
  · rintro ⟨inner, -, hinner⟩
    exact hinner.mem_localsOf (List.mem_singleton_self decl)

/-! ## What declarations write to -/

/-- A local variable has the same signal whatever is in sight. -/
theorem Signals.SameNames.localSignal_eq {signals signals' : Signals} (h : signals.SameNames signals') (name : String) :
    signals'.localSignal name = signals.localSignal name := by
  have hshadow : signals'.shadow? name = signals.shadow? name := by rw [shadow?, shadow?, h.shadows]
  have houter : signals'.outer name = signals.outer name := by rw [outer, outer, h.fixed]
  rcases Separates.localSignal_cases signals name with hown | ⟨hnone, hown⟩
  · rw [localSignal, hshadow, hown, Option.getD_some]
  · rcases Separates.localSignal_cases signals' name with hown' | ⟨-, hown'⟩
    · rw [hshadow, hnone] at hown'
      cases hown'
    · rw [hown', houter, hown]

/-- A declaration writes to the signal of the local variable it declares. -/
theorem assignsTo_of_mem_declare {layouts : Layouts} {type : DataType} {signals : Signals} {s : Vhdl.Stmt}
    (h : s ∈ ((hardwareStatement layouts type (.declare decl)).run signals).1) :
    s.AssignsTo (signals.localSignal decl.name) := by
  rw [← Signals.signal_declare_self]
  exact assignsTo_of_mem_hardwareInitializer h

theorem Vhdl.Stmt.AssignsTo.forall_lines {signal : String} {s : Vhdl.Stmt} (h : s.AssignsTo signal) (level : Nat) :
    ∀ line ∈ s.lines level, line.AssignsTo signal := by
  obtain ⟨value, rfl | ⟨field, rfl⟩⟩ := h
  · exact List.forall_mem_singleton.2 ⟨value.text, .inl rfl⟩
  · exact List.forall_mem_singleton.2 ⟨value.text, .inr ⟨field, rfl⟩⟩

/-- The lines that a declaration leaves in the process write to the signal of the variable. -/
theorem EmittedIn.exists_lines_of_declare {f : Function} {inner : Signals}
    (h : EmittedIn (.declare decl) inner f.body (Signals.ofFunction f)) (layouts : Layouts) :
    ∃ level, Vhdl.Stmt.linesOf level ((hardwareStatement layouts f.result (.declare decl)).run inner).1 <:+:
        (hardwareEntity layouts f).lines ∧
      ∀ line ∈ Vhdl.Stmt.linesOf level ((hardwareStatement layouts f.result (.declare decl)).run inner).1,
        line.AssignsTo ((Signals.ofFunction f).localSignal decl.name) := by
  obtain ⟨level, hlines⟩ := h.linesOf_isInfix layouts f.result 3
  rw [← hardwareEntity_body] at hlines
  refine ⟨level, hlines.trans (hardwareEntity layouts f).linesOf_body_isInfix, ?_⟩
  intro line hline
  rw [← h.sameNames.localSignal_eq decl.name]
  rw [Vhdl.Stmt.linesOf_eq_flatMap] at hline
  obtain ⟨s, hs, hline⟩ := List.mem_flatMap.1 hline
  exact (assignsTo_of_mem_declare hs).forall_lines level line hline

/-- **Declarations cover the local variables once.** The signals of an entity belong to the different names of its local
variables in turn, in the order of their first declarations, and each has the type and the length of that declaration.
So do the lines of the entity that declare signals. The declarations in the body are those that are met while the body
is emitted. Whatever is in sight there, a declaration of a name writes to nothing but the one signal that belongs to the
name, and the name stands for it afterwards; its lines stand in the entity and assign to that signal. -/
theorem local_signals_declared_once (layouts : Layouts) (f : Function) :
    List.Forall₂ f.DeclaresAs (f.locals.map (·.name)).eraseDups (hardwareEntity layouts f).signals ∧
      ((hardwareEntity layouts f).signals.map Vhdl.Declaration.name).Nodup ∧
      (∀ decl, decl ∈ f.locals ↔ ∃ inner, (Signals.ofFunction f).SameNames inner ∧
        EmittedIn (.declare decl) inner f.body (Signals.ofFunction f)) ∧
      (∀ decl ∈ f.locals, ∀ signals, (Signals.ofFunction f).SameNames signals →
        ∃ declaration ∈ (hardwareEntity layouts f).signals, f.DeclaresAs decl.name declaration ∧
          signals.localSignal decl.name = declaration.name ∧
          (signals.declare decl.name).signal decl.name = declaration.name ∧
          ∀ s ∈ ((hardwareStatement layouts f.result (.declare decl)).run signals).1,
            s.AssignsTo declaration.name) ∧
      List.Forall₂ (f.DeclaresInLine (hardwareEntity layouts f).lines) (f.locals.map (·.name)).eraseDups
        ((hardwareEntity layouts f).lines.filter (·.declares "signal")) ∧
      ∀ decl inner, EmittedIn (.declare decl) inner f.body (Signals.ofFunction f) →
        ∃ level, Vhdl.Stmt.linesOf level ((hardwareStatement layouts f.result (.declare decl)).run inner).1 <:+:
            (hardwareEntity layouts f).lines ∧
          ∀ line ∈ Vhdl.Stmt.linesOf level ((hardwareStatement layouts f.result (.declare decl)).run inner).1,
            line.AssignsTo ((Signals.ofFunction f).localSignal decl.name) := by
  refine ⟨forall₂_declaresAs layouts f, nodup_map_name_signals layouts f, fun decl => mem_localsOf_iff _, ?_,
    forall₂_declaresInLine layouts f, fun decl inner h => h.exists_lines_of_declare layouts⟩
  intro decl hdecl signals hsame
  obtain ⟨first, hfirst, hname⟩ := exists_mem_firstDeclarations (List.mem_map_of_mem hdecl) List.not_mem_nil
  have hdeclares := declaresAs_of_mem_firstDeclarations hfirst
  rw [hname] at hdeclares
  have hlocal : signals.localSignal decl.name = (hardwareDeclaration (Signals.ofFunction f) first).name :=
    (hsame.localSignal_eq decl.name).trans hdeclares.1.symm
  rw [hardwareEntity_signals]
  refine ⟨_, List.mem_map_of_mem hfirst, hdeclares, hlocal, ?_, ?_⟩
  · rw [Signals.signal_declare_self, hlocal]
  · intro s hs
    rw [← hlocal]
    exact assignsTo_of_mem_declare hs

/-- A function whose loop starts with a branch. Its local variables are declared in both arms of the branch, and again
in the loop and behind it with other types; one of them has the name of the parameter, and one a reserved name. -/
def scatteredFunction : Function :=
  let one := some (Initializer.value (.number "1" .start))
  { name := "f"
    result := .int
    parameters := [⟨"a", .int, .start⟩]
    body :=
      [.forLoop
          (some (.branch (.ident "a" .start) [.declare ⟨"a", .char, none, one, .start⟩]
            (.otherwise [.declare ⟨"b", .int, some 2, none, .start⟩]) .start))
          none none [.declare ⟨"a", .int, some 4, none, .start⟩, .declare ⟨"clk", .double, none, one, .start⟩] .start,
        .declare ⟨"b", .char, none, one, .start⟩]
    loc := .start }

theorem local_signals_declared_once_scatteredFunction :
    (scatteredFunction.locals.map (·.name)).eraseDups = ["a", "b", "clk"] ∧
      (hardwareEntity {} scatteredFunction).signals.map (fun d => (d.name, d.type, d.length?)) =
        [("a_local", .vector 8, none), ("b", .vector 32, some 2), ("clk_local", .vector 64, none)] ∧
      List.Forall₂ scatteredFunction.DeclaresAs ["a", "b", "clk"] (hardwareEntity {} scatteredFunction).signals ∧
      ∃ decl ∈ scatteredFunction.locals, ∃ inner,
        EmittedIn (.declare decl) inner scatteredFunction.body (Signals.ofFunction scatteredFunction) ∧
        ∃ declaration ∈ (hardwareEntity {} scatteredFunction).signals, declaration.name = "clk_local" ∧
          ((hardwareStatement {} .int (.declare decl)).run inner).1.length = 1 ∧
          (∀ s ∈ ((hardwareStatement {} .int (.declare decl)).run inner).1, s.AssignsTo "clk_local") ∧
          ((hardwareEntity {} scatteredFunction).lines.filter (·.declares "signal")).map (·.text) =
            ["signal a_local : std_logic_vector(7 downto 0);", "signal b : b_type;",
              "signal clk_local : std_logic_vector(63 downto 0);"] ∧
          ∃ level, ∃ line ∈ (hardwareEntity {} scatteredFunction).lines, line.AssignsTo "clk_local" ∧
            [line] = Vhdl.Stmt.linesOf level ((hardwareStatement {} .int (.declare decl)).run inner).1 := by
  have hnames : (scatteredFunction.locals.map (·.name)).eraseDups = ["a", "b", "clk"] := by decide +kernel
  obtain ⟨hforall, -, hmet, hwrites, -, hlines⟩ := local_signals_declared_once {} scatteredFunction
  rw [hnames] at hforall
  have hdecl : ⟨"clk", .double, none, some (.value (.number "1" .start)), .start⟩ ∈ scatteredFunction.locals := by
    simp [scatteredFunction, Function.locals, Statement.locals, Alternative.locals]
  obtain ⟨inner, hsame, hinner⟩ := (hmet _).1 hdecl
  obtain ⟨declaration, hmem, hdeclares, -, -, hassigns⟩ := hwrites _ hdecl inner hsame
  have hname : declaration.name = "clk_local" := hdeclares.1.trans (by decide +kernel)
  rw [hname] at hassigns
  obtain ⟨level, hinfix, hline⟩ := hlines _ inner hinner
  exact ⟨hnames, by decide +kernel, hforall, _, hdecl, inner, hinner, declaration, hmem, hname, rfl, hassigns,
    by decide +kernel, level, _, hinfix.subset List.mem_cons_self, hline _ List.mem_cons_self, rfl⟩

end ClockedC
