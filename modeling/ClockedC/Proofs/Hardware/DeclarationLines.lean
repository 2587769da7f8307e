import ClockedC.Proofs.Structs.Uses

/-!
# Lines that declare

The lines of an entity with which signals, array types and constants are declared. They stand in the architecture, one
level deep, and begin with a word that no other line of this level begins with. So they can be told in the text, and all
of them are lines of the signals of the entity.
-/

namespace ClockedC.Vhdl

/-- The line declares something inside an architecture, with the given word. -/
def Line.declares (word : String) (line : Line) : Bool :=
  line.level = 1 && (word ++ " ").toList.isPrefixOf line.text.toList

/-- The words that declare. -/
def declaringWords : List String := ["signal", "type", "constant"]

/-- Only lines one level deep declare. -/
theorem Line.filter_declares_of_level_ne {lines : List Line} (h : ∀ line ∈ lines, line.level ≠ 1) (word : String) :
    lines.filter (·.declares word) = [] := by
  rw [List.filter_eq_nil_iff]
  intro line hline
  simp [declares, h line hline]

/-! ## Signals -/

namespace Declaration

/-- The line with which the signal itself is declared. -/
def signalLine : Declaration → Line
  | signal name type => ⟨1, "signal " ++ name ++ " : " ++ type.text ++ ";"⟩
  | array name _ _ none => ⟨1, "signal " ++ name ++ " : " ++ arrayTypeName name ++ ";"⟩
  | array name _ _ (some _) =>
    ⟨1, "signal " ++ name ++ " : " ++ arrayTypeName name ++ " := " ++ contentsName name ++ ";"⟩

/-- The line with which the type of an array is declared, from its first to its last index. -/
def typeLine? : Declaration → Option Line
  | signal _ _ => none
  | array name length element _ =>
    some ⟨1, "type " ++ arrayTypeName name ++ " is array (0 to " ++ toString (length - 1) ++ ") of " ++ element.text ++
      ";"⟩

/-- The line with which the first contents of an array are declared. -/
def contentsLine? : Declaration → Option Line
  | signal _ _ => none
  | array name _ _ contents => contents.map fun es =>
    ⟨1, "constant " ++ contentsName name ++ " : " ++ arrayTypeName name ++ " := " ++ aggregate es ++ ";"⟩

/-- The signal is declared in one line. -/
theorem filter_declares_signal (decl : Declaration) : decl.lines.filter (·.declares "signal") = [decl.signalLine] := by
  cases decl with
  | signal name type => simp [lines, signalLine, Line.declares]
  | array name length element contents =>
    cases contents <;> simp [lines, signalLine, Line.declares]

/-- An array is declared with a type. -/
theorem filter_declares_type (decl : Declaration) :
    decl.lines.filter (·.declares "type") = decl.typeLine?.toList := by
  cases decl with
  | signal name type => simp [lines, typeLine?, Line.declares]
  | array name length element contents => cases contents <;> simp [lines, typeLine?, Line.declares]

/-- An array with first contents is declared with a constant. -/
theorem filter_declares_constant (decl : Declaration) :
    decl.lines.filter (·.declares "constant") = decl.contentsLine?.toList := by
  cases decl with
  | signal name type => simp [lines, contentsLine?, Line.declares]
  | array name length element contents => cases contents <;> simp [lines, contentsLine?, Line.declares]

end Declaration

/-! ## Entities -/

namespace Entity

/-- Ports stand two levels deep. -/
theorem filter_declares_portLines (entity : Entity) {word : String} (h : word ∈ declaringWords) :
    entity.portLines.filter (·.declares word) = [] := by
  have hinputs : (entity.inputs.map fun input => Line.mk 2 (input.1 ++ " : in " ++ input.2.text ++ ";")).filter
      (·.declares word) = [] := by
    refine Line.filter_declares_of_level_ne ?_ word
    rw [List.forall_mem_map]
    exact fun _ _ => Nat.succ_ne_self 1
  rw [portLines, List.filter_append, List.filter_append]
  simp only [declaringWords, List.mem_cons, List.not_mem_nil, or_false] at h
  refine List.append_eq_nil_iff.2 ⟨List.append_eq_nil_iff.2 ⟨?_, hinputs⟩, ?_⟩
  · rcases h with rfl | rfl | rfl <;> simp [Line.declares]
  · rcases h with rfl | rfl | rfl <;> simp [Line.declares, Line.empty]

/-- The statements of the process stand too deep. -/
theorem filter_declares_body (entity : Entity) (word : String) :
    (Stmt.linesOf 3 entity.body).filter (·.declares word) = [] := by
  refine Line.filter_declares_of_level_ne (fun line hline => ?_) word
  have hlevel := (Stmt.isSequential_of_mem_linesOf 3 entity.body line hline).level_le
  omega

/-- The lines that declare are those of the signals. -/
theorem filter_declares (entity : Entity) {word : String} (h : word ∈ declaringWords) :
    entity.lines.filter (·.declares word) = entity.signals.flatMap fun decl => decl.lines.filter (·.declares word) := by
  have hbody := entity.filter_declares_body word
  rw [lines, List.filter_append, filter_declares_portLines entity h, List.nil_append, architectureLines]
  simp only [List.filter_append, List.filter_flatMap, hbody]
  -- no other line one level deep begins with one of the words
  simp only [declaringWords, List.mem_cons, List.not_mem_nil, or_false] at h
  rcases h with rfl | rfl | rfl <;> simp [Line.declares, Line.empty]

/-- Every signal is declared in one line. -/
theorem filter_declares_signal (entity : Entity) :
    entity.lines.filter (·.declares "signal") = entity.signals.map Declaration.signalLine := by
  rw [entity.filter_declares (by decide), List.map_eq_flatMap]
  simp only [Declaration.filter_declares_signal]

/-- A line that declares something is a line of a signal. -/
theorem exists_mem_of_declares {entity : Entity} {line : Line} {word : String} (hword : word ∈ declaringWords)
    (hline : line ∈ entity.lines) (h : line.declares word) :
    ∃ decl ∈ entity.signals, line ∈ decl.lines.filter (·.declares word) := by
  have hmem : line ∈ entity.lines.filter (·.declares word) := List.mem_filter.2 ⟨hline, h⟩
  rw [entity.filter_declares hword] at hmem
  exact List.mem_flatMap.1 hmem

/-- The lines of the signals of an entity are lines of the entity. -/
theorem mem_lines_of_mem_signals {entity : Entity} {decl : Declaration} {line : Line} (hdecl : decl ∈ entity.signals)
    (hline : line ∈ decl.lines) : line ∈ entity.lines := by
  have hmem : line ∈ entity.signals.flatMap Declaration.lines := List.mem_flatMap.2 ⟨decl, hdecl, hline⟩
  rw [lines, architectureLines]
  simp only [List.mem_append]
  exact .inr (.inl (.inl (.inl (.inr hmem))))

/-- The lines of the process stand together among the lines of the entity. -/
theorem linesOf_body_isInfix (entity : Entity) : Stmt.linesOf 3 entity.body <:+: entity.lines :=
  (List.infix_append _ _ _).trans (List.suffix_append ..).isInfix

end Entity

/-! ## Assignments -/

/-- The lines of statements are the lines of each of them in turn. -/
theorem Stmt.linesOf_eq_flatMap (level : Nat) (ss : List Stmt) :
    Stmt.linesOf level ss = ss.flatMap (·.lines level) := by
  induction ss with
  | nil => rfl
  | cons s ss ih => rw [linesOf_cons, ih, List.flatMap_cons]

/-- The line assigns to a signal or to one of its fields. -/
def Line.AssignsTo (signal : String) (line : Line) : Prop :=
  ∃ value, line.text = signal ++ " <= " ++ value ++ ";" ∨
    ∃ field, line.text = signal ++ "." ++ field ++ " <= " ++ value ++ ";"

end ClockedC.Vhdl
