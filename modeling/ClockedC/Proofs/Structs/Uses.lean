import Mathlib
import ClockedC.Vhdl.Design

/-!
# Record types in the text of a design

The lines of a design that declare record types, and those that give something a record type. If every record is
declared before the entities and behind the records it contains, then the text of the design has the whole declaration
of a record type before every line that uses it.
-/

namespace ClockedC.Vhdl

variable {line : Line} {struct text : String}

/-! ## Lines about types -/

/-- The declaration of a record type begins with the line. -/
def Line.IsRecordHead (line : Line) : Prop :=
  "type ".toList <+: line.text.toList ∧ " is record".toList <:+ line.text.toList

instance : DecidablePred Line.IsRecordHead := fun _ => inferInstanceAs (Decidable (_ ∧ _))

/-- The line gives something a type: a field, a port, a signal or the elements of an array. -/
inductive Line.Gives (type : SignalType) : Line → Prop where
  | field (name : String) : Gives type ⟨1, name ++ " : " ++ type.text ++ ";"⟩
  | input (name : String) : Gives type ⟨2, name ++ " : in " ++ type.text ++ ";"⟩
  | output (name : String) : Gives type ⟨2, name ++ " : out " ++ type.text⟩
  | signal (name : String) : Gives type ⟨1, "signal " ++ name ++ " : " ++ type.text ++ ";"⟩
  | elements (name last : String) :
    Gives type ⟨1, "type " ++ name ++ " is array (0 to " ++ last ++ ") of " ++ type.text ++ ";"⟩

/-- Something is given a type on the first two levels only. -/
theorem Line.Gives.level {type : SignalType} (h : line.Gives type) : line.level = 1 ∨ line.level = 2 := by
  cases h <;> simp

/-- Behind a blank, the line ends with the type and perhaps a semicolon. -/
theorem Line.Gives.exists_text_eq {type : SignalType} (h : line.Gives type) :
    ∃ before tail, (tail = [] ∨ tail = [';']) ∧ line.text.toList = before ++ ' ' :: type.text.toList ++ tail := by
  cases h with
  | field name => exact ⟨name.toList ++ " :".toList, [';'], .inr rfl, by simp⟩
  | input name => exact ⟨name.toList ++ " : in".toList, [';'], .inr rfl, by simp⟩
  | output name => exact ⟨name.toList ++ " : out".toList, [], .inl rfl, by simp⟩
  | signal name => exact ⟨"signal ".toList ++ name.toList ++ " :".toList, [';'], .inr rfl, by simp⟩
  | elements name last =>
    exact ⟨"type ".toList ++ name.toList ++ " is array (0 to ".toList ++ last.toList ++ ") of".toList, [';'], .inr rfl,
      by simp⟩

/-! ## The last word of a line -/

/-- The last word of a text, read backwards and without a semicolon. -/
def lastWord (text : List Char) : List Char := (text.reverse.dropWhile (· = ';')).takeWhile (· ≠ ' ')

/-- A semicolon is not part of the last word. -/
theorem lastWord_semicolon (text : List Char) : lastWord (text ++ [';']) = lastWord text := by
  simp [lastWord]

/-- The name of a record type has no blanks. -/
def SignalType.IsWord : SignalType → Prop
  | vector _ => True
  | record struct => ' ' ∉ struct.toList

/-- The last word of a type, read backwards. -/
def SignalType.mark : SignalType → List Char
  | vector _ => [')', '0']
  | record struct => 't' :: '_' :: struct.toList.reverse

/-- The type of a vector ends with its bounds. -/
theorem lastWord_vector (width : Nat) (before : List Char) :
    lastWord (before ++ ' ' :: (SignalType.vector width).text.toList) = [')', '0'] := by
  obtain ⟨front, hfront⟩ : ∃ front, (SignalType.vector width).text.toList = front ++ [' ', '0', ')'] := by
    have hend : " downto 0)".toList = " downto".toList ++ [' ', '0', ')'] := by decide
    refine ⟨("std_logic_vector(" ++ toString (width - 1)).toList ++ " downto".toList, ?_⟩
    show ("std_logic_vector(" ++ toString (width - 1) ++ " downto 0)").toList = _
    rw [String.toList_append, hend, List.append_assoc]
  have hback : (before ++ ' ' :: (front ++ [' ', '0', ')'])).reverse =
      ')' :: '0' :: ' ' :: (front.reverse ++ ' ' :: before.reverse) := by
    simp
  rw [lastWord, hfront, hback]
  rfl

/-- The type of a record ends with its name. -/
theorem lastWord_record (h : ' ' ∉ struct.toList) (before : List Char) :
    lastWord (before ++ ' ' :: (recordName struct).toList) = 't' :: '_' :: struct.toList.reverse := by
  have hword : ∀ c ∈ struct.toList.reverse, decide (c ≠ ' ') = true := by
    intro c hc
    have hne : c ≠ ' ' := fun hblank => h (by simpa [hblank] using hc)
    simpa using hne
  have hback : (before ++ ' ' :: (recordName struct).toList).reverse =
      't' :: '_' :: (struct.toList.reverse ++ ' ' :: before.reverse) := by
    simp [recordName]
  rw [lastWord, hback, List.dropWhile_cons_of_neg (by decide), List.takeWhile_cons_of_pos (by decide),
    List.takeWhile_cons_of_pos (by decide), List.takeWhile_append_of_pos hword]
  simp

theorem lastWord_type {type : SignalType} (h : type.IsWord) (before : List Char) :
    lastWord (before ++ ' ' :: type.text.toList) = type.mark := by
  cases type with
  | vector width => exact lastWord_vector width before
  | record struct => exact lastWord_record h before

/-- A line ends with the type that it gives. -/
theorem Line.Gives.lastWord_eq {type : SignalType} (h : line.Gives type) (htype : type.IsWord) :
    lastWord line.text.toList = type.mark := by
  obtain ⟨before, tail, rfl | rfl, htext⟩ := h.exists_text_eq
  · rw [htext, List.append_nil, lastWord_type htype]
  · rw [htext, lastWord_semicolon, lastWord_type htype]

/-- A type that ends like a record type is that record type. -/
theorem SignalType.mark_eq_mark_record {type : SignalType} (h : type.mark = (record struct).mark) :
    type = record struct := by
  cases type with
  | vector width => simp [mark] at h
  | record struct' =>
    simp only [mark, List.cons.injEq, List.reverse_inj, true_and] at h
    rw [String.toList_inj.1 h]

/-- A line gives one record type at most. -/
theorem Line.Gives.eq_record {type : SignalType} (h : line.Gives type) (htype : type.IsWord)
    (hrecord : line.Gives (.record struct)) (hstruct : (SignalType.record struct).IsWord) : type = .record struct :=
  SignalType.mark_eq_mark_record ((h.lastWord_eq htype).symm.trans (hrecord.lastWord_eq hstruct))

/-- The text ends like a line that gives a record type. -/
def EndsLikeRecord (text : List Char) : Prop := ['t', '_'] <+: text.reverse ∨ [';', 't', '_'] <+: text.reverse

instance : DecidablePred EndsLikeRecord := fun _ => inferInstanceAs (Decidable (_ ∨ _))

theorem toList_text_record (struct : String) :
    (SignalType.record struct).text.toList = struct.toList ++ ['_', 't'] := by
  show (struct ++ "_t").toList = _
  simp

/-- A line that gives a record type ends like one. -/
theorem Line.Gives.endsLikeRecord (h : line.Gives (.record struct)) : EndsLikeRecord line.text.toList := by
  obtain ⟨before, tail, rfl | rfl, htext⟩ := h.exists_text_eq
  · rw [htext, toList_text_record]
    exact .inl (by simp)
  · rw [htext, toList_text_record]
    exact .inr (by simp)

/-! ## Lines that declare no record type -/

/-- The text does not begin like the declaration of a type. -/
def StartsOtherwise (text : String) : Prop := text.toList.head?.any (· ≠ 't')

/-- The text does not end like the first line of a record type. -/
def EndsOtherwise (text : String) : Prop := text.toList.getLast?.any (· ≠ 'd')

instance : DecidablePred StartsOtherwise := fun _ => inferInstanceAs (Decidable (_ = true))

instance : DecidablePred EndsOtherwise := fun _ => inferInstanceAs (Decidable (_ = true))

/-- What begins otherwise does so whatever follows. -/
theorem StartsOtherwise.append (h : StartsOtherwise text) (rest : String) : StartsOtherwise (text ++ rest) := by
  unfold StartsOtherwise at h ⊢
  rw [String.toList_append, List.head?_append]
  cases hhead : text.toList.head? with
  | none => simp [hhead] at h
  | some c => simpa [hhead] using h

/-- What ends otherwise does so whatever comes before. -/
theorem EndsOtherwise.append {ending : String} (h : EndsOtherwise ending) (text : String) :
    EndsOtherwise (text ++ ending) := by
  unfold EndsOtherwise at h ⊢
  rw [String.toList_append, List.getLast?_append]
  cases hlast : ending.toList.getLast? with
  | none => simp [hlast] at h
  | some c => simpa [hlast] using h

theorem StartsOtherwise.not_isRecordHead (h : StartsOtherwise text) (level : Nat) :
    ¬ (Line.mk level text).IsRecordHead := by
  rintro ⟨⟨rest, hrest⟩, -⟩
  rw [StartsOtherwise, ← hrest] at h
  simp at h

/-- A line that ends otherwise is not the head of a record. -/
theorem EndsOtherwise.not_isRecordHead (h : EndsOtherwise text) (level : Nat) :
    ¬ (Line.mk level text).IsRecordHead := by
  rintro ⟨-, ⟨rest, hrest⟩⟩
  rw [EndsOtherwise, ← hrest] at h
  simp at h

/-- The line stands at a level or deeper, and declares no record type. -/
structure Line.IsSequential (level : Nat) (line : Line) : Prop where
  level_le : level ≤ line.level
  not_isRecordHead : ¬ line.IsRecordHead

theorem Line.IsSequential.of_succ {level : Nat} (h : line.IsSequential (level + 1)) :
    line.IsSequential level := ⟨Nat.le_of_succ_le h.level_le, h.not_isRecordHead⟩

/-- A line that ends otherwise may stand in a process. -/
theorem EndsOtherwise.isSequential (h : EndsOtherwise text) (level : Nat) :
    (Line.mk level text).IsSequential level := ⟨le_rfl, h.not_isRecordHead level⟩

theorem Line.not_isRecordHead_semicolon (level : Nat) (text : String) : ¬ (Line.mk level (text ++ ";")).IsRecordHead :=
  EndsOtherwise.not_isRecordHead (.append (by decide) text) level

mutual

/-- The lines of a statement stand in the process, at its level or deeper. -/
theorem Stmt.isSequential_of_mem_lines (level : Nat) (s : Stmt) : ∀ line ∈ s.lines level, line.IsSequential level := by
  cases s with
  | assign target value =>
    rw [Stmt.lines, List.forall_mem_singleton]
    exact ⟨le_rfl, Line.not_isRecordHead_semicolon _ _⟩
  | ifThen condition body arms =>
    rw [Stmt.lines, List.forall_mem_cons, List.forall_mem_append, List.forall_mem_append, List.forall_mem_singleton]
    refine ⟨(EndsOtherwise.append (by decide) _).isSequential level, ⟨?_, ?_⟩, ?_⟩
    · exact fun line hline => (Stmt.isSequential_of_mem_linesOf (level + 1) body line hline).of_succ
    · exact Arms.isSequential_of_mem_lines level arms
    · exact EndsOtherwise.isSequential (by decide) level
  | loop condition body =>
    rw [Stmt.lines, List.forall_mem_cons, List.forall_mem_append, List.forall_mem_singleton]
    refine ⟨(EndsOtherwise.append (by decide) _).isSequential level, ?_, ?_⟩
    · exact fun line hline => (Stmt.isSequential_of_mem_linesOf (level + 1) body line hline).of_succ
    · exact EndsOtherwise.isSequential (by decide) level
  | exit =>
    rw [Stmt.lines, List.forall_mem_singleton]
    exact EndsOtherwise.isSequential (by decide) level
  | next =>
    rw [Stmt.lines, List.forall_mem_singleton]
    exact EndsOtherwise.isSequential (by decide) level
  | unsynthesized value =>
    rw [Stmt.lines, List.forall_mem_singleton]
    exact ⟨le_rfl, StartsOtherwise.not_isRecordHead (.append (by decide) _) _⟩

theorem Arms.isSequential_of_mem_lines (level : Nat) (arms : Arms) :
    ∀ line ∈ arms.lines level, line.IsSequential level := by
  cases arms with
  | done => simp [Arms.lines]
  | elsif condition body arms =>
    rw [Arms.lines, List.forall_mem_cons, List.forall_mem_append]
    refine ⟨(EndsOtherwise.append (by decide) _).isSequential level, ?_, ?_⟩
    · exact fun line hline => (Stmt.isSequential_of_mem_linesOf (level + 1) body line hline).of_succ
    · exact Arms.isSequential_of_mem_lines level arms
  | otherwise body =>
    rw [Arms.lines, List.forall_mem_cons]
    refine ⟨EndsOtherwise.isSequential (by decide) level, ?_⟩
    exact fun line hline => (Stmt.isSequential_of_mem_linesOf (level + 1) body line hline).of_succ

/-- The lines of statements stand at their level or deeper, and declare no record types. -/
theorem Stmt.isSequential_of_mem_linesOf (level : Nat) (ss : List Stmt) :
    ∀ line ∈ Stmt.linesOf level ss, line.IsSequential level := by
  cases ss with
  | nil => simp
  | cons s ss =>
    rw [Stmt.linesOf_cons, List.forall_mem_append]
    exact ⟨Stmt.isSequential_of_mem_lines level s, Stmt.isSequential_of_mem_linesOf level ss⟩

end

/-! ## Records -/

/-- The line with which the declaration of a record begins. -/
def Record.head (record : Record) : Line := ⟨0, "type " ++ recordName record.struct ++ " is record"⟩

/-- The head of a record is recognized as such. -/
theorem Record.isRecordHead_head (record : Record) : record.head.IsRecordHead := by
  constructor
  · exact ⟨(recordName record.struct ++ " is record").toList, by simp [head]⟩
  · exact ⟨("type " ++ recordName record.struct).toList, by simp [head]⟩

/-- A record has one line with which a declaration begins. -/
theorem Record.filter_isRecordHead (record : Record) : record.lines.filter (·.IsRecordHead) = [record.head] := by
  have hcomment : ¬ (Line.mk 0 ("-- Struct " ++ record.struct ++ " as VHDL record")).IsRecordHead :=
    StartsOtherwise.not_isRecordHead (.append (.append (by decide) _) _) _
  have hhead : [Line.mk 0 ("-- Struct " ++ record.struct ++ " as VHDL record"), record.head].filter
      (·.IsRecordHead) = [record.head] := by
    simp [hcomment, record.isRecordHead_head]
  have hend : [Line.mk 0 "end record;", .empty].filter (·.IsRecordHead) = [] := by decide
  unfold lines
  rw [List.filter_append, List.filter_append, hend, List.append_nil, ← head, hhead, List.append_right_eq_self,
    List.filter_eq_nil_iff, List.forall_mem_map]
  -- the lines of fields end with a semicolon
  rintro ⟨name, type⟩ -
  rw [decide_eq_true_eq]
  exact Line.not_isRecordHead_semicolon _ _

/-- A line of a record that gives a record type gives it to a field. -/
theorem Record.exists_field_of_gives {record : Record} (hwords : ∀ field ∈ record.fields, field.2.IsWord)
    (hstruct : (SignalType.record struct).IsWord) (hline : line ∈ record.lines) (h : line.Gives (.record struct)) :
    ∃ field ∈ record.fields, field.2 = .record struct := by
  have hlevel := h.level
  rw [lines, List.mem_append, List.mem_append] at hline
  rcases hline with (hline | hline) | hline
  · simp only [List.mem_cons, List.not_mem_nil, or_false] at hline
    rcases hline with rfl | rfl <;> simp at hlevel
  · obtain ⟨⟨name, type⟩, hfield, rfl⟩ := List.mem_map.1 hline
    exact ⟨_, hfield, (Line.Gives.field name).eq_record (hwords _ hfield) h hstruct⟩
  · simp only [List.mem_cons, List.not_mem_nil, or_false] at hline
    rcases hline with rfl | rfl <;> simp [Line.empty] at hlevel

/-! ## Declarations of signals -/

/-- The type of a signal, or of the elements of an array. -/
def Declaration.type : Declaration → SignalType
  | signal _ type => type
  | array _ _ element _ => element

/-- No line of a signal is the head of a record. -/
theorem Declaration.not_isRecordHead_of_mem {decl : Declaration} : ∀ line ∈ decl.lines, ¬ line.IsRecordHead := by
  cases decl with
  | signal name type =>
    rw [lines, List.forall_mem_singleton]
    exact Line.not_isRecordHead_semicolon _ _
  | array name length element contents =>
    unfold lines
    rw [List.forall_mem_cons]
    refine ⟨Line.not_isRecordHead_semicolon _ _, ?_⟩
    cases contents with
    | none =>
      rw [List.forall_mem_singleton]
      exact Line.not_isRecordHead_semicolon _ _
    | some es =>
      rw [List.forall_mem_cons, List.forall_mem_cons, List.forall_mem_singleton]
      exact ⟨EndsOtherwise.not_isRecordHead (by decide) _, Line.not_isRecordHead_semicolon _ _,
        Line.not_isRecordHead_semicolon _ _⟩

theorem Declaration.exists_aggregate_eq (es : List Expr) : ∃ text, aggregate es = text ++ ")" := by
  unfold aggregate
  split
  · exact ⟨_, rfl⟩
  · exact ⟨_, rfl⟩

/-- The lines that declare a signal give its type, and no other record type. -/
theorem Declaration.type_eq_of_gives {decl : Declaration} (hword : decl.type.IsWord)
    (hstruct : (SignalType.record struct).IsWord) (hline : line ∈ decl.lines) (h : line.Gives (.record struct)) :
    decl.type = .record struct := by
  cases decl with
  | signal name type =>
    rw [lines, List.mem_singleton] at hline
    subst hline
    exact (Line.Gives.signal name).eq_record hword h hstruct
  | array name length element contents =>
    unfold lines at hline
    rcases List.mem_cons.1 hline with rfl | hline
    · exact (Line.Gives.elements _ _).eq_record hword h hstruct
    · -- the other lines end with the name of the array's own type, a constant or a parenthesis
      have hends := h.endsLikeRecord
      cases contents with
      | none =>
        rw [List.mem_singleton] at hline
        subst hline
        simp [EndsLikeRecord, arrayTypeName] at hends
      | some es =>
        simp only [List.mem_cons, List.not_mem_nil, or_false] at hline
        obtain ⟨text, htext⟩ := exists_aggregate_eq es
        rcases hline with rfl | rfl | rfl
        · exact absurd hends (by decide)
        · simp [EndsLikeRecord, htext] at hends
        · simp [EndsLikeRecord, contentsName] at hends

/-! ## Entities -/

namespace Entity

/-- The types of the ports and signals of an entity. -/
def types (entity : Entity) : List SignalType :=
  entity.inputs.map (·.2) ++ entity.output :: entity.signals.map Declaration.type

/-- No line of the ports is the head of a record. -/
theorem not_isRecordHead_of_mem_portLines {entity : Entity} : ∀ line ∈ entity.portLines, ¬ line.IsRecordHead := by
  unfold portLines
  simp only [List.forall_mem_append, List.forall_mem_cons, List.forall_mem_map]
  refine ⟨⟨⟨?_, ?_, by decide, by decide, by decide, by simp⟩, ?_⟩, ?_, by decide, by decide, by decide, by simp⟩
  · exact StartsOtherwise.not_isRecordHead (.append (by decide) _) _
  · exact EndsOtherwise.not_isRecordHead (.append (by decide) _) _
  · rintro ⟨name, type⟩ -
    exact Line.not_isRecordHead_semicolon _ _
  · exact StartsOtherwise.not_isRecordHead (.append (.append (by decide) _) _) _

/-- No line of the architecture is the head of a record. -/
theorem not_isRecordHead_of_mem_architectureLines {entity : Entity} :
    ∀ line ∈ entity.architectureLines, ¬ line.IsRecordHead := by
  unfold architectureLines
  simp only [List.forall_mem_append]
  refine ⟨⟨⟨⟨?_, ?_⟩, by decide⟩, ?_⟩, by decide⟩
  · rw [List.forall_mem_singleton]
    exact EndsOtherwise.not_isRecordHead (.append (by decide) _) _
  · rw [List.forall_mem_flatMap]
    exact fun decl _ => Declaration.not_isRecordHead_of_mem
  · exact fun line hline => (Stmt.isSequential_of_mem_linesOf 3 entity.body line hline).not_isRecordHead

section Types

variable {entity : Entity} (hwords : ∀ type ∈ entity.types, type.IsWord) (hstruct : (SignalType.record struct).IsWord)

include hwords hstruct

/-- A line of the ports that gives a record type gives it to a port. -/
theorem mem_types_of_mem_portLines (hline : line ∈ entity.portLines) (h : line.Gives (.record struct)) :
    .record struct ∈ entity.types := by
  have hlevel := h.level
  have hends := h.endsLikeRecord
  unfold portLines at hline
  rcases List.mem_append.1 hline with hline | hline
  · rcases List.mem_append.1 hline with hline | hline
    · simp only [List.mem_cons, List.not_mem_nil, or_false] at hline
      rcases hline with rfl | rfl | rfl | rfl | rfl
      · simp at hlevel
      · simp at hlevel
      all_goals exact absurd hends (by decide)
    · obtain ⟨⟨name, type⟩, hinput, rfl⟩ := List.mem_map.1 hline
      have hmem : type ∈ entity.types := List.mem_append_left _ (List.mem_map_of_mem hinput)
      rwa [(Line.Gives.input name).eq_record (hwords type hmem) h hstruct] at hmem
  · rcases List.mem_cons.1 hline with rfl | hline
    · have hmem : entity.output ∈ entity.types := List.mem_append_right _ List.mem_cons_self
      rwa [(Line.Gives.output resultPort).eq_record (hwords _ hmem) h hstruct] at hmem
    · simp only [List.mem_cons, List.not_mem_nil, or_false] at hline
      rcases hline with rfl | rfl | rfl
      all_goals exact absurd hends (by decide)

/-- A line of the architecture that gives a record type gives it to a signal or to the elements of an array. -/
theorem mem_types_of_mem_architectureLines (hline : line ∈ entity.architectureLines)
    (h : line.Gives (.record struct)) : .record struct ∈ entity.types := by
  have hlevel := h.level
  have hends := h.endsLikeRecord
  unfold architectureLines at hline
  simp only [List.mem_append, List.mem_flatMap] at hline
  rcases hline with (((hline | ⟨decl, hdecl, hline⟩) | hline) | hline) | hline
  · rw [List.mem_singleton.1 hline] at hlevel
    simp at hlevel
  · have hmem : decl.type ∈ entity.types :=
      List.mem_append_right _ (List.mem_cons_of_mem _ (List.mem_map_of_mem hdecl))
    rwa [Declaration.type_eq_of_gives (hwords _ hmem) hstruct hline h] at hmem
  · simp only [List.mem_cons, List.not_mem_nil, or_false] at hline
    rcases hline with rfl | rfl | rfl | rfl | rfl | rfl
    all_goals exact absurd hends (by decide)
  · -- statements stand too deep
    have := (Stmt.isSequential_of_mem_linesOf 3 entity.body line hline).level_le
    omega
  · simp only [List.mem_cons, List.not_mem_nil, or_false] at hline
    rcases hline with rfl | rfl | rfl | rfl
    all_goals exact absurd hends (by decide)

theorem mem_types_of_gives (hline : line ∈ entity.lines) (h : line.Gives (.record struct)) :
    .record struct ∈ entity.types := by
  rcases List.mem_append.1 hline with hline | hline
  · exact mem_types_of_mem_portLines hwords hstruct hline h
  · exact mem_types_of_mem_architectureLines hwords hstruct hline h

end Types

end Entity

/-! ## Designs -/

/-- The text of a design declares the records of the design and no others. -/
theorem Design.filter_isRecordHead (design : Design) :
    design.lines.filter (·.IsRecordHead) = design.records.map Record.head := by
  have hpreamble : preamble.filter (·.IsRecordHead) = [] := by decide
  have hentities : (design.entities.flatMap Entity.lines).filter (·.IsRecordHead) = [] := by
    rw [List.filter_eq_nil_iff]
    intro line hline
    obtain ⟨entity, -, hline⟩ := List.mem_flatMap.1 hline
    rw [decide_eq_true_eq]
    rcases List.mem_append.1 hline with hline | hline
    · exact Entity.not_isRecordHead_of_mem_portLines line hline
    · exact Entity.not_isRecordHead_of_mem_architectureLines line hline
  rw [lines, List.filter_append, List.filter_append, hpreamble, hentities, List.nil_append, List.append_nil,
    List.filter_flatMap]
  simp only [Record.filter_isRecordHead]
  exact List.map_eq_flatMap.symm

/-- What stands in one of two lists stands in the first, or in the second behind the first. -/
theorem exists_of_append_eq {xs ys before after : List Line} (h : xs ++ ys = before ++ line :: after) :
    (∃ rest, xs = before ++ line :: rest ∧ after = rest ++ ys) ∨
      ∃ inner, before = xs ++ inner ∧ ys = inner ++ line :: after := by
  rcases List.append_eq_append_iff.1 h with ⟨inner, hbefore, hys⟩ | ⟨inner, hxs, hafter⟩
  · exact .inr ⟨inner, hbefore, hys⟩
  · cases inner with
    | nil => exact .inr ⟨[], by simpa using hxs.symm, hafter.symm⟩
    | cons line' rest =>
      rw [List.cons_append, List.cons.injEq] at hafter
      exact .inl ⟨rest, by rw [hxs, hafter.1], hafter.2⟩

/-- A line of several blocks stands in one of them, behind those before it. -/
theorem exists_of_flatMap_eq {α : Type} {f : α → List Line} {xs : List α} {before after : List Line}
    (h : xs.flatMap f = before ++ line :: after) :
    ∃ earlier x later inner, xs = earlier ++ x :: later ∧ before = earlier.flatMap f ++ inner ∧ line ∈ f x := by
  induction xs generalizing before with
  | nil => simp at h
  | cons x xs ih =>
    rw [List.flatMap_cons] at h
    rcases exists_of_append_eq h with ⟨rest, hx, -⟩ | ⟨inner, rfl, hrest⟩
    · exact ⟨[], x, xs, before, rfl, rfl, by simp [hx]⟩
    · obtain ⟨earlier, y, later, inner', rfl, rfl, hmem⟩ := ih hrest
      exact ⟨x :: earlier, y, later, inner', rfl, by simp, hmem⟩

/-- The type is no record type, or that of one of the records. -/
def SignalType.DeclaredBy (records : List Record) : SignalType → Prop
  | vector _ => True
  | record struct => ∃ record ∈ records, record.struct = struct

/-- The record types in a record are those of records before it, and the record types in an entity those of any record
of the design. -/
structure Design.IsOrdered (design : Design) : Prop where
  isWord : ∀ record ∈ design.records, ' ' ∉ record.struct.toList
  records : ∀ earlier record later, design.records = earlier ++ record :: later →
    ∀ field ∈ record.fields, field.2.DeclaredBy earlier
  entities : ∀ entity ∈ design.entities, ∀ type ∈ entity.types, type.DeclaredBy design.records

/-- A type that is declared is a word, if the names of the structs are. -/
theorem SignalType.DeclaredBy.isWord {records : List Record} {type : SignalType} (h : type.DeclaredBy records)
    (hwords : ∀ record ∈ records, ' ' ∉ record.struct.toList) : type.IsWord := by
  cases type with
  | vector width => trivial
  | record struct =>
    obtain ⟨record, hrecord, rfl⟩ := h
    exact hwords record hrecord

/-- The whole declaration of a record type stands before every line that gives it to something. -/
theorem Design.IsOrdered.exists_lines_before {design : Design} (h : design.IsOrdered) {before after : List Line}
    (hlines : design.lines = before ++ line :: after) (hstruct : ' ' ∉ struct.toList)
    (huse : line.Gives (.record struct)) :
    ∃ record ∈ design.records, record.struct = struct ∧ record.lines <:+: before := by
  have hblock : ∀ {record : Record} {records : List Record}, record ∈ records →
      record.lines <:+: records.flatMap Record.lines :=
    fun hmem => List.infix_of_mem_flatten (List.mem_map_of_mem hmem)
  rw [lines, List.append_assoc] at hlines
  rcases exists_of_append_eq hlines with ⟨rest, hpreamble, -⟩ | ⟨inner, rfl, hinner⟩
  · -- the first lines of every design give no type
    have hlevel : ∀ line ∈ preamble, line.level = 0 := by decide
    have hzero := hlevel line (by simp [hpreamble])
    have := huse.level
    omega
  · rcases exists_of_append_eq hinner with ⟨rest, hrecords, -⟩ | ⟨inner', rfl, hentities⟩
    · -- a record contains records before it
      obtain ⟨earlier, user, later, front, hsplit, rfl, hmem⟩ := exists_of_flatMap_eq hrecords
      have hdeclared := h.records earlier user later hsplit
      have hsubset : ∀ record ∈ earlier, record ∈ design.records := fun record hrecord => by simp [hsplit, hrecord]
      have hwords : ∀ field ∈ user.fields, field.2.IsWord := fun field hfield =>
        (hdeclared field hfield).isWord fun record hrecord => h.isWord record (hsubset record hrecord)
      obtain ⟨field, hfield, htype⟩ := Record.exists_field_of_gives hwords hstruct hmem huse
      have huser := hdeclared field hfield
      rw [htype] at huser
      obtain ⟨record, hrecord, hname⟩ := huser
      exact ⟨record, hsubset record hrecord, hname,
        (hblock hrecord).trans (List.infix_append' preamble (earlier.flatMap Record.lines) front)⟩
    · -- an entity uses any record, and all of them stand before it
      obtain ⟨earlier, user, later, front, hsplit, rfl, hmem⟩ := exists_of_flatMap_eq hentities
      have hdeclared := h.entities user (by simp [hsplit])
      have hwords : ∀ type ∈ user.types, type.IsWord := fun type htype => (hdeclared type htype).isWord h.isWord
      have htype := Entity.mem_types_of_gives hwords hstruct hmem huse
      obtain ⟨record, hrecord, hname⟩ := hdeclared _ htype
      exact ⟨record, hrecord, hname, (hblock hrecord).trans (List.infix_append' ..)⟩

end ClockedC.Vhdl
