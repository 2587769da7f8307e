import Mathlib.Data.List.Basic
import ClockedC.Ast.Outline

/-!
# Drawings of trees

The drawing of a tree tells the tree, as long as no label has a line break: the margin in front of a line says how deep
its node hangs, and the rule behind the margin whether it is the last one.
-/

namespace ClockedC.Outline

/-! ## Labels on one line -/

mutual

/-- No label in the tree has a line break. -/
def OneLine : Outline → Prop
  | node label children => '\n' ∉ label.toList ∧ AllOneLine children

/-- No label in the trees has a line break. -/
def AllOneLine : List Outline → Prop
  | [] => True
  | t :: ts => t.OneLine ∧ AllOneLine ts

end

/-! ## Lines -/

/-- The rule in front of the label of a node. -/
def rule (last : Bool) : Char := if last then '└' else '├'

/-- What the margin of a node is followed by in front of its children. -/
def indent (last : Bool) : String := if last then "    " else "│   "

@[simp] theorem toList_drawChildren_nil (margin : String) : (drawChildren margin []).toList = [] := by
  simp [drawChildren]

/-- The lines of a node, and behind them those of the nodes beside it. -/
theorem toList_drawChildren_cons (margin label : String) (children rest : List Outline) :
    (drawChildren margin (node label children :: rest)).toList =
      margin.toList ++ rule rest.isEmpty :: ("── ".toList ++ (label.toList ++ '\n' ::
        ((drawChildren (margin ++ indent rest.isEmpty) children).toList ++ (drawChildren margin rest).toList))) := by
  cases rest with
  | nil => simp [drawChildren, rule, indent]
  | cons t ts => simp [drawChildren, rule, indent]

/-- The text does not go on with a line at the margin or behind it. -/
def LeavesMargin (margin text : List Char) : Prop := ∀ c ∈ ['├', '└', '│', ' '], ¬ margin ++ [c] <+: text

theorem LeavesMargin.nil (margin : List Char) : LeavesMargin margin [] := by simp [LeavesMargin]

theorem rule_mem (last : Bool) : rule last ∈ ['├', '└', '│', ' '] := by cases last <;> decide

/-- Behind the children of a node their margin is left. -/
theorem LeavesMargin.drawChildren_append {margin : String} {text : List Char} (h : LeavesMargin margin.toList text)
    (rest : List Outline) :
    LeavesMargin (margin ++ indent rest.isEmpty).toList ((drawChildren margin rest).toList ++ text) := by
  intro c hc hprefix
  cases rest with
  | nil =>
    rw [toList_drawChildren_nil, List.nil_append] at hprefix
    refine h ' ' (by simp) (List.IsPrefix.trans ?_ hprefix)
    simp [indent]
  | cons t ts =>
    -- behind the margin a node has another rule than the margin of the children of a node
    obtain ⟨label, children⟩ := t
    rw [toList_drawChildren_cons] at hprefix
    simp [indent, rule] at hprefix

/-! ## Drawings read back -/

/-- The node whose line a text begins with behind a margin: whether it is the last one, and its label with what
follows. -/
def nodeAt? (margin text : List Char) : Option (Bool × List Char) :=
  ([false, true].find? fun last => margin ++ [rule last] <+: text).map fun last => (last, text.drop (margin.length + 4))

/-- The trees that hang side by side behind a margin, and what follows them. No node is deeper than `depth`. -/
def readChildren : Nat → String → List Char → List Outline × List Char
  | 0, _, text => ([], text)
  | depth + 1, margin, text =>
    match nodeAt? margin.toList text with
    | none => ([], text)
    | some (last, line) =>
      let label := String.ofList (line.takeWhile (· ≠ '\n'))
      let (children, below) := readChildren depth (margin ++ indent last) (line.dropWhile (· ≠ '\n')).tail
      let (rest, below) := readChildren depth margin below
      (node label children :: rest, below)

/-- The tree that a text is the drawing of. -/
def ofDrawing (text : String) : Outline :=
  .node (String.ofList (text.toList.takeWhile (· ≠ '\n')))
    (readChildren text.length "" (text.toList.dropWhile (· ≠ '\n')).tail).1

/-- No node hangs at a margin where the text does not go on. -/
theorem nodeAt?_eq_none {margin text : List Char} (h : LeavesMargin margin text) : nodeAt? margin text = none := by
  have hnone : ∀ last, ¬ margin ++ [rule last] <+: text := fun last => h _ (rule_mem last)
  simp [nodeAt?, hnone]

theorem nodeAt?_append (margin : List Char) (last : Bool) (line : List Char) :
    nodeAt? margin (margin ++ rule last :: ("── ".toList ++ line)) = some (last, line) := by
  cases last <;> simp [nodeAt?, rule]

/-- A label ends where its line ends. -/
theorem takeWhile_label {label : String} (h : '\n' ∉ label.toList) (below : List Char) :
    String.ofList ((label.toList ++ '\n' :: below).takeWhile (· ≠ '\n')) = label ∧
      ((label.toList ++ '\n' :: below).dropWhile (· ≠ '\n')).tail = below := by
  have hall : ∀ c ∈ label.toList, decide (c ≠ '\n') = true := fun c hc => decide_eq_true fun heq => h (heq ▸ hc)
  rw [List.takeWhile_append_of_pos hall, List.dropWhile_append_of_pos hall]
  simp

/-- Where the margin is left behind them, trees beside each other are read back from their lines. -/
theorem readChildren_drawChildren : ∀ (ts : List Outline) {depth : Nat} {margin : String} {text : List Char},
    AllOneLine ts → LeavesMargin margin.toList text → ((drawChildren margin ts).toList ++ text).length ≤ depth →
      readChildren depth margin ((drawChildren margin ts).toList ++ text) = (ts, text)
  | [], depth, margin, text, _, htext, _ => by
    rw [toList_drawChildren_nil, List.nil_append]
    cases depth with
    | zero => rfl
    | succ depth => rw [readChildren, nodeAt?_eq_none htext]
  | node label children :: rest, depth, margin, text, hts, htext, hdepth => by
    rw [toList_drawChildren_cons] at hdepth ⊢
    simp only [List.append_assoc, List.cons_append, List.length_append, List.length_cons] at hdepth ⊢
    obtain ⟨depth, rfl⟩ : ∃ n, depth = n + 1 := ⟨depth - 1, by omega⟩
    obtain ⟨hlabel, hbelow⟩ := takeWhile_label hts.1.1
      ((drawChildren (margin ++ indent rest.isEmpty) children).toList ++ ((drawChildren margin rest).toList ++ text))
    rw [readChildren, nodeAt?_append]
    simp only [hlabel, hbelow]
    -- what follows on the children leaves their margin: nodes beside theirs, or what leaves the margin itself
    rw [readChildren_drawChildren children hts.1.2 (htext.drawChildren_append rest) (by simp; omega)]
    simp only
    rw [readChildren_drawChildren rest hts.2 htext (by simp; omega)]

/-- A tree is read back from its drawing. -/
theorem ofDrawing_draw {t : Outline} (h : t.OneLine) : ofDrawing t.draw = t := by
  obtain ⟨label, children⟩ := t
  have hlines : (draw (node label children)).toList = label.toList ++ '\n' :: (drawChildren "" children).toList := by
    simp [draw]
  obtain ⟨hlabel, hbelow⟩ := takeWhile_label h.1 (drawChildren "" children).toList
  have hdepth : ((drawChildren "" children).toList ++ []).length ≤ (draw (node label children)).length := by
    rw [← String.length_toList, hlines]
    simp only [List.append_nil, List.length_append, List.length_cons]
    omega
  have hchildren := readChildren_drawChildren children h.2 (LeavesMargin.nil _) hdepth
  rw [List.append_nil] at hchildren
  rw [ofDrawing, hlines, hlabel, hbelow, hchildren]

end ClockedC.Outline
