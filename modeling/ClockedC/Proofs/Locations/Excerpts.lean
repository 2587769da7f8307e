import ClockedC.Diagnostic.Render
import ClockedC.Proofs.Scanning.Tiling

/-!
# Excerpts of a source text

What is reported about an offset of a text is rendered with the line that the offset stands in, and with a caret below
the character at the offset. Only behind a last newline, and in an empty text, there is no line to show.
-/

namespace ClockedC

variable {above line : List Char}

/-! ## Lines -/

namespace Text

/-- The text is empty or ends with a newline. -/
def EndsLine (cs : List Char) : Prop := cs = [] ∨ cs.getLast? = some '\n'

instance (cs : List Char) : Decidable (EndsLine cs) := inferInstanceAs (Decidable (_ ∨ _))

/-- What may stand behind a line: nothing, or the end of the line and more. A carriage return right before a newline
belongs to the end of the line. -/
inductive FollowsLine (line : List Char) : List Char → Prop
  | nothing : FollowsLine line []
  | newline (below : List Char) (h : line.getLast? ≠ some '\r') : FollowsLine line ('\n' :: below)
  | carriageReturn (below : List Char) : FollowsLine line ('\r' :: '\n' :: below)

/-- Behind any character of a line, what ends it still does. -/
theorem EndsLine.tail {c : Char} {cs : List Char} (h : EndsLine (c :: cs)) : EndsLine cs := by
  cases cs with
  | nil => exact .inl rfl
  | cons d cs => exact .inr (by simpa [EndsLine] using h)

theorem EndsLine.ne_nil_of_ne {c : Char} {cs : List Char} (h : EndsLine (c :: cs)) (hc : c ≠ '\n') : cs ≠ [] := by
  rintro rfl
  exact hc (by simpa [EndsLine] using h)

/-- A text that is not empty has a line. -/
theorem cutAfterNewlines_ne_nil {cs : List Char} (h : cs ≠ []) : cutAfterNewlines cs ≠ [] := by
  intro hcut
  have hflat := flatten_cutAfterNewlines cs
  rw [hcut] at hflat
  exact h hflat.symm

/-- Behind a newline a text is cut as if it began there. -/
theorem cutAfterNewlines_append (h : EndsLine above) (rest : List Char) :
    cutAfterNewlines (above ++ rest) = cutAfterNewlines above ++ cutAfterNewlines rest := by
  induction above with
  | nil => rfl
  | cons c cs ih =>
    rw [List.cons_append, cutAfterNewlines, cutAfterNewlines, ih h.tail]
    split
    · rfl
    · next hc =>
      cases hcut : cutAfterNewlines cs with
      | nil => exact absurd hcut (cutAfterNewlines_ne_nil (h.ne_nil_of_ne hc))
      | cons part parts => rfl

/-- A text that ends with a newline has as many parts as newlines. -/
theorem length_cutAfterNewlines (h : EndsLine above) : (cutAfterNewlines above).length = above.count '\n' := by
  induction above with
  | nil => rfl
  | cons c cs ih =>
    have hlength := ih h.tail
    rw [cutAfterNewlines]
    split
    · next hc => rw [List.length_cons, hlength, hc, List.count_cons_self]
    · next hc =>
      rw [List.count_cons_of_ne hc, ← hlength]
      cases hcut : cutAfterNewlines cs with
      | nil => exact absurd hcut (cutAfterNewlines_ne_nil (h.ne_nil_of_ne hc))
      | cons part parts => rfl

/-- A text without a newline is one line. -/
theorem cutAfterNewlines_of_notMem (h : '\n' ∉ line) (hne : line ≠ []) : cutAfterNewlines line = [line] := by
  induction line with
  | nil => exact absurd rfl hne
  | cons c cs ih =>
    obtain ⟨hc, hcs⟩ := not_or.1 (mt List.mem_cons.2 h)
    rw [cutAfterNewlines, if_neg (Ne.symm hc)]
    cases cs with
    | nil => rfl
    | cons d ds => rw [ih hcs (List.cons_ne_nil _ _)]

/-- The first part of a text is its first line with the newline. -/
theorem cutAfterNewlines_line (h : '\n' ∉ line) (below : List Char) :
    cutAfterNewlines (line ++ '\n' :: below) = (line ++ ['\n']) :: cutAfterNewlines below := by
  induction line with
  | nil => rfl
  | cons c cs ih =>
    obtain ⟨hc, hcs⟩ := not_or.1 (mt List.mem_cons.2 h)
    rw [List.cons_append, cutAfterNewlines, if_neg (Ne.symm hc), ih hcs]
    rfl

/-- A line without a newline has no end to take away. -/
theorem withoutLineEnd_of_notMem (h : '\n' ∉ line) : withoutLineEnd line = line := by
  unfold withoutLineEnd
  split
  · next hline => exact absurd (List.mem_reverse.1 (hline ▸ List.mem_cons_self)) h
  · next hline => exact absurd (List.mem_reverse.1 (hline ▸ List.mem_cons_self)) h
  · rfl

/-- A newline is taken away at the end of a line. -/
theorem withoutLineEnd_newline (h : line.getLast? ≠ some '\r') : withoutLineEnd (line ++ ['\n']) = line := by
  unfold withoutLineEnd
  rw [List.reverse_concat]
  split
  · next cs hline =>
    rw [List.reverse_eq_iff.1 (List.cons.inj hline).2] at h
    simp at h
  · next hline => rw [← (List.cons.inj hline).2, List.reverse_reverse]
  · next hline => exact absurd rfl (hline _)

theorem withoutLineEnd_carriageReturn (line : List Char) : withoutLineEnd (line ++ ['\r', '\n']) = line := by
  simp [withoutLineEnd]

/-- A line is found by the number of newlines above it, unless there is no text where it should begin. -/
theorem getElem?_lines {below : List Char} (habove : EndsLine above) (hline : '\n' ∉ line)
    (hbelow : FollowsLine line below) (hne : line ++ below ≠ []) :
    (lines (String.ofList (above ++ (line ++ below))))[above.count '\n']? = some (String.ofList line) := by
  have hparts : ∃ part parts, cutAfterNewlines (line ++ below) = part :: parts ∧ withoutLineEnd part = line := by
    cases hbelow with
    | nothing =>
      rw [List.append_nil] at hne ⊢
      exact ⟨_, _, cutAfterNewlines_of_notMem hline hne, withoutLineEnd_of_notMem hline⟩
    | newline below hlast => exact ⟨_, _, cutAfterNewlines_line hline below, withoutLineEnd_newline hlast⟩
    | carriageReturn below =>
      have hreturn : '\n' ∉ line ++ ['\r'] := by simpa using hline
      refine ⟨line ++ ['\r', '\n'], cutAfterNewlines below, ?_, withoutLineEnd_carriageReturn line⟩
      simpa using cutAfterNewlines_line hreturn below
  obtain ⟨part, parts, hcut, hpart⟩ := hparts
  rw [lines, String.toList_ofList, cutAfterNewlines_append habove, hcut, ← length_cutAfterNewlines habove,
    List.map_append, List.getElem?_append_right (by rw [List.length_map])]
  simp [hpart]

/-- Behind the last newline there is no line if there is no text. -/
theorem getElem?_lines_eq_none {text : String} (h : EndsLine text.toList) :
    (lines text)[text.toList.count '\n']? = none := by
  rw [← length_cutAfterNewlines h, lines, List.getElem?_eq_none]
  rw [List.length_map]

end Text

/-! ## Offsets in lines -/

/-- In its line, which does not include the end of the line, the offset has `before` on its one side and `after` on the
other. -/
def StandsBetween (text : List Char) (offset : Nat) (before after : List Char) : Prop :=
  ∃ above below, text = above ++ ((before ++ after) ++ below) ∧ above.length + before.length = offset ∧
    Text.EndsLine above ∧ '\n' ∉ before ++ after ∧ Text.FollowsLine (before ++ after) below

/-- The offset is the end of a text that is empty or ends with a newline. -/
def IsBareEnd (text : List Char) (offset : Nat) : Prop := offset = text.length ∧ Text.EndsLine text

instance (text : List Char) (offset : Nat) : Decidable (IsBareEnd text offset) := inferInstanceAs (Decidable (_ ∧ _))

/-- What stands in front of the first newline has none. -/
theorem notMem_of_takeWhile (cs : List Char) : '\n' ∉ cs.takeWhile (· ≠ '\n') := by
  intro hmem
  simpa using List.mem_takeWhile_imp hmem

/-- A text is a beginning that ends with a newline, and a stretch without one. -/
theorem exists_endsLine_append (cs : List Char) :
    ∃ above before, cs = above ++ before ∧ Text.EndsLine above ∧ '\n' ∉ before := by
  refine ⟨cs.rdropWhile (· ≠ '\n'), cs.rtakeWhile (· ≠ '\n'), List.rdropWhile_append_rtakeWhile.symm, ?_, ?_⟩
  · by_cases hnil : cs.rdropWhile (· ≠ '\n') = []
    · exact .inl hnil
    · have hlast := List.rdropWhile_last_not (· ≠ '\n') cs hnil
      exact .inr (by rw [List.getLast?_eq_some_getLast hnil]; simpa using hlast)
  · rw [List.rtakeWhile, List.mem_reverse]
    exact notMem_of_takeWhile _

/-- Every offset but that of a newline stands in a line. -/
theorem exists_standsBetween {text : List Char} {offset : Nat} (hle : offset ≤ text.length)
    (hplace : text[offset]? ≠ some '\n') : ∃ before after, StandsBetween text offset before after := by
  obtain ⟨above, before, htake, habove, hbefore⟩ := exists_endsLine_append (text.take offset)
  have hlength : above.length + before.length = offset := by
    rw [← List.length_append, ← htake, List.length_take, min_eq_left hle]
  have hline : '\n' ∉ before ++ (text.drop offset).takeWhile (· ≠ '\n') :=
    List.not_mem_append hbefore (notMem_of_takeWhile _)
  have htext : text = above ++ ((before ++ (text.drop offset).takeWhile (· ≠ '\n')) ++
      (text.drop offset).dropWhile (· ≠ '\n')) := by
    rw [List.append_assoc, List.takeWhile_append_dropWhile, ← List.append_assoc, ← htake, List.take_append_drop]
  cases hdrop : (text.drop offset).dropWhile (· ≠ '\n') with
  | nil =>
    rw [hdrop] at htext
    exact ⟨_, _, above, [], htext, hlength, habove, hline, .nothing⟩
  | cons c below =>
    obtain rfl : c = '\n' := by
      have hfirst := List.head?_dropWhile_not (· ≠ '\n') (text.drop offset)
      rw [hdrop] at hfirst
      simpa using hfirst
    rw [hdrop] at htext
    by_cases hreturn : (before ++ (text.drop offset).takeWhile (· ≠ '\n')).getLast? = some '\r'
    · -- the offset is not that of the newline, so the carriage return stands behind it
      obtain ⟨after, hafter⟩ : ∃ after, (text.drop offset).takeWhile (· ≠ '\n') = after ++ ['\r'] := by
        cases htaken : (text.drop offset).takeWhile (· ≠ '\n') with
        | nil =>
          have hsplit := List.takeWhile_append_dropWhile (p := (· ≠ '\n')) (l := text.drop offset)
          rw [htaken, hdrop] at hsplit
          have hhead := congrArg List.head? hsplit
          rw [List.head?_drop] at hhead
          exact absurd hhead.symm hplace
        | cons d ds =>
          rw [htaken, List.getLast?_append] at hreturn
          exact List.getLast?_eq_some_iff.1 (by simpa using hreturn)
      rw [hafter] at htext hline
      refine ⟨before, after, above, '\r' :: '\n' :: below, ?_, hlength, habove, ?_, .carriageReturn below⟩
      · simpa using htext
      · intro hmem
        exact hline (by rw [← List.append_assoc]; exact List.mem_append_left _ hmem)
    · exact ⟨_, _, above, _, htext, hlength, habove, hline, .newline below hreturn⟩

/-- The line of an offset is counted by the newlines above it, and its column by what stands before it in the line. -/
theorem Location.ofOffset_of_standsBetween {above line : List Char} (habove : Text.EndsLine above) {before : List Char}
    (hbefore : '\n' ∉ before) :
    ofOffset (above ++ (before ++ line)) (above.length + before.length) =
      ⟨1 + above.count '\n', 1 + before.length⟩ := by
  have htake : (above ++ (before ++ line)).take (above.length + before.length) = above ++ before := by
    rw [← List.append_assoc, ← List.length_append, List.take_left]
  have hall : ∀ c ∈ before.reverse, decide (c ≠ '\n') = true := by
    intro c hc
    exact decide_eq_true fun heq => hbefore (heq ▸ List.mem_reverse.1 hc)
  have hstop : above.reverse.takeWhile (· ≠ '\n') = [] := by
    rcases habove with rfl | hlast
    · rfl
    · obtain ⟨ys, rfl⟩ := List.getLast?_eq_some_iff.1 hlast
      simp
  rw [ofOffset, htake, List.count_append, List.count_eq_zero.2 hbefore, List.reverse_append,
    List.takeWhile_append_of_pos hall, hstop]
  simp

/-! ## Excerpts -/

namespace Renderer

/-- A stretch of blanks. -/
def blanks (n : Nat) : String := String.ofList (List.replicate n ' ')

theorem pushn_eq_blanks (n : Nat) : "".pushn ' ' n = blanks n := by
  apply String.toList_inj.1
  rw [blanks, String.toList_ofList]
  induction n with
  | zero => rfl
  | succ n ih =>
    show (("".pushn ' ' n).push ' ').toList = _
    rw [String.toList_push, ih, List.replicate_succ']

/-- A line behind its number, and below it a caret under what stands between `before` and `after`. -/
def excerpt (r : Renderer) (number : Nat) (before after : List Char) : String :=
  " " ++ toString number ++ " | " ++ String.ofList (before ++ after) ++ "\n" ++
    " " ++ blanks (toString number).length ++ " | " ++ r.bold .green (blanks before.length ++ "^") ++ "\n"

/-- The text of a diagnostic around an excerpt. -/
def around (r : Renderer) (d : Diagnostic) (excerpt : String) : String :=
  r.bold d.severity.colour d.header ++ ": " ++ r.position d ++ d.message ++ "\n" ++ excerpt ++
    (d.hint.map r.hintLine).getD ""

theorem render_eq_around {r : Renderer} {d : Diagnostic} {loc : Location} (h : d.loc = some loc) :
    r.render d = r.around d (r.snippet loc) := by
  rw [render, h]
  rfl

/-- A renderer beside a source text. -/
def beside (painter : Painter) (colour : Bool) (name source : String) : Renderer :=
  ⟨colour, some (.ofText name source), painter⟩

variable {painter : Painter} {colour : Bool} {name source : String} {offset : Nat}

/-- There is nothing to show at the end of a text that is empty or ends with a newline. -/
theorem snippet_of_isBareEnd (h : IsBareEnd source.toList offset) :
    (beside painter colour name source).snippet (.ofOffset source.toList offset) = "" := by
  obtain ⟨rfl, hends⟩ := h
  have hline : (Location.ofOffset source.toList source.toList.length).line = source.toList.count '\n' + 1 := by
    rw [Location.ofOffset, List.take_length, Nat.add_comm]
  have hnone : (beside painter colour name source).lineAt? (.ofOffset source.toList source.toList.length) = none := by
    simp only [lineAt?, beside, hline, SourceFile.ofText]
    exact Text.getElem?_lines_eq_none hends
  rw [snippet, hnone]

/-- The line of an offset is shown, with a caret behind as many blanks as characters stand before the offset. -/
theorem snippet_of_standsBetween {before after : List Char} (h : StandsBetween source.toList offset before after)
    (hbare : ¬ IsBareEnd source.toList offset) :
    (beside painter colour name source).snippet (.ofOffset source.toList offset) =
      (beside painter colour name source).excerpt (Location.ofOffset source.toList offset).line before after := by
  obtain ⟨above, below, htext, rfl, habove, hline, hbelow⟩ := h
  have hbefore : '\n' ∉ before := fun hmem => hline (List.mem_append_left _ hmem)
  -- behind a newline with no text the offset would be a bare end
  have hne : (before ++ after) ++ below ≠ [] := by
    intro hnil
    have hempty : before = [] := by simp_all
    rw [hnil, List.append_nil] at htext
    exact hbare ⟨by rw [htext, hempty]; rfl, htext ▸ habove⟩
  have hloc : Location.ofOffset source.toList (above.length + before.length) =
      ⟨above.count '\n' + 1, before.length + 1⟩ := by
    rw [htext, List.append_assoc, Location.ofOffset_of_standsBetween habove hbefore, Nat.add_comm 1, Nat.add_comm 1]
  have hshown : (beside painter colour name source).lineAt? (.ofOffset source.toList (above.length + before.length)) =
      some (String.ofList (before ++ after)) := by
    have hsource : source = String.ofList (above ++ ((before ++ after) ++ below)) := by
      rw [← htext, String.ofList_toList]
    simp only [lineAt?, beside, hloc, SourceFile.ofText]
    rw [hsource]
    exact Text.getElem?_lines habove hline hbelow hne
  rw [snippet, hshown, hloc]
  simp only [Nat.add_sub_cancel, pushn_eq_blanks]
  rfl

end Renderer

end ClockedC
