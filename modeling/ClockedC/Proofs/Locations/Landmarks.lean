import ClockedC.Proofs.Reading.Marks
import ClockedC.Proofs.Scanning.Tiling

/-!
# Landmarks of a source text

Scanning goes through a text piece by piece, and what it locates begins where a piece does. So every location that a
scan gives is that of a landmark: of a token, of a directive, of what keeps the text from being scanned, or of the end.
-/

namespace ClockedC

variable {offset : Nat} {text : List Char}

/-! ## Landmarks -/

/-- The pieces of a text lead from its beginning to the offset. -/
inductive LeadsTo (text : List Char) : Nat → Prop
  | start : LeadsTo text 0
  | behind {offset : Nat} {c : Char} {cs rest : List Char} {piece : Piece} (h : LeadsTo text offset)
      (hdrop : text.drop offset = c :: cs) (hfirst : Piece.first c cs = .ok (piece, rest)) :
      LeadsTo text (offset + piece.text.length)

/-- The offset is where a token or a directive begins, where a character or a comment or string without an end keeps the
text from being scanned, or the end of the text. -/
inductive IsLandmark (text : List Char) (offset : Nat) : Prop
  | token {c : Char} {cs spelling rest : List Char} {lexeme : Lexeme} (h : LeadsTo text offset)
      (hdrop : text.drop offset = c :: cs) (hfirst : Piece.first c cs = .ok (.lexeme lexeme spelling, rest))
  | directive {c : Char} {cs line rest : List Char} (h : LeadsTo text offset) (hdrop : text.drop offset = c :: cs)
      (hfirst : Piece.first c cs = .ok (.directive line, rest))
  | fault {c : Char} {cs : List Char} {fault : LexicalFault} (h : LeadsTo text offset)
      (hdrop : text.drop offset = c :: cs) (hfirst : Piece.first c cs = .error fault)
  | ending (h : offset = text.length)

/-- A location is that of a landmark. -/
def Mark.IsPlaced (text : List Char) : Mark → Prop
  | .location loc => ∃ offset, IsLandmark text offset ∧ loc = .ofOffset text offset
  | _ => True

theorem Mark.closed_isPlaced (text : List Char) : Mark.Closed (Mark.IsPlaced text) :=
  ⟨trivial, trivial, fun _ _ => trivial, fun _ _ => trivial⟩

theorem lt_length_of_drop_eq {cs : List Char} {c : Char} (h : text.drop offset = c :: cs) : offset < text.length := by
  have hlength := congrArg List.length h
  rw [List.length_drop, List.length_cons] at hlength
  omega

/-- The pieces of a text do not lead beyond its end. -/
theorem LeadsTo.le_length (h : LeadsTo text offset) : offset ≤ text.length := by
  cases h with
  | start => exact Nat.zero_le _
  | @behind before c cs rest piece h hdrop hfirst =>
    have hlength := congrArg List.length (hdrop.trans (Piece.text_append_rest hfirst).symm)
    have hlt := lt_length_of_drop_eq hdrop
    rw [List.length_drop, List.length_append] at hlength
    omega

/-- A landmark does not stand beyond the end. -/
theorem IsLandmark.le_length (h : IsLandmark text offset) : offset ≤ text.length := by
  cases h with
  | token h hdrop hfirst => exact h.le_length
  | directive h hdrop hfirst => exact h.le_length
  | fault h hdrop hfirst => exact h.le_length
  | ending h => exact h.le

/-- Nothing that is located begins with a newline. -/
theorem IsLandmark.getElem?_ne_newline (h : IsLandmark text offset) : text[offset]? ≠ some '\n' := by
  -- a newline would be cut off as a blank, whatever follows
  have hfirst_newline : ∀ cs, Piece.first '\n' cs = .ok (.blank '\n', cs) := fun _ => rfl
  rw [← List.head?_drop]
  cases h with
  | token h hdrop hfirst | directive h hdrop hfirst | fault h hdrop hfirst =>
    rw [hdrop]
    rintro ⟨⟩
    rw [hfirst_newline] at hfirst
    cases hfirst
  | ending h => simp [h]

/-! ## Scanning -/

namespace Scan

variable {P : Mark → Prop}

/-- A token in front adds its own location. -/
theorem Marked.consToken {scan : Scan} (h : scan.Marked P) {t : Token} (ht : t.Marked P) :
    (scan.consToken t).Marked P := by
  obtain ⟨warnings, log, outcome⟩ := scan
  cases outcome with
  | error e =>
    exact ⟨fun hstream => (by cases hstream), fun hstream => (by cases hstream), fun he => h.error he, h.warnings⟩
  | ok stream =>
    refine ⟨fun hstream => ?_, fun hstream => ?_, fun he => (by cases he), h.warnings⟩
    · cases hstream
      exact List.forall_mem_cons.2 ⟨ht, h.tokens rfl⟩
    · cases hstream
      show P (.location stream.eof)
      exact h.eof rfl

/-- A warning in front adds its own location. -/
theorem Marked.consWarning {scan : Scan} (h : scan.Marked P) {d : Diagnostic} (hd : d.Marked P) :
    (scan.consWarning d).Marked P :=
  ⟨h.tokens, h.eof, h.error, List.forall_mem_cons.2 ⟨hd, h.warnings⟩⟩

/-- From an offset that the pieces of a text lead to, all that a scan gives is placed. -/
theorem marked_isPlaced_scanFrom {cs : List Char} (h : LeadsTo text offset) (hdrop : text.drop offset = cs) :
    (scanFrom (.ofOffset text offset) cs).Marked (Mark.IsPlaced text) := by
  fun_induction Piece.cut cs generalizing offset with
  | case1 =>
    have hend : offset = text.length := le_antisymm h.le_length (List.drop_eq_nil_iff.1 hdrop)
    rw [scanFrom]
    refine ⟨fun hstream => ?_, fun hstream => ?_, fun he => (by cases he), List.forall_mem_nil _⟩
    · cases hstream
      exact List.forall_mem_nil _
    · cases hstream
      exact ⟨offset, .ending hend, rfl⟩
  | case2 c cs fault hfirst =>
    rw [scanFrom_cons_of_error hfirst]
    refine ⟨fun hstream => (by cases hstream), fun hstream => (by cases hstream), fun he => ?_, List.forall_mem_nil _⟩
    cases he
    exact ⟨offset, .fault h hdrop hfirst, rfl⟩
  | case3 c cs piece rest hfirst _ ih =>
    have hsplit : text.drop offset = piece.text ++ rest := hdrop.trans (Piece.text_append_rest hfirst).symm
    have hrest := ih (h.behind hdrop hfirst) (drop_add_length hsplit)
    rw [scanFrom_cons_of_ok hfirst, Location.after_ofOffset hsplit]
    -- blanks and comments give nothing that has a location
    cases piece with
    | blank c' => exact hrest
    | comment text' => exact hrest
    | directive line =>
      refine hrest.consWarning fun loc hloc => ?_
      cases hloc
      exact ⟨offset, .directive h hdrop hfirst, rfl⟩
    | lexeme lexeme spelling =>
      exact hrest.consToken ⟨⟨offset, .token h hdrop hfirst, rfl⟩, fun _ _ => trivial, fun _ _ => trivial⟩

/-- All that a scan of a source text gives is placed. -/
theorem marked_isPlaced (source : String) : (ofSource source).Marked (Mark.IsPlaced source.toList) :=
  marked_isPlaced_scanFrom .start rfl

end Scan

end ClockedC
