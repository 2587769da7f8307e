import ClockedC.Proofs.Grouping.Grammar

/-!
# Reading the texts of expressions

How the texts of VHDL expressions are read, one rule for every way to write an expression.
-/

namespace ClockedC.Vhdl

/-- The text of an expression is a phrase of the given kind and is read as the tree, if what follows goes on with
neither a word nor a number. -/
def Writes (c : Phrase) (e : Expr) (t : Tree) : Prop :=
  ∃ ts, Reads c ts t ∧
    ∀ rest, EndsNumber rest → lexemesFrom [] (e.text.toList ++ rest) = ts ++ lexemesFrom [] rest

/-- The text of an expression is a name and is read as the tree, if what follows does not go on with a word. -/
def WritesName (e : Expr) (t : Tree) : Prop :=
  ∃ ts, Reads .name ts t ∧ ∀ rest, EndsWord rest → lexemesFrom [] (e.text.toList ++ rest) = ts ++ lexemesFrom [] rest

/-- The text of an expression is read as the tree, and in no other way. -/
def Expr.ReadAs (e : Expr) (t : Tree) : Prop := ∀ t', Reads .expression (lexemes e.text) t' ↔ t' = t

/-- One way to read a text is the only one. -/
theorem Expr.readAs_of_reads {e : Expr} {t : Tree} (h : Reads .expression (lexemes e.text) t) : e.ReadAs t := by
  intro t'
  constructor
  · exact fun h' => h'.unique h
  · rintro rfl
    exact h

theorem endsNumber_nil : EndsNumber [] := fun _ hc => nomatch hc

theorem endsNumber_cons {c : Char} (hword : Piece.isWordPart c = false) (hdot : c ≠ '.') (rest : List Char) :
    EndsNumber (c :: rest) := by
  rintro d ⟨⟩
  exact ⟨hword, hdot⟩

/-! ## Kinds -/

namespace Writes

variable {c c' : Phrase} {e : Expr} {t : Tree}

theorem mono (h : Writes c e t) (hle : c'.rank ≤ c.rank) : Writes c' e t := by
  obtain ⟨ts, hreads, htext⟩ := h
  exact ⟨ts, hreads.mono hle, htext⟩

/-- A phrase of any kind is an expression. -/
theorem expression (h : Writes c e t) : Writes .expression e t := h.mono (Nat.zero_le _)

/-- A text that is read as a tree whatever follows is read so when nothing follows, and as no other tree. -/
theorem readAs (h : Writes c e t) : e.ReadAs t := by
  obtain ⟨ts, hreads, htext⟩ := h.expression
  have hlexemes : lexemes e.text = ts := by
    have hall := htext [] endsNumber_nil
    rwa [List.append_nil, show lexemesFrom [] [] = [] from rfl, List.append_nil] at hall
  exact Expr.readAs_of_reads (hlexemes ▸ hreads)

end Writes

theorem Phrase.rank_le_rank_name (c : Phrase) : c.rank ≤ Phrase.name.rank := by
  cases c <;> decide

/-- A name is a phrase of every kind. -/
theorem WritesName.writes {e : Expr} {t : Tree} (h : WritesName e t) (c : Phrase) : Writes c e t := by
  obtain ⟨ts, hreads, htext⟩ := h
  exact ⟨ts, hreads.mono c.rank_le_rank_name, fun rest hrest => htext rest hrest.endsWord⟩

/-! ## Names -/

theorem WritesName.name {n : String} (hword : isWord n) (hplain : isOperatorWord n = false) :
    WritesName (.name n) (.name n) := by
  refine ⟨_, .name n, fun rest hrest => ?_⟩
  rw [Expr.text, lexemesFrom_word hword hrest, Lexeme.ofWord_eq_name hplain]
  rfl

/-- A field of a name is read as a selection. -/
theorem WritesName.field {e : Expr} {t : Tree} (h : WritesName e t) {n : String} (hword : isWord n)
    (hplain : isOperatorWord n = false) : WritesName (.field e n) (.select t n) := by
  obtain ⟨ts, hreads, htext⟩ := h
  refine ⟨_, hreads.select n, fun rest hrest => ?_⟩
  have hdot : EndsWord ('.' :: (n.toList ++ rest)) := by
    rintro d ⟨⟩
    decide
  have hlist : (Expr.field e n).text.toList ++ rest = e.text.toList ++ '.' :: (n.toList ++ rest) := by
    simp [Expr.text]
  rw [hlist, htext _ hdot, lexemesFrom_dot, lexemesFrom_word hword hrest, Lexeme.ofWord_eq_name hplain]
  simp

/-- Arguments are read one after another. -/
theorem exists_lexemes_of_arguments {args : List Expr} {ts : List Tree}
    (h : List.Forall₂ (Writes .expression) args ts) :
    ∃ pairs : List (List Lexeme × Tree), pairs.map Prod.snd = ts ∧
      (∀ arg ∈ pairs, Reads .expression arg.1 arg.2) ∧
      ∀ rest, EndsNumber rest →
        lexemesFrom [] ((", ".intercalate (Expr.texts args)).toList ++ rest) =
          [.comma].intercalate (pairs.map Prod.fst) ++ lexemesFrom [] rest := by
  induction h with
  | nil => exact ⟨[], rfl, by simp, fun rest _ => by simp [Expr.texts]⟩
  | @cons e t args ts hfirst hrest ih =>
    obtain ⟨us, hreads, htext⟩ := hfirst
    obtain ⟨pairs, hts, hpairs, hlexemes⟩ := ih
    refine ⟨(us, t) :: pairs, by rw [List.map_cons, hts], List.forall_mem_cons.2 ⟨hreads, hpairs⟩, fun rest hend => ?_⟩
    -- only an argument with others behind it is followed by a comma
    have hlength : pairs.length = args.length := by rw [← List.length_map, hts, hrest.length_eq]
    cases args with
    | nil =>
      obtain rfl := List.length_eq_zero_iff.1 hlength
      simp [Expr.texts, htext rest hend]
    | cons arg args =>
      obtain ⟨pair, pairs, rfl⟩ := List.exists_cons_of_length_eq_add_one hlength
      have hcomma : ∀ cs, EndsNumber (',' :: cs) := endsNumber_cons (by decide) (by decide)
      have hlist : (", ".intercalate (Expr.texts (e :: arg :: args))).toList ++ rest =
          e.text.toList ++ ',' :: ' ' :: ((", ".intercalate (Expr.texts (arg :: args))).toList ++ rest) := by
        simp [Expr.texts]
      rw [hlist, htext _ (hcomma _), lexemesFrom_comma, lexemesFrom_blank, hlexemes rest hend]
      simp

/-- Arguments in parentheses behind a name are read as its arguments. -/
theorem WritesName.apply {e : Expr} {t : Tree} (h : WritesName e t) {args : List Expr} {ts : List Tree}
    (hargs : List.Forall₂ (Writes .expression) args ts) : WritesName (.apply e args) (.apply t ts) := by
  obtain ⟨us, hreads, htext⟩ := h
  obtain ⟨pairs, rfl, hpairs, hlexemes⟩ := exists_lexemes_of_arguments hargs
  refine ⟨_, hreads.apply pairs hpairs, fun rest _ => ?_⟩
  have hopen : EndsWord ('(' :: ((", ".intercalate (Expr.texts args)).toList ++ ')' :: rest)) := by
    rintro d ⟨⟩
    decide
  have hclose : EndsNumber (')' :: rest) := endsNumber_cons (by decide) (by decide) rest
  have hlist : (Expr.apply e args).text.toList ++ rest =
      e.text.toList ++ '(' :: ((", ".intercalate (Expr.texts args)).toList ++ ')' :: rest) := by
    simp [Expr.text]
  rw [hlist, htext _ hopen, lexemesFrom_openParen, hlexemes _ hclose, lexemesFrom_closeParen]
  simp

/-! ## Literals -/

namespace Writes

/-- A numeral is read as a literal. -/
theorem literal {numeral : String} (h : isNumeral numeral) : Writes .primary (.literal numeral) (.literal numeral) := by
  refine ⟨_, .number numeral, fun rest hrest => ?_⟩
  rw [Expr.text, lexemesFrom_numeral h hrest]
  rfl

/-- A numeral begins without a sign. -/
theorem head?_of_isNumeral {numeral : String} (h : isNumeral numeral) (rest : List Char) :
    (numeral.toList ++ rest).head? ≠ some '-' := by
  unfold isNumeral at h
  split at h
  · cases h
  next c cs hlist =>
  rw [hlist]
  rintro ⟨⟩
  exact absurd h (by simp)

/-- A numeral with a sign is read as the sign and the literal. -/
theorem negativeLiteral {numeral : String} (h : isNumeral numeral) :
    Writes .simple (.literal ("-" ++ numeral)) (.sign .sub (.literal numeral)) := by
  refine ⟨_, .sign rfl ((Reads.number numeral).mono (by decide)), fun rest hrest => ?_⟩
  have hlist : (Expr.literal ("-" ++ numeral)).text.toList ++ rest = '-' :: (numeral.toList ++ rest) := by
    simp [Expr.text]
  rw [hlist, lexemesFrom_minus (head?_of_isNumeral h rest), lexemesFrom_numeral h hrest]
  rfl

/-! ## Operators -/

variable {e l r : Expr} {t u : Tree}

/-- Parentheses make a primary of any expression. -/
theorem paren (h : Writes .expression e t) : Writes .primary (.paren e) t := by
  obtain ⟨ts, hreads, htext⟩ := h
  refine ⟨_, hreads.paren, fun rest _ => ?_⟩
  have hlist : (Expr.paren e).text.toList ++ rest = '(' :: (e.text.toList ++ ')' :: rest) := by simp [Expr.text]
  rw [hlist, lexemesFrom_openParen, htext _ (endsNumber_cons (by decide) (by decide) rest), lexemesFrom_closeParen]
  simp

/-- A sign may stand before what does not begin with one. -/
theorem negate (h : Writes .term e t) (hhead : ∀ rest, (e.text.toList ++ rest).head? ≠ some '-') :
    Writes .simple (.negate e) (.sign .sub t) := by
  obtain ⟨ts, hreads, htext⟩ := h
  refine ⟨_, .sign rfl hreads, fun rest hrest => ?_⟩
  have hlist : (Expr.negate e).text.toList ++ rest = '-' :: (e.text.toList ++ rest) := by simp [Expr.text]
  rw [hlist, lexemesFrom_minus (hhead rest), htext rest hrest]
  rfl

/-- A primary behind `not` is a factor. -/
theorem not (h : Writes .primary e t) : Writes .factor (.not e) (.not t) := by
  obtain ⟨ts, hreads, htext⟩ := h
  refine ⟨_, hreads.not, fun rest hrest => ?_⟩
  have hlist : (Expr.not e).text.toList ++ rest = "not".toList ++ ' ' :: (e.text.toList ++ rest) := by
    simp [Expr.text]
  rw [hlist, lexemesFrom_wordOperator (by decide) (by decide +kernel : Lexeme.ofWord "not" = .not), htext rest hrest]
  rfl

/-- An operator groups to the left. -/
theorem binary (op : Operator) (hl : Writes op.phrase l t) (hr : Writes op.phrase.next r u) :
    Writes op.phrase (.binary op l r) (.binary op t u) := by
  obtain ⟨ts, hreads, htext⟩ := hl
  obtain ⟨us, hreads', htext'⟩ := hr
  refine ⟨_, hreads.binary op hreads', fun rest hrest => ?_⟩
  have hlist : (Expr.binary op l r).text.toList ++ rest =
      l.text.toList ++ ' ' :: (op.spelling.toList ++ ' ' :: (r.text.toList ++ rest)) := by
    simp [Expr.text]
  rw [hlist, htext _ (endsNumber_cons (by decide) (by decide) _), lexemesFrom_blank, lexemesFrom_operator,
    htext' rest hrest, List.append_assoc]
  rfl

end Writes

end ClockedC.Vhdl
