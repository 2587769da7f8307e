import ClockedC.Proofs.Precedence.Lookahead

/-!
# Grouping by precedence

What is read from operands with operators between them is the tree that splits at the rightmost of the loosest
operators, and on either side again.
-/

namespace ClockedC.Grammar

/-! ## Chains and their trees -/

/-- An operator at `loc` with the operand behind it, which is written in `tokens`. -/
structure Link where
  op : Operator
  loc : Location
  tokens : List Token
  operand : Expr

namespace Link

/-- How tightly the operator binds. -/
def precedence (l : Link) : Int := l.op.precedence

/-- Whether the operator binds at least as tightly as `least`. -/
def bindsFrom (least : Int) (l : Link) : Bool := least ≤ l.precedence

/-- The tokens of a chain of operators and operands. -/
def chain (links : List Link) : List Token := links.flatMap fun l => ⟨.symbol l.op.symbol, l.loc⟩ :: l.tokens

@[simp] theorem chain_cons (l : Link) (links : List Link) :
    chain (l :: links) = ⟨.symbol l.op.symbol, l.loc⟩ :: (l.tokens ++ chain links) := by simp [chain]

/-- The rightmost of the loosest operators, and what stands before and behind it. -/
def splitLoosest : List Link → Option (List Link × Link × List Link)
  | [] => none
  | l :: links =>
    match splitLoosest links with
    | none => some ([], l, links)
    | some (before, loosest, behind) =>
      if loosest.precedence ≤ l.precedence then some (l :: before, loosest, behind) else some ([], l, links)

/-- No operator before the split is looser, and every operator behind it is tighter. -/
structure SplitsAt (links before : List Link) (loosest : Link) (behind : List Link) : Prop where
  eq_append : links = before ++ loosest :: behind
  le_before : ∀ l ∈ before, loosest.precedence ≤ l.precedence
  lt_behind : ∀ l ∈ behind, loosest.precedence < l.precedence

/-- What binds at least as tightly as `least` begins with what binds tighter than its first operator. -/
theorem span_bindsFrom_cons {least : Int} {l : Link} (h : l.bindsFrom least) (links : List Link) :
    let taken := links.takeWhile (bindsFrom (l.precedence + 1))
    let left := links.dropWhile (bindsFrom (l.precedence + 1))
    (l :: links).takeWhile (bindsFrom least) = (l :: taken) ++ left.takeWhile (bindsFrom least) ∧
      (l :: links).dropWhile (bindsFrom least) = left.dropWhile (bindsFrom least) := by
  intro taken left
  have hall : ∀ m ∈ l :: taken, m.bindsFrom least := by
    refine List.forall_mem_cons.2 ⟨h, fun m hm => ?_⟩
    have hm := List.mem_takeWhile_imp hm
    simp only [bindsFrom, decide_eq_true_eq] at h hm ⊢
    omega
  have hlinks : l :: links = (l :: taken) ++ left := by rw [List.cons_append, List.takeWhile_append_dropWhile]
  rw [hlinks]
  exact ⟨List.takeWhile_append_of_pos hall, List.dropWhile_append_of_pos hall⟩

/-- What is taken by the right operand binds tighter than its operator. -/
theorem lt_of_mem_takeWhile {least : Int} {links : List Link} {m : Link}
    (h : m ∈ links.takeWhile (bindsFrom (least + 1))) : least < m.precedence := by
  have := List.mem_takeWhile_imp h
  simp only [bindsFrom, decide_eq_true_eq] at this
  omega

/-- The operator behind the right operand of another does not bind tighter than that one. -/
theorem le_of_mem_head?_dropWhile {least : Int} {links : List Link} {m : Link}
    (h : m ∈ (links.dropWhile (bindsFrom (least + 1))).head?) : m.precedence ≤ least := by
  have hnot := List.head?_dropWhile_not (bindsFrom (least + 1)) links
  rw [Option.mem_def.1 h] at hnot
  simp only [bindsFrom, decide_eq_false_iff_not] at hnot
  omega

/-- Only an empty chain has no loosest operator. -/
theorem splitLoosest_eq_none {links : List Link} (h : splitLoosest links = none) : links = [] := by
  cases links with
  | nil => rfl
  | cons l links =>
    rw [splitLoosest] at h
    split at h
    · cases h
    · split at h <;> cases h

/-- A chain is split at the rightmost of its loosest operators. -/
theorem splitsAt_of_splitLoosest {links before behind : List Link} {loosest : Link}
    (h : splitLoosest links = some (before, loosest, behind)) : SplitsAt links before loosest behind := by
  induction links generalizing before loosest behind with
  | nil => cases h
  | cons l links ih =>
    rw [splitLoosest] at h
    split at h
    · next hnone =>
      cases h
      rw [splitLoosest_eq_none hnone]
      exact ⟨rfl, by simp, by simp⟩
    · next before' loosest' behind' hsome =>
      have hsplit := ih hsome
      split at h
      -- the loosest operator further right is not tighter than the first one, so it stays
      · next hle =>
        cases h
        exact ⟨by rw [hsplit.eq_append]; rfl, List.forall_mem_cons.2 ⟨hle, hsplit.le_before⟩, hsplit.lt_behind⟩
      -- the first operator is looser than all behind it
      · next hlt =>
        cases h
        refine ⟨rfl, by simp, ?_⟩
        intro m hm
        rw [hsplit.eq_append, List.mem_append, List.mem_cons] at hm
        obtain hm | rfl | hm := hm
        · have := hsplit.le_before m hm
          omega
        · omega
        · have := hsplit.lt_behind m hm
          omega

/-- There is one place to split at. -/
theorem splitLoosest_of_splitsAt {links before behind : List Link} {loosest : Link}
    (h : SplitsAt links before loosest behind) : splitLoosest links = some (before, loosest, behind) := by
  induction before generalizing links with
  | nil =>
    rw [h.eq_append, List.nil_append, splitLoosest]
    split
    · rfl
    · next before' loosest' behind' hsome =>
      have hsplit := splitsAt_of_splitLoosest hsome
      have := h.lt_behind loosest' (by rw [hsplit.eq_append]; simp)
      rw [if_neg (by omega)]
  | cons l before ih =>
    have hrest : splitLoosest (before ++ loosest :: behind) = some (before, loosest, behind) :=
      ih ⟨rfl, fun m hm => h.le_before m (List.mem_cons_of_mem _ hm), h.lt_behind⟩
    rw [h.eq_append, List.cons_append, splitLoosest, hrest]
    simp only [h.le_before l List.mem_cons_self, if_true]

/-- The tree of an operand and a chain behind it: it is split at the rightmost of the loosest operators, and what is
on either side of it is split again. -/
def tree (first : Expr) (links : List Link) : Expr :=
  match _h : splitLoosest links with
  | none => first
  | some (before, loosest, behind) =>
    .binary loosest.op (tree first before) (tree loosest.operand behind) loosest.loc
termination_by links.length
decreasing_by
  all_goals
    rw [(splitsAt_of_splitLoosest _h).eq_append, List.length_append, List.length_cons]
    omega

@[simp] theorem tree_nil (first : Expr) : tree first [] = first := by
  rw [tree]
  rfl

/-- The root of a tree is the operator that its chain is split at. -/
theorem tree_append {before behind : List Link} {l : Link} (first : Expr)
    (hbefore : ∀ m ∈ before, l.precedence ≤ m.precedence) (hbehind : ∀ m ∈ behind, l.precedence < m.precedence) :
    tree first (before ++ l :: behind) = .binary l.op (tree first before) (tree l.operand behind) l.loc := by
  have hsplit := splitLoosest_of_splitsAt ⟨rfl, hbefore, hbehind⟩
  rw [tree]
  split
  · next hnone =>
    rw [hsplit] at hnone
    cases hnone
  · next hsome =>
    rw [hsplit] at hsome
    cases hsome
    rfl

end Link

/-! ## Reading chains -/

/-- Before some others, the tokens are read as the operand `e`, and nothing is read of the others. -/
def IsOperand (r : Reader) (tokens : List Token) (e : Expr) : Prop :=
  ∃ after, Production.operand.read.run (r.withRest (tokens ++ after)) = .ok e (r.withRest after)

open Link

variable {r : Reader} {tail : List Token}

/-- Neither an operator nor what ends an expression goes on with a name. -/
theorem extendsName_chain (htail : (r.withRest tail).next.lexeme.endsExpression) (links : List Link) :
    (r.withRest (chain links ++ tail)).next.lexeme.extendsName = false := by
  cases links with
  | nil => exact (Follows.of_endsExpression htail 0).not_extendsName
  | cons l links =>
    rw [chain_cons, List.cons_append, Reader.next_withRest_cons]
    cases l.op <;> rfl

theorem IsOperand.run_read {tokens : List Token} {e : Expr} (h : IsOperand r tokens e)
    (htail : (r.withRest tail).next.lexeme.extendsName = false) :
    Production.operand.read.run (r.withRest (tokens ++ tail)) = .ok e (r.withRest tail) := by
  obtain ⟨after, hrun⟩ := h
  exact run_operand_append tail hrun htail

theorem run_operators_of_lt {least : Int} {left : Expr}
    (h : ∀ op ∈ Operator.ofLexeme? r.next.lexeme, op.precedence < least) :
    (Production.operators least left).read.run r = .ok left r := by
  rw [Production.run_read]
  exact run_operatorsFrom_of_lt (by rw [r.depth_eq]; omega) h

/-- The first operator of a chain is read, if it binds tightly enough, and then its right operand. -/
theorem run_operators_cons {least : Int} {left : Expr} {l : Link} (h : l.bindsFrom least) (ts : List Token) :
    (Production.operators least left).read.run (r.withRest (⟨.symbol l.op.symbol, l.loc⟩ :: ts)) =
      EStateM.run (do
        let right ← (Production.expression (l.precedence + 1)).read
        (Production.operators least (.binary l.op left right l.loc)).read) (r.withRest ts) := by
  have hop : (Operator.ofSymbol? l.op.symbol).filter (least ≤ ·.precedence) = some l.op := by
    rw [Operator.ofSymbol?_eq_some_iff.2 rfl, Option.filter_some]
    exact if_pos h
  rw [← Production.run_unfold, Production.unfold, operatorsBy, run_bind_of_ok (run_current _),
    run_bind_of_ok (run_operatorFrom? least _)]
  simp only [Reader.next_withRest_cons, Operator.ofLexeme?, hop]
  rw [run_bind_of_ok (run_advance_cons ..)]
  rfl

/-- An expression is read from an operand and a chain as the operators of the chain are read behind the operand. -/
theorem run_expression_of_operators {least : Int} {tokens : List Token} {first e : Expr} {links : List Link}
    {r' : Reader} (hfirst : IsOperand r tokens first) (htail : (r.withRest tail).next.lexeme.endsExpression)
    (h : (Production.operators least first).read.run (r.withRest (chain links ++ tail)) = .ok e r') :
    (Production.expression least).read.run (r.withRest (tokens ++ (chain links ++ tail))) = .ok e r' := by
  rw [← Production.run_unfold, Production.unfold, expressionBy]
  have hoperand := hfirst.run_read (extendsName_chain htail links)
  exact (run_bind_of_ok hoperand).trans h

/-- Behind `done`, the operators of a chain are read into the tree of `done` and of those that bind tightly enough. So
far no operator is looser than the next one: that is what puts the next one at the root. -/
theorem run_operators_chain {links : List Link} (hlinks : ∀ l ∈ links, IsOperand r l.tokens l.operand)
    (htail : (r.withRest tail).next.lexeme.endsExpression) (least : Int) (first : Expr) (done : List Link)
    (hdone : ∀ next ∈ links.head?, ∀ l ∈ done, next.precedence ≤ l.precedence) :
    (Production.operators least (tree first done)).read.run (r.withRest (chain links ++ tail)) =
      .ok (tree first (done ++ links.takeWhile (bindsFrom least)))
        (r.withRest (chain (links.dropWhile (bindsFrom least)) ++ tail)) := by
  induction hn : links.length using Nat.strong_induction_on generalizing links least first done with
  | _ n ih =>
    subst hn
    cases links with
    | nil =>
      rw [List.takeWhile_nil, List.dropWhile_nil, List.append_nil]
      refine run_operators_of_lt fun op hop => ?_
      have := (Follows.of_endsExpression htail (least - 1)).precedence_le op hop
      omega
    | cons l links =>
      by_cases hleast : l.bindsFrom least
      · -- the right operand takes the tighter operators, and the loop goes on behind them
        obtain ⟨htakeWhile, hdropWhile⟩ := span_bindsFrom_cons hleast links
        set taken := links.takeWhile (bindsFrom (l.precedence + 1))
        set rest := links.dropWhile (bindsFrom (l.precedence + 1))
        have hoperands := fun m hm => hlinks m (List.mem_cons_of_mem l hm)
        have hright := ih links.length (by simp) hoperands (l.precedence + 1) l.operand [] (by simp) rfl
        rw [tree_nil, List.nil_append] at hright
        have hright := run_expression_of_operators (hlinks l List.mem_cons_self) htail hright
        have hbefore := hdone l rfl
        have hbehind : ∀ m ∈ taken, l.precedence < m.precedence := fun m hm => lt_of_mem_takeWhile hm
        have hnext : ∀ next ∈ rest.head?, ∀ m ∈ done ++ l :: taken, next.precedence ≤ m.precedence := by
          intro next hhead m hm
          have hle : next.precedence ≤ l.precedence := le_of_mem_head?_dropWhile hhead
          obtain hm | rfl | hm := by simpa using hm
          · exact hle.trans (hbefore m hm)
          · exact hle
          · exact hle.trans (hbehind m hm).le
        have hsuffix : rest <:+ links := List.dropWhile_suffix _
        have hloop := ih rest.length (by simpa using Nat.lt_succ_of_le hsuffix.length_le)
          (fun m hm => hoperands m (hsuffix.subset hm)) least first (done ++ l :: taken) hnext rfl
        rw [chain_cons, List.cons_append, List.append_assoc, run_operators_cons hleast, run_bind_of_ok hright,
          ← tree_append first hbefore hbehind, hloop, htakeWhile, hdropWhile, List.append_assoc]
      · have hlt : l.precedence < least := by simpa [bindsFrom] using hleast
        rw [List.takeWhile_cons_of_neg hleast, List.dropWhile_cons_of_neg hleast, List.append_nil]
        refine run_operators_of_lt fun op hop => ?_
        have hsome : Operator.ofSymbol? l.op.symbol = some op := hop
        rw [Operator.ofSymbol?_eq_some_iff.2 rfl] at hsome
        cases hsome
        exact hlt

/-! ## Expressions from chains -/

/-- An expression that is read from operands with operators between them ends before the first operator that binds
less tightly than `least`, and is the tree of what stands before it. The operands are any tokens that are read as
operands, and what follows on them neither is an operator nor goes on with a name. -/
theorem run_expression_eq_tree {tokens : List Token} {first : Expr} {links : List Link} (least : Int)
    (hfirst : IsOperand r tokens first) (hlinks : ∀ l ∈ links, IsOperand r l.tokens l.operand)
    (htail : (r.withRest tail).next.lexeme.endsExpression) :
    (Production.expression least).read.run (r.withRest (tokens ++ (chain links ++ tail))) =
      .ok (tree first (links.takeWhile (bindsFrom least)))
        (r.withRest (chain (links.dropWhile (bindsFrom least)) ++ tail)) := by
  apply run_expression_of_operators hfirst htail
  have hchain := run_operators_chain hlinks htail least first [] (by simp)
  rwa [tree_nil, List.nil_append] at hchain

/-- `a - b * 2 - f(1) | !d;` where no operator may be looser than `^`. -/
theorem run_expression_eq_tree_sub_mul_sub :
    let r : Reader := { queue := .ofList [], eof := ⟨1, 24⟩ }
    let tokens : List Token := [⟨.identifier "a", ⟨1, 1⟩⟩]
    let first := Expr.ident "a" ⟨1, 1⟩
    let b : Link := ⟨.sub, ⟨1, 3⟩, [⟨.identifier "b", ⟨1, 5⟩⟩], .ident "b" ⟨1, 5⟩⟩
    let two : Link := ⟨.mul, ⟨1, 7⟩, [⟨.number "2", ⟨1, 9⟩⟩], .number "2" ⟨1, 9⟩⟩
    let f : Link := ⟨.sub, ⟨1, 11⟩, [⟨.identifier "f", ⟨1, 13⟩⟩, ⟨.symbol .openParen, ⟨1, 14⟩⟩, ⟨.number "1", ⟨1, 15⟩⟩,
      ⟨.symbol .closeParen, ⟨1, 16⟩⟩], .call "f" [.number "1" ⟨1, 15⟩] ⟨1, 13⟩⟩
    let d : Link := ⟨.bitOr, ⟨1, 18⟩, [⟨.symbol .bang, ⟨1, 20⟩⟩, ⟨.identifier "d", ⟨1, 21⟩⟩],
      .unary .not (.ident "d" ⟨1, 21⟩) ⟨1, 20⟩⟩
    let tail : List Token := [⟨.symbol .semicolon, ⟨1, 22⟩⟩]
    IsOperand r tokens first ∧ (∀ l ∈ [b, two, f, d], IsOperand r l.tokens l.operand) ∧
      (r.withRest tail).next.lexeme.endsExpression ∧
      (Production.expression 1).read.run (r.withRest (tokens ++ (chain [b, two, f, d] ++ tail))) =
        .ok (.binary .sub (.binary .sub first (.binary .mul b.operand two.operand two.loc) b.loc) f.operand f.loc)
          (r.withRest (chain [d] ++ tail)) := by
  intro r tokens first b two f d tail
  have hfirst : IsOperand r tokens first := ⟨[], rfl⟩
  have hlinks : ∀ l ∈ [b, two, f, d], IsOperand r l.tokens l.operand := by
    intro l hl
    obtain rfl | rfl | rfl | rfl : l = b ∨ l = two ∨ l = f ∨ l = d := by simpa using hl
    all_goals exact ⟨[], rfl⟩
  have htail : (r.withRest tail).next.lexeme.endsExpression := rfl
  have htree : tree first [b, two, f] =
      .binary .sub (.binary .sub first (.binary .mul b.operand two.operand two.loc) b.loc) f.operand f.loc := by
    simp [tree, splitLoosest, precedence, Operator.precedence, b, two, f]
  refine ⟨hfirst, hlinks, htail, ?_⟩
  rw [← htree]
  exact run_expression_eq_tree 1 hfirst hlinks htail

end ClockedC.Grammar
