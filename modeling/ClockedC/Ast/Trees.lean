import ClockedC.Ast.Expr

/-!
# Going through trees

A function on trees whose nodes hold lists of trees comes with a companion on such lists, which goes from one tree to
the next. What the companion does is said by what the function does to each tree.

* `eq_map_of_cons`, `eq_flatMap_of_cons` : companions that put together one result, or several, for each tree;
* `forall_iff_of_cons` : companions that ask something of each tree;
* `Expr.induction` : induction over expressions;
* `Expr.nodes` : an expression and all below its outermost node.
-/

namespace ClockedC

/-! ## Companions -/

section Companions

variable {α β : Type}

/-- A companion that has one result for each tree is a map. -/
theorem eq_map_of_cons {f : α → β} {companion : List α → List β} (hnil : companion [] = [])
    (hcons : ∀ a as, companion (a :: as) = f a :: companion as) (as : List α) : companion as = as.map f := by
  induction as with
  | nil => exact hnil
  | cons a as ih => rw [hcons, ih, List.map_cons]

/-- A companion that has several results for each tree puts them together in the order of the trees. -/
theorem eq_flatMap_of_cons {f : α → List β} {companion : List α → List β} (hnil : companion [] = [])
    (hcons : ∀ a as, companion (a :: as) = f a ++ companion as) (as : List α) : companion as = as.flatMap f := by
  induction as with
  | nil => exact hnil
  | cons a as ih => rw [hcons, ih, List.flatMap_cons]

/-- A companion that asks something of the first tree and then of the others asks it of all. -/
theorem forall_iff_of_cons {P : α → Prop} {companion : List α → Prop} (hnil : companion [])
    (hcons : ∀ a as, companion (a :: as) ↔ P a ∧ companion as) (as : List α) : companion as ↔ ∀ a ∈ as, P a := by
  induction as with
  | nil => exact ⟨fun _ a ha => absurd ha List.not_mem_nil, fun _ => hnil⟩
  | cons a as ih => rw [hcons, ih, List.forall_mem_cons]

end Companions

/-! ## Expressions -/

namespace Expr

/-- Induction over expressions, with the claim for each argument of a call. -/
@[induction_eliminator] theorem induction {motive : Expr → Prop}
    (number : ∀ text loc, motive (.number text loc))
    (ident : ∀ name loc, motive (.ident name loc))
    (field : ∀ base name loc, motive base → motive (.field base name loc))
    (element : ∀ base index loc, motive base → motive index → motive (.element base index loc))
    (negate : ∀ operand loc, motive operand → motive (.negate operand loc))
    (binary : ∀ op left right loc, motive left → motive right → motive (.binary op left right loc))
    (unary : ∀ op operand loc, motive operand → motive (.unary op operand loc))
    (call : ∀ name args loc, (∀ e ∈ args, motive e) → motive (.call name args loc)) (e : Expr) : motive e := by
  refine @Expr.rec motive (fun es => ∀ e ∈ es, motive e) number ident field element negate binary unary call ?_ ?_ e
  · intro e he
    cases he
  · intro e es he hes e' he'
    rcases List.mem_cons.1 he' with rfl | he'
    · exact he
    · exact hes e' he'

mutual

/-- An expression and all that stands below its outermost node, each as often as it stands there. -/
def nodes : Expr → List Expr
  | number text loc => [number text loc]
  | ident name loc => [ident name loc]
  | field base name loc => field base name loc :: base.nodes
  | element base index loc => element base index loc :: (base.nodes ++ index.nodes)
  | negate operand loc => negate operand loc :: operand.nodes
  | binary op l r loc => binary op l r loc :: (l.nodes ++ r.nodes)
  | unary op operand loc => unary op operand loc :: operand.nodes
  | call name args loc => call name args loc :: nodesOf args

/-- The nodes of several expressions. -/
def nodesOf : List Expr → List Expr
  | [] => []
  | e :: es => e.nodes ++ nodesOf es

end

/-- The nodes of several expressions are those of each in turn. -/
theorem nodesOf_eq_flatMap (es : List Expr) : nodesOf es = es.flatMap nodes :=
  eq_flatMap_of_cons rfl (fun _ _ => rfl) es

end Expr

end ClockedC
