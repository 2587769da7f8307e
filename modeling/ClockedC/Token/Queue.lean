import ClockedC.Token.Basic

/-!
# Token queues

The tokens that are still to be read, with their number at hand. The number is what bounds how deep the grammar
may nest, so it must not be counted again and again.

* `TokenQueue.tail`, `TokenQueue.dropThrough` : the moves, of which the tokens are those of the moves on lists;
* `TokenQueue.ext` : a queue is its tokens.
-/

namespace ClockedC

/-- A list of tokens with its length. -/
structure TokenQueue where
  tokens : List Token
  size : Nat
  size_eq : size = tokens.length

namespace TokenQueue

/-- A list of tokens as a queue. -/
def ofList (tokens : List Token) : TokenQueue := ⟨tokens, tokens.length, rfl⟩

/-- The queue without its first token. -/
def tail (queue : TokenQueue) : TokenQueue where
  tokens := queue.tokens.tail
  size := queue.size - 1
  size_eq := by rw [queue.size_eq, List.length_tail]

/-- The queue behind the first token that satisfies `p`, or behind all if none does. -/
def dropThrough (p : Token → Bool) (queue : TokenQueue) : TokenQueue where
  tokens := (queue.tokens.dropWhile fun t => !p t).tail
  size := queue.size - (queue.tokens.takeWhile fun t => !p t).length - 1
  size_eq := by
    have h := congrArg List.length (List.takeWhile_append_dropWhile (p := fun t => !p t) (l := queue.tokens))
    rw [List.length_append] at h
    rw [queue.size_eq, List.length_tail]
    omega

/-- Queues with the same tokens are equal. -/
@[ext] theorem ext {q q' : TokenQueue} (h : q.tokens = q'.tokens) : q = q' := by
  obtain ⟨tokens, size, hsize⟩ := q
  obtain ⟨tokens', size', hsize'⟩ := q'
  subst hsize hsize' h
  rfl

@[simp] theorem tokens_ofList (tokens : List Token) : (ofList tokens).tokens = tokens := rfl

@[simp] theorem tokens_tail (queue : TokenQueue) : queue.tail.tokens = queue.tokens.tail := rfl

@[simp] theorem tokens_dropThrough (p : Token → Bool) (queue : TokenQueue) :
    (queue.dropThrough p).tokens = (queue.tokens.dropWhile fun t => !p t).tail := rfl

end TokenQueue

end ClockedC
