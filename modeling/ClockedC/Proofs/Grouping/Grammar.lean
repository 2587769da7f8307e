import ClockedC.Proofs.Grouping.Lexemes

/-!
# The grammar of VHDL expressions

Operators bind in levels: the logical ones loosest, then comparisons, then `+` and `-`, then `*` and `/`, and `not`
tightest. A sign may stand only where the operands of `+` and `-` begin. Operators of one level group to the left. No
list of lexemes can be read in two ways.
-/

namespace ClockedC.Vhdl

variable {rest ts : List Lexeme}

/-! ## The grammar -/

/-- An operator tree. Calls, conversions and elements of arrays are all applications. -/
inductive Tree where
  | literal (text : String)
  | name (text : String)
  | select (base : Tree) (field : String)
  | apply (function : Tree) (args : List Tree)
  | sign (op : Operator) (operand : Tree)
  | not (operand : Tree)
  | binary (op : Operator) (left right : Tree)
  deriving Repr, Inhabited

/-- The kinds of phrases in an expression, each one a phrase of the kinds before it. -/
inductive Phrase where
  | expression
  | relation
  | simple
  | term
  | factor
  | primary
  | name
  deriving DecidableEq, Repr

namespace Phrase

/-- The place of a kind among all. -/
def rank : Phrase → Nat
  | expression => 0
  | relation => 1
  | simple => 2
  | term => 3
  | factor => 4
  | primary => 5
  | name => 6

/-- The kind that is next tighter. -/
def next : Phrase → Phrase
  | expression => relation
  | relation => simple
  | simple => term
  | term => factor
  | factor => primary
  | primary => name
  | name => name

theorem rank_next {c : Phrase} (h : c ≠ name) : c.next.rank = c.rank + 1 := by
  cases c with
  | name => exact absurd rfl h
  | _ => rfl

end Phrase

/-- The kind of phrase that an operator makes. -/
def Operator.phrase : Operator → Phrase
  | and | or | xor => .expression
  | eq | ne | lt | le | gt | ge => .relation
  | add | sub => .simple
  | mul | div => .term

/-- The lexemes are a phrase of the given kind and are read as the given tree. -/
inductive Reads : Phrase → List Lexeme → Tree → Prop
  | lift {c : Phrase} {ts : List Lexeme} {t : Tree} (h : Reads c.next ts t) : Reads c ts t
  | binary (op : Operator) {ts us : List Lexeme} {t u : Tree} (hleft : Reads op.phrase ts t)
      (hright : Reads op.phrase.next us u) : Reads op.phrase (ts ++ .operator op :: us) (.binary op t u)
  | sign {op : Operator} (hop : op.phrase = .simple) {ts : List Lexeme} {t : Tree} (h : Reads .term ts t) :
      Reads .simple (.operator op :: ts) (.sign op t)
  | not {ts : List Lexeme} {t : Tree} (h : Reads .primary ts t) : Reads .factor (.not :: ts) (.not t)
  | number (text : String) : Reads .primary [.number text] (.literal text)
  | paren {ts : List Lexeme} {t : Tree} (h : Reads .expression ts t) :
      Reads .primary (.openParen :: (ts ++ [.closeParen])) t
  | name (text : String) : Reads .name [.name text] (.name text)
  | select {ts : List Lexeme} {t : Tree} (h : Reads .name ts t) (field : String) :
      Reads .name (ts ++ [.dot, .name field]) (.select t field)
  | apply {ts : List Lexeme} {t : Tree} (h : Reads .name ts t) (args : List (List Lexeme × Tree))
      (hargs : ∀ arg ∈ args, Reads .expression arg.1 arg.2) :
      Reads .name (ts ++ .openParen :: ([.comma].intercalate (args.map Prod.fst) ++ [.closeParen]))
        (.apply t (args.map Prod.snd))

/-- A phrase is a phrase of every looser kind. -/
theorem Reads.mono {c c' : Phrase} {t : Tree} (h : Reads c ts t) (hle : c'.rank ≤ c.rank) : Reads c' ts t := by
  obtain ⟨d, hd⟩ := Nat.exists_eq_add_of_le hle
  induction d generalizing c' with
  | zero =>
    have hc : c' = c := by cases c <;> cases c' <;> simp_all [Phrase.rank]
    rwa [hc]
  | succ d ih =>
    have hname : c' ≠ .name := by
      rintro rfl
      cases c <;> simp [Phrase.rank] at hd <;> omega
    have hrank := Phrase.rank_next hname
    exact .lift (ih (by omega) (by omega))

/-! ## Reading from left to right -/

mutual

/-- Reads a phrase at the beginning of the lexemes: its first part, and then what goes on with it. -/
def readAt : Nat → Phrase → List Lexeme → Option (Tree × List Lexeme)
  | 0, _, _ => none
  | n + 1, c, ts => (readFirst n c ts).bind fun x => readMore n c x.1 x.2

/-- Reads the first part of a phrase. -/
def readFirst : Nat → Phrase → List Lexeme → Option (Tree × List Lexeme)
  | 0, _, _ => none
  | _ + 1, .name, .name text :: rest => some (.name text, rest)
  | _ + 1, .name, _ => none
  | _ + 1, .primary, .number text :: rest => some (.literal text, rest)
  | n + 1, .primary, .openParen :: rest =>
    (readAt n .expression rest).bind fun x => if x.2.head? = some .closeParen then some (x.1, x.2.tail) else none
  | n + 1, .factor, .not :: rest => (readAt n .primary rest).map fun x => (.not x.1, x.2)
  | n + 1, .simple, .operator op :: rest =>
    if op.phrase = .simple then (readAt n .term rest).map fun x => (.sign op x.1, x.2) else none
  | n + 1, c, ts => readAt n c.next ts

/-- Goes on with a phrase behind a part that is read as `t`. -/
def readMore : Nat → Phrase → Tree → List Lexeme → Option (Tree × List Lexeme)
  | 0, _, _, _ => none
  | n + 1, .name, t, .dot :: .name field :: rest => readMore n .name (.select t field) rest
  | n + 1, .name, t, .openParen :: rest =>
    (readArguments n rest).bind fun x => readMore n .name (.apply t x.1) x.2
  | n + 1, c, t, .operator op :: rest =>
    if op.phrase = c then (readAt n c.next rest).bind fun x => readMore n c (.binary op t x.1) x.2
    else some (t, .operator op :: rest)
  | _ + 1, _, t, rest => some (t, rest)

/-- Reads arguments and the parenthesis behind them. -/
def readArguments : Nat → List Lexeme → Option (List Tree × List Lexeme)
  | 0, _ => none
  | _ + 1, .closeParen :: rest => some ([], rest)
  | n + 1, ts => (readAt n .expression ts).bind fun x => readFurther n x.1 x.2

/-- Goes on behind an argument that is read as `t`. -/
def readFurther : Nat → Tree → List Lexeme → Option (List Tree × List Lexeme)
  | 0, _, _ => none
  | _ + 1, t, .closeParen :: rest => some ([t], rest)
  | n + 1, t, .comma :: rest =>
    (readAt n .expression rest).bind fun x => (readFurther n x.1 x.2).map fun y => (t :: y.1, y.2)
  | _ + 1, _, _ => none

end

/-! ## Enough depth -/

/-- From some depth on, the reading gives `a`. -/
def Gives {α : Type} (f : Nat → Option α) (a : α) : Prop := ∃ least, ∀ n, least ≤ n → f n = some a

namespace Gives

variable {α β : Type} {f : Nat → Option α} {a : α}

/-- What is found from some depth on is one thing only. -/
theorem unique {a' : α} (h : Gives f a) (h' : Gives f a') : a = a' := by
  obtain ⟨least, hleast⟩ := h
  obtain ⟨least', hleast'⟩ := h'
  exact Option.some.inj ((hleast _ (Nat.le_max_left ..)).symm.trans (hleast' _ (Nat.le_max_right ..)))

/-- What is found at every depth is found. -/
theorem of_forall (h : ∀ n, f n = some a) : Gives f a := ⟨0, fun n _ => h n⟩

/-- One more step in depth does not matter. -/
theorem of_succ (h : Gives (fun n => f (n + 1)) a) : Gives f a := by
  obtain ⟨least, hleast⟩ := h
  refine ⟨least + 1, fun n hn => ?_⟩
  cases n with
  | zero => omega
  | succ n => exact hleast n (by omega)

/-- Two steps find their results from the greater of two depths on. -/
theorem bind {g : α → Nat → Option β} {b : β} (hf : Gives f a) (hg : Gives (g a) b) :
    Gives (fun n => (f n).bind fun x => g x n) b := by
  obtain ⟨least, hleast⟩ := hf
  obtain ⟨least', hleast'⟩ := hg
  refine ⟨max least least', fun n hn => ?_⟩
  simp only [hleast n (by omega), Option.bind_some]
  exact hleast' n (by omega)

/-- What is made of a result is found where the result is. -/
theorem map {g : α → β} (hf : Gives f a) : Gives (fun n => (f n).map g) (g a) := by
  obtain ⟨least, hleast⟩ := hf
  refine ⟨least, fun n hn => ?_⟩
  simp only [hleast n hn, Option.map_some]

end Gives

/-! ## Where phrases begin and end -/

/-- The lexeme may begin a phrase. -/
def Begins (c : Phrase) : Lexeme → Prop
  | .name _ => True
  | .number _ | .openParen => c.rank ≤ Phrase.primary.rank
  | .not => c.rank ≤ Phrase.factor.rank
  | .operator op => c.rank ≤ Phrase.simple.rank ∧ op.phrase = .simple
  | _ => False

/-- What begins a tight phrase begins a looser one. -/
theorem Begins.mono {c c' : Phrase} {l : Lexeme} (h : Begins c l) (hle : c'.rank ≤ c.rank) : Begins c' l := by
  cases l with
  | name text => trivial
  | number text => exact hle.trans h
  | openParen => exact hle.trans h
  | not => exact hle.trans h
  | operator op => exact ⟨hle.trans h.1, h.2⟩
  | _ => exact h.elim

theorem Phrase.rank_le_rank_next (c : Phrase) : c.rank ≤ c.next.rank := by
  cases c <;> decide

/-- A phrase begins as its kind allows. -/
theorem Reads.begins {c : Phrase} {t : Tree} (h : Reads c ts t) : ∃ l ls, ts = l :: ls ∧ Begins c l := by
  induction h with
  | lift h ih =>
    obtain ⟨l, ls, hts, hl⟩ := ih
    exact ⟨l, ls, hts, hl.mono (Phrase.rank_le_rank_next _)⟩
  | binary op hleft hright ihleft =>
    obtain ⟨l, ls, rfl, hl⟩ := ihleft
    exact ⟨l, _, rfl, hl⟩
  | sign hop h => exact ⟨_, _, rfl, Nat.le_refl _, hop⟩
  | not h => exact ⟨_, _, rfl, Nat.le_refl _⟩
  | number text => exact ⟨_, _, rfl, Nat.le_refl _⟩
  | paren h => exact ⟨_, _, rfl, Nat.le_refl _⟩
  | name text => exact ⟨_, _, rfl, trivial⟩
  | select h field ih =>
    obtain ⟨l, ls, rfl, hl⟩ := ih
    exact ⟨l, _, rfl, hl⟩
  | apply h args hargs ih =>
    obtain ⟨l, ls, rfl, hl⟩ := ih
    exact ⟨l, _, rfl, hl⟩

/-- What begins a tighter phrase is read as one. -/
theorem readFirst_eq_readAt {c : Phrase} (hc : c ≠ .name) {l : Lexeme} (hl : Begins c.next l) (ls : List Lexeme)
    (n : Nat) : readFirst (n + 1) c (l :: ls) = readAt n c.next (l :: ls) := by
  cases c with
  | name => exact absurd rfl hc
  | primary =>
    cases l with
    | number text => exact absurd hl (by simp [Begins, Phrase.next, Phrase.rank])
    | openParen => exact absurd hl (by simp [Begins, Phrase.next, Phrase.rank])
    | _ => rfl
  | factor =>
    cases l with
    | not => exact absurd hl (by simp [Begins, Phrase.next, Phrase.rank])
    | _ => rfl
  | simple =>
    cases l with
    | operator op => exact absurd hl (by simp [Begins, Phrase.next, Phrase.rank])
    | _ => rfl
  | _ => rfl

/-- What follows is no part of a name, and an operator makes a phrase of a kind that is looser than the rank `k`. -/
def Ends (k : Nat) (rest : List Lexeme) : Prop :=
  ∀ l ∈ rest.head?, l ≠ .openParen ∧ l ≠ .dot ∧ ∀ op, l = .operator op → op.phrase.rank < k

/-- What ends a loose phrase ends a tighter one. -/
theorem Ends.mono {k k' : Nat} (h : Ends k rest) (hle : k ≤ k') : Ends k' rest :=
  fun l hl => ⟨(h l hl).1, (h l hl).2.1, fun op hop => ((h l hl).2.2 op hop).trans_le hle⟩

theorem ends_nil : Ends 0 [] := fun _ hl => nomatch hl

/-- A closing parenthesis ends every phrase. -/
theorem ends_closeParen (rest : List Lexeme) : Ends 0 (.closeParen :: rest) := by
  rintro l ⟨⟩
  exact ⟨nofun, nofun, nofun⟩

/-- A comma ends every phrase. -/
theorem ends_comma (rest : List Lexeme) : Ends 0 (.comma :: rest) := by
  rintro l ⟨⟩
  exact ⟨nofun, nofun, nofun⟩

theorem ends_operator (op : Operator) (rest : List Lexeme) : Ends (op.phrase.rank + 1) (.operator op :: rest) := by
  rintro l ⟨⟩
  refine ⟨nofun, nofun, ?_⟩
  rintro op' ⟨⟩
  exact Nat.lt_succ_self _

/-- Nothing goes on with a phrase of a kind that is not looser. -/
theorem gives_readMore_of_ends {k : Nat} {c : Phrase} (h : Ends k rest) (hle : k ≤ c.rank) (t : Tree) :
    Gives (readMore · c t rest) (t, rest) := by
  refine .of_succ (.of_forall fun n => ?_)
  cases rest with
  | nil => cases c <;> rfl
  | cons l rest =>
    obtain ⟨hopen, hdot, hoperator⟩ := h l rfl
    cases l with
    | operator op =>
      have hne : op.phrase ≠ c := by
        rintro rfl
        exact absurd (hoperator op rfl) (by omega)
      cases c <;> exact if_neg hne
    | openParen => exact absurd rfl hopen
    | dot => exact absurd rfl hdot
    | _ => cases c <;> rfl

/-! ## Unambiguity -/

theorem gives_readAt_of_first {c : Phrase} {t : Tree} {result : Tree × List Lexeme}
    (hfirst : Gives (readFirst · c ts) (t, rest)) (hmore : Gives (readMore · c t rest) result) :
    Gives (readAt · c ts) result :=
  .of_succ (hfirst.bind (g := fun (x : Tree × List Lexeme) n => readMore n c x.1 x.2) hmore)

theorem readMore_operator (op : Operator) (t : Tree) (rest : List Lexeme) (n : Nat) :
    readMore (n + 1) op.phrase t (.operator op :: rest) =
      (readAt n op.phrase.next rest).bind fun x => readMore n op.phrase (.binary op t x.1) x.2 := by
  cases op <;> rfl

theorem Operator.phrase_ne_name (op : Operator) : op.phrase ≠ .name := by
  cases op <;> decide

/-- An expression is read up to where nothing goes on with it. -/
def ReadUpTo (ts : List Lexeme) (t : Tree) : Prop :=
  ∀ rest, Ends 0 rest → Gives (readAt · .expression (ts ++ rest)) (t, rest)

theorem ends_further (args : List (List Lexeme × Tree)) (rest : List Lexeme) :
    Ends 0 ((args.map fun arg => Lexeme.comma :: arg.1).flatten ++ .closeParen :: rest) := by
  cases args with
  | nil => exact ends_closeParen _
  | cons arg args => exact ends_comma _

/-- Further arguments are read up to their parenthesis. -/
theorem gives_readFurther {args : List (List Lexeme × Tree)} (hargs : ∀ arg ∈ args, ReadUpTo arg.1 arg.2) (t : Tree)
    (rest : List Lexeme) :
    Gives (readFurther · t ((args.map fun arg => Lexeme.comma :: arg.1).flatten ++ .closeParen :: rest))
      (t :: args.map Prod.snd, rest) := by
  induction args generalizing t with
  | nil => exact .of_succ (.of_forall fun n => rfl)
  | cons arg args ih =>
    rw [List.forall_mem_cons] at hargs
    simp only [List.map_cons, List.flatten_cons, List.cons_append, List.append_assoc]
    refine .of_succ ((hargs.1 _ (ends_further args rest)).bind (g := fun (x : Tree × List Lexeme) n =>
      (readFurther n x.1 x.2).map fun (y : List Tree × List Lexeme) => (t :: y.1, y.2)) ?_)
    exact (ih hargs.2 arg.2).map

theorem intercalate_comma (ts : List Lexeme) (tss : List (List Lexeme)) :
    [Lexeme.comma].intercalate (ts :: tss) = ts ++ (tss.map (Lexeme.comma :: ·)).flatten := by
  induction tss generalizing ts with
  | nil => simp [List.intercalate]
  | cons us tss ih => simp_all [List.intercalate]

/-- What begins an expression begins arguments. -/
theorem readArguments_of_begins {c : Phrase} {l : Lexeme} (h : Begins c l) (ls : List Lexeme) (n : Nat) :
    readArguments (n + 1) (l :: ls) =
      (readAt n .expression (l :: ls)).bind fun x => readFurther n x.1 x.2 := by
  cases l with
  | closeParen => exact h.elim
  | _ => rfl

/-- Arguments are read up to their parenthesis. -/
theorem gives_readArguments {args : List (List Lexeme × Tree)}
    (hargs : ∀ arg ∈ args, Reads .expression arg.1 arg.2 ∧ ReadUpTo arg.1 arg.2) (rest : List Lexeme) :
    Gives (readArguments · ([.comma].intercalate (args.map Prod.fst) ++ .closeParen :: rest))
      (args.map Prod.snd, rest) := by
  cases args with
  | nil => exact .of_succ (.of_forall fun n => rfl)
  | cons arg args =>
    rw [List.forall_mem_cons] at hargs
    obtain ⟨⟨hreads, hfirst⟩, hrest⟩ := hargs
    have hfurther := gives_readFurther (fun arg harg => (hrest arg harg).2) arg.2 rest
    have hgives := (hfirst _ (ends_further args rest)).bind
      (g := fun (x : Tree × List Lexeme) n => readFurther n x.1 x.2) hfurther
    obtain ⟨l, ls, hl, hbegins⟩ := hreads.begins
    refine .of_succ ?_
    rw [List.map_cons, intercalate_comma, List.map_map, List.append_assoc]
    simp only [hl, List.cons_append, readArguments_of_begins hbegins] at hgives ⊢
    exact hgives

/-- The reader finds whatever the grammar allows, and goes on behind it. -/
theorem Reads.gives_readAt {c : Phrase} {t : Tree} (h : Reads c ts t) {result : Tree × List Lexeme}
    (hends : c ≠ .name → Ends (c.rank + 1) rest) (hmore : Gives (readMore · c t rest) result) :
    Gives (readAt · c (ts ++ rest)) result := by
  -- `result` stays open: reading goes on behind an operand in the loop that has read it
  induction h generalizing rest result with
  | @lift c ts t h ih =>
    by_cases hc : c = .name
    · subst hc
      exact ih hends hmore
    · have hrank := Phrase.rank_next hc
      obtain ⟨l, ls, rfl, hl⟩ := h.begins
      have hinner : Gives (readAt · c.next (l :: ls ++ rest)) (t, rest) :=
        ih (fun _ => (hends hc).mono (by omega)) (gives_readMore_of_ends (hends hc) (by omega) t)
      refine gives_readAt_of_first (.of_succ ?_) hmore
      simp only [List.cons_append, readFirst_eq_readAt hc hl]
      exact hinner
  | @binary op ts us t u hleft hright ihleft ihright =>
    have hrank := Phrase.rank_next op.phrase_ne_name
    have hend := hends op.phrase_ne_name
    have hoperand : Gives (readAt · op.phrase.next (us ++ rest)) (u, rest) :=
      ihright (fun _ => hend.mono (by omega)) (gives_readMore_of_ends hend (by omega) u)
    rw [List.append_assoc, List.cons_append]
    -- the operator and its right operand are what the loop finds behind the left one
    refine ihleft (fun _ => ends_operator op _) (.of_succ ?_)
    simp only [readMore_operator]
    exact hoperand.bind (g := fun (x : Tree × List Lexeme) n => readMore n op.phrase (.binary op t x.1) x.2) hmore
  | @sign op hop ts t h ih =>
    have hend := hends (by decide)
    have hoperand : Gives (readAt · .term (ts ++ rest)) (t, rest) :=
      ih (fun _ => hend.mono (by decide)) (gives_readMore_of_ends hend (by decide) t)
    refine gives_readAt_of_first (.of_succ ?_) hmore
    simp only [List.cons_append, readFirst, hop, if_true]
    exact hoperand.map
  | @not ts t h ih =>
    have hend := hends (by decide)
    have hoperand : Gives (readAt · .primary (ts ++ rest)) (t, rest) :=
      ih (fun _ => hend.mono (by decide)) (gives_readMore_of_ends hend (by decide) t)
    exact gives_readAt_of_first (.of_succ hoperand.map) hmore
  | number text => exact gives_readAt_of_first (.of_succ (.of_forall fun n => rfl)) hmore
  | @paren ts t h ih =>
    have hend := ends_closeParen rest
    have hinner : Gives (readAt · .expression (ts ++ .closeParen :: rest)) (t, .closeParen :: rest) :=
      ih (fun _ => hend.mono (by omega)) (gives_readMore_of_ends hend (by omega) t)
    refine gives_readAt_of_first (.of_succ ?_) hmore
    simp only [List.cons_append, List.append_assoc, List.nil_append]
    exact hinner.bind (g := fun (x : Tree × List Lexeme) _ =>
      if x.2.head? = some .closeParen then some (x.1, x.2.tail) else none) (.of_forall fun n => rfl)
  | name text => exact gives_readAt_of_first (.of_succ (.of_forall fun n => rfl)) hmore
  | select h field ih =>
    rw [List.append_assoc]
    exact ih (fun hne => absurd rfl hne) (.of_succ hmore)
  | @apply ts t h args hargs ih ihargs =>
    have hargs' : ∀ arg ∈ args, Reads .expression arg.1 arg.2 ∧ ReadUpTo arg.1 arg.2 := by
      intro arg harg
      refine ⟨hargs arg harg, fun rest hend => ?_⟩
      exact ihargs arg harg (fun _ => hend.mono (by omega)) (gives_readMore_of_ends hend (by omega) arg.2)
    rw [List.append_assoc, List.cons_append, List.append_assoc]
    refine ih (fun hne => absurd rfl hne) (.of_succ ?_)
    exact (gives_readArguments hargs' rest).bind
      (g := fun (x : List Tree × List Lexeme) n => readMore n .name (.apply t x.1) x.2) hmore

/-- **The grammar is unambiguous.** Lexemes are read as one tree at most. -/
theorem Reads.unique {t t' : Tree} (h : Reads .expression ts t) (h' : Reads .expression ts t') : t = t' := by
  have hgives : ∀ {t}, Reads .expression ts t → Gives (readAt · .expression (ts ++ [])) (t, []) :=
    fun h => h.gives_readAt (fun _ => ends_nil.mono (by omega)) (gives_readMore_of_ends ends_nil (by omega) _)
  exact congrArg Prod.fst ((hgives h).unique (hgives h'))

end ClockedC.Vhdl
