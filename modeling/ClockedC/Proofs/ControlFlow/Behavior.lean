import Mathlib

/-!
# Behaviors

What an execution does that can be seen from outside. It tests conditions and makes assignments, and after any number
of these actions it may end, in one of several ways. An execution that goes on for ever is watched for finitely many
actions at a time, and what is seen of more actions begins with what is seen of fewer.
-/

namespace ClockedC

variable {condition : String}

/-- Something that an execution does, by the text it has in hardware. -/
inductive Action where
  | test (condition : String)
  | assign (line : String)
  deriving DecidableEq, Repr

/-- A way for an execution to end. -/
inductive Exit where
  | finished
  /-- Out of the innermost loop. -/
  | left
  /-- On to the next round of the innermost loop. -/
  | again
  /-- Out of the function. -/
  | returned
  deriving DecidableEq, Repr

/-! ## Observations -/

/-- What is seen of an execution: some actions, and the way it ends behind them, if it does. -/
structure Observation where
  actions : List Action
  exit : Option Exit
  deriving DecidableEq, Repr

namespace Observation

/-- What was seen when only `n` actions had been watched. -/
def cutAt (n : Nat) (o : Observation) : Observation :=
  if o.actions.length ≤ n then o else ⟨o.actions.take n, none⟩

/-- The observation with an action in front. -/
def prepend (a : Action) (o : Observation) : Observation := ⟨a :: o.actions, o.exit⟩

/-- The observation with the next one behind it if it finished. -/
def followedBy (o : Observation) (next : List Action → Observation) : Observation :=
  match o.exit with
  | some .finished => ⟨o.actions ++ (next o.actions).actions, (next o.actions).exit⟩
  | _ => o

/-- The observation of an execution that finishes where the other ends by `e`. -/
def catching (e : Exit) (o : Observation) : Observation :=
  if o.exit = some e then ⟨o.actions, some .finished⟩ else o

variable {n : Nat} {o : Observation} {next next' : List Action → Observation} {e : Exit}

/-- An observation of few actions is seen whole. -/
theorem cutAt_of_le (h : o.actions.length ≤ n) : o.cutAt n = o := if_pos h

theorem cutAt_of_lt (h : n < o.actions.length) : o.cutAt n = ⟨o.actions.take n, none⟩ := if_neg (by omega)

/-- No more actions are seen than were watched. -/
theorem length_cutAt_le (n : Nat) (o : Observation) : (o.cutAt n).actions.length ≤ n := by
  by_cases h : o.actions.length ≤ n
  · rwa [cutAt_of_le h]
  · rw [cutAt_of_lt (by omega)]
    simp

theorem followedBy_of_finished (h : o.exit = some .finished) :
    o.followedBy next = ⟨o.actions ++ (next o.actions).actions, (next o.actions).exit⟩ := by
  simp only [followedBy, h]

theorem followedBy_of_not_finished (h : o.exit ≠ some .finished) : o.followedBy next = o := by
  unfold followedBy
  split
  · contradiction
  · rfl

/-- What follows an observation comes behind its actions. -/
theorem prefix_followedBy (o : Observation) (next : List Action → Observation) :
    o.actions <+: (o.followedBy next).actions := by
  by_cases h : o.exit = some .finished
  · rw [followedBy_of_finished h]
    exact List.prefix_append ..
  · rw [followedBy_of_not_finished h]

/-- What follows an observation takes no actions away. -/
theorem length_le_length_followedBy (o : Observation) (next : List Action → Observation) :
    o.actions.length ≤ (o.followedBy next).actions.length :=
  (prefix_followedBy o next).length_le

@[simp] theorem cutAt_zero_prepend (a : Action) (o : Observation) : (o.prepend a).cutAt 0 = ⟨[], none⟩ :=
  cutAt_of_lt (by simp [prepend])

@[simp] theorem cutAt_succ_prepend (a : Action) (n : Nat) (o : Observation) :
    (o.prepend a).cutAt (n + 1) = (o.cutAt n).prepend a := by
  by_cases h : o.actions.length ≤ n
  · have hshort : (o.prepend a).actions.length ≤ n + 1 := Nat.succ_le_succ h
    rw [cutAt_of_le h, cutAt_of_le hshort]
  · have hlong : n + 1 < (o.prepend a).actions.length := Nat.succ_lt_succ (Nat.lt_of_not_le h)
    rw [cutAt_of_lt (Nat.lt_of_not_le h), cutAt_of_lt hlong]
    rfl

/-- Less is seen of two executions in turn if less is seen of the second. -/
theorem followedBy_cutAt
    (h : o.actions.length ≤ n → next' o.actions = (next o.actions).cutAt (n - o.actions.length)) :
    (o.cutAt n).followedBy next' = (o.followedBy next).cutAt n := by
  by_cases hlength : o.actions.length ≤ n
  · rw [cutAt_of_le hlength]
    by_cases hexit : o.exit = some .finished
    · rw [followedBy_of_finished hexit, followedBy_of_finished hexit, h hlength]
      by_cases hnext : (next o.actions).actions.length ≤ n - o.actions.length
      · rw [cutAt_of_le hnext, cutAt_of_le]
        simp only [List.length_append]
        omega
      · rw [cutAt_of_lt (by omega), cutAt_of_lt]
        · rw [List.take_append, List.take_of_length_le hlength]
        · simp only [List.length_append]
          omega
    · rw [followedBy_of_not_finished hexit, followedBy_of_not_finished hexit, cutAt_of_le hlength]
  · -- the first execution alone is longer than what is seen
    have hlonger := length_le_length_followedBy o next
    rw [cutAt_of_lt (by omega), cutAt_of_lt (by omega), followedBy_of_not_finished (by simp)]
    by_cases hexit : o.exit = some .finished
    · rw [followedBy_of_finished hexit, List.take_append_of_le_length (by omega)]
    · rw [followedBy_of_not_finished hexit]

/-- Two executions in turn go on behind what is seen only if all that could be watched was. -/
theorem length_followedBy (hle : o.actions.length ≤ n) (ho : o.exit = none → o.actions.length = n)
    (hnext : (next o.actions).exit = none → (next o.actions).actions.length = n - o.actions.length)
    (h : (o.followedBy next).exit = none) : (o.followedBy next).actions.length = n := by
  by_cases hexit : o.exit = some .finished
  · rw [followedBy_of_finished hexit] at h ⊢
    have hlength := hnext h
    rw [List.length_append]
    omega
  · rw [followedBy_of_not_finished hexit] at h ⊢
    exact ho h

/-- Observations can be put behind each other in any order of grouping. -/
theorem followedBy_followedBy {last : List Action → Observation} :
    (o.followedBy next).followedBy last =
      o.followedBy fun as => (next as).followedBy fun bs => last (as ++ bs) := by
  by_cases hexit : o.exit = some .finished
  · rw [followedBy_of_finished hexit, followedBy_of_finished hexit]
    by_cases hnext : (next o.actions).exit = some .finished
    · simp only [followedBy, hnext, List.append_assoc]
    · rw [followedBy_of_not_finished hnext]
      exact followedBy_of_not_finished hnext
  · rw [followedBy_of_not_finished hexit, followedBy_of_not_finished hexit, followedBy_of_not_finished hexit]

/-- Catching a way to end leaves the actions as they are. -/
theorem actions_catching (e : Exit) (o : Observation) : (o.catching e).actions = o.actions := by
  unfold catching
  split <;> rfl

/-- An observation that has no end after catching had none before. -/
theorem exit_of_catching (h : (o.catching e).exit = none) : o.exit = none := by
  unfold catching at h
  split at h
  · cases h
  · exact h

theorem catching_of_ne (h : o.exit ≠ some e) : o.catching e = o := if_neg h

theorem catching_prepend (e : Exit) (a : Action) (o : Observation) :
    (o.prepend a).catching e = (o.catching e).prepend a := by
  unfold catching
  rw [apply_ite (prepend a)]
  rfl

theorem catching_cutAt (e : Exit) (n : Nat) (o : Observation) : (o.cutAt n).catching e = (o.catching e).cutAt n := by
  by_cases h : o.actions.length ≤ n
  · rw [cutAt_of_le h, cutAt_of_le (by rwa [actions_catching])]
  · rw [cutAt_of_lt (by omega), cutAt_of_lt (by rw [actions_catching]; omega), actions_catching,
      catching_of_ne (by simp)]

end Observation

/-! ## Behaviors -/

/-- What is seen of an execution after the actions of a history, for any number of further actions. -/
structure Behavior where
  observe : List Action → Nat → Observation
  /-- What is seen of more actions begins with what is seen of fewer. -/
  observe_eq_cutAt : ∀ h n, observe h n = (observe h (n + 1)).cutAt n
  /-- An execution that does not end makes another action. -/
  length_eq : ∀ h n, (observe h n).exit = none → (observe h n).actions.length = n

namespace Behavior

/-- Behaviors are equal if the same is seen of them after every history. -/
theorem ext {p q : Behavior} (h : ∀ history n, p.observe history n = q.observe history n) : p = q := by
  obtain ⟨observe, _, _⟩ := p
  obtain ⟨observe', _, _⟩ := q
  obtain rfl : observe = observe' := by
    funext history n
    exact h history n
  rfl

theorem length_observe_le (p : Behavior) (h : List Action) (n : Nat) : (p.observe h n).actions.length ≤ n := by
  rw [p.observe_eq_cutAt]
  exact Observation.length_cutAt_le ..

/-- Ends at once. -/
def exit (e : Exit) : Behavior where
  observe _ _ := ⟨[], some e⟩
  observe_eq_cutAt _ _ := (Observation.cutAt_of_le (Nat.zero_le _)).symm
  length_eq _ _ h := by cases h

/-- An action, and then what follows it after the given history. -/
def after (a : Action) (next : List Action → Behavior) : Behavior where
  observe h
    | 0 => ⟨[], none⟩
    | n + 1 => ((next h).observe (h ++ [a]) n).prepend a
  observe_eq_cutAt h n := by
    cases n with
    | zero => exact (Observation.cutAt_zero_prepend ..).symm
    | succ n => rw [Observation.cutAt_succ_prepend, ← observe_eq_cutAt]
  length_eq h n hexit := by
    cases n with
    | zero => rfl
    | succ n => exact congrArg (· + 1) ((next h).length_eq _ n hexit)

/-- Two behaviors in turn: the second one follows if the first one finishes. -/
def andThen (p q : Behavior) : Behavior where
  observe h n := (p.observe h n).followedBy fun as => q.observe (h ++ as) (n - as.length)
  observe_eq_cutAt h n := by
    rw [p.observe_eq_cutAt h n]
    apply Observation.followedBy_cutAt
    intro hlength
    rw [q.observe_eq_cutAt, Nat.succ_sub hlength]
  length_eq h n := Observation.length_followedBy (p.length_observe_le h n) (p.length_eq h n) (q.length_eq _ _)

/-- The behavior that finishes where the other ends by `e`. -/
def catching (e : Exit) (p : Behavior) : Behavior where
  observe h n := (p.observe h n).catching e
  observe_eq_cutAt h n := by
    rw [p.observe_eq_cutAt h n, Observation.catching_cutAt]
  length_eq h n hexit := by
    rw [Observation.actions_catching]
    exact p.length_eq h n (Observation.exit_of_catching hexit)

/-- An action. -/
def act (a : Action) : Behavior := after a fun _ => exit .finished

/-- Several actions in turn. -/
def acts : List Action → Behavior
  | [] => exit .finished
  | a :: as => (act a).andThen (acts as)

/-- A test, and then one of two behaviors. -/
def choose (condition : String) (holds : List Action → Bool) (yes no : Behavior) : Behavior :=
  after (.test condition) fun h => if holds h then yes else no

/-- What is seen of rounds that are begun as long as a condition holds. -/
def observeRounds (condition : String) (holds : List Action → Bool) (round : Behavior) (h : List Action) :
    Nat → Observation
  | 0 => ⟨[], none⟩
  | n + 1 =>
    let tested := h ++ [.test condition]
    Observation.prepend (.test condition)
      (if holds h then
        (round.observe tested n).followedBy fun as =>
          observeRounds condition holds round (tested ++ as) (n - as.length)
      else ⟨[], some .finished⟩)
termination_by n => n
decreasing_by omega

/-- Rounds that are begun as long as a condition holds. -/
def loop (condition : String) (holds : List Action → Bool) (round : Behavior) : Behavior where
  observe := observeRounds condition holds round
  -- every round takes a test, so that fewer actions are left for the rounds behind it
  observe_eq_cutAt h n := by
    induction n using Nat.strong_induction_on generalizing h with
    | _ n ih =>
      cases n with
      | zero => rw [observeRounds, observeRounds, Observation.cutAt_zero_prepend]
      | succ n =>
        rw [observeRounds, observeRounds, Observation.cutAt_succ_prepend]
        congr 1
        by_cases hholds : holds h
        · rw [if_pos hholds, if_pos hholds, round.observe_eq_cutAt _ n]
          apply Observation.followedBy_cutAt
          intro hlength
          rw [Nat.succ_sub hlength]
          exact ih _ (by omega) _
        · rw [if_neg hholds, if_neg hholds, Observation.cutAt_of_le (Nat.zero_le _)]
  length_eq h n hexit := by
    induction n using Nat.strong_induction_on generalizing h with
    | _ n ih =>
      cases n with
      | zero => rw [observeRounds, List.length_nil]
      | succ n =>
        rw [observeRounds] at hexit ⊢
        by_cases hholds : holds h
        · simp only [hholds, if_true] at hexit ⊢
          refine congrArg (· + 1) (Observation.length_followedBy (round.length_observe_le _ n) (round.length_eq _ n) ?_
            hexit)
          exact ih _ (by omega) _
        · rw [if_neg hholds] at hexit
          cases hexit

/-- A loop whose rounds are its body. -/
def whileLoop (condition : String) (holds : List Action → Bool) (body : Behavior) : Behavior :=
  (loop condition holds (body.catching .again)).catching .left

/-- A loop whose rounds are its body and then a step; a body that goes on to the next round takes the step first. -/
def forLoop (condition : String) (holds : List Action → Bool) (body step : Behavior) : Behavior :=
  (loop condition holds ((body.catching .again).andThen step)).catching .left

/-! ## Laws -/

variable {p q : Behavior} {e e' : Exit}

theorem observe_andThen (p q : Behavior) (h : List Action) (n : Nat) :
    (p.andThen q).observe h n = (p.observe h n).followedBy fun as => q.observe (h ++ as) (n - as.length) := rfl

theorem observe_catching (e : Exit) (p : Behavior) (h : List Action) (n : Nat) :
    (p.catching e).observe h n = (p.observe h n).catching e := rfl

theorem observe_choose (condition : String) (holds : List Action → Bool) (p q : Behavior) (h : List Action) (n : Nat) :
    (choose condition holds p q).observe h (n + 1) =
      ((if holds h then p else q).observe (h ++ [.test condition]) n).prepend (.test condition) := rfl

/-- A behavior that finishes at once does nothing in front of another. -/
@[simp] theorem finished_andThen (p : Behavior) : (exit .finished).andThen p = p := by
  apply ext
  intro h n
  rw [observe_andThen, Observation.followedBy_of_finished rfl]
  show Observation.mk ([] ++ (p.observe (h ++ []) n).actions) (p.observe (h ++ []) n).exit = p.observe h n
  rw [List.append_nil, List.nil_append]

/-- A behavior that finishes at once does nothing behind another. -/
@[simp] theorem andThen_finished (p : Behavior) : p.andThen (exit .finished) = p := by
  apply ext
  intro h n
  rw [observe_andThen]
  by_cases hexit : (p.observe h n).exit = some .finished
  · rw [Observation.followedBy_of_finished hexit]
    show Observation.mk ((p.observe h n).actions ++ []) (some .finished) = p.observe h n
    rw [List.append_nil, ← hexit]
  · exact Observation.followedBy_of_not_finished hexit

/-- Ending at once in the way that is caught is finishing. -/
@[simp] theorem catching_exit_self (e : Exit) : (exit e).catching e = exit .finished :=
  ext fun _ _ => if_pos rfl

/-- Behaviors in turn can be grouped in any way. -/
theorem andThen_assoc (p q r : Behavior) : (p.andThen q).andThen r = p.andThen (q.andThen r) := by
  apply ext
  intro h n
  simp only [observe_andThen, Observation.followedBy_followedBy, List.append_assoc, List.length_append, Nat.sub_sub]

/-! ## Ways to end that do not occur -/

/-- The behavior never ends by `e`. -/
def Never (e : Exit) (p : Behavior) : Prop := ∀ h n, (p.observe h n).exit ≠ some e

theorem Never.catching_eq (h : p.Never e) : p.catching e = p :=
  ext fun history n => Observation.catching_of_ne (h history n)

/-- Of two behaviors in turn only the second one needs to be caught if the first one never ends that way. -/
theorem Never.catching_andThen (h : p.Never e) (q : Behavior) :
    (p.andThen q).catching e = p.andThen (q.catching e) := by
  apply ext
  intro history n
  rw [observe_catching, observe_andThen, observe_andThen]
  by_cases hexit : (p.observe history n).exit = some .finished
  · rw [Observation.followedBy_of_finished hexit, Observation.followedBy_of_finished hexit, observe_catching,
      Observation.actions_catching]
    unfold Observation.catching
    split <;> rfl
  · rw [Observation.followedBy_of_not_finished hexit, Observation.followedBy_of_not_finished hexit]
    exact Observation.catching_of_ne (h history n)

/-- Ending at once in another way is not this way to end. -/
theorem never_exit (h : e' ≠ e) : (exit e').Never e := fun _ _ hexit => h (Option.some.inj hexit)

/-- An action in front adds no way to end. -/
theorem never_after {a : Action} {next : List Action → Behavior} (h : ∀ history, (next history).Never e) :
    (after a next).Never e := by
  intro history n
  cases n with
  | zero => simp [after]
  | succ n => exact h history (history ++ [a]) n

/-- A choice ends as one of its two behaviors does. -/
theorem never_choose {holds : List Action → Bool} (hp : p.Never e) (hq : q.Never e) :
    (choose condition holds p q).Never e := by
  apply never_after
  intro history
  split
  · exact hp
  · exact hq

/-- Two behaviors in turn end as one of them does. -/
theorem Never.andThen (hp : p.Never e) (hq : q.Never e) : (p.andThen q).Never e := by
  intro history n
  rw [observe_andThen]
  by_cases hexit : (p.observe history n).exit = some .finished
  · rw [Observation.followedBy_of_finished hexit]
    exact hq _ _
  · rw [Observation.followedBy_of_not_finished hexit]
    exact hp history n

/-- What is caught does not occur any more, and other ways to end are not added but for finishing. -/
theorem never_catching (h : e' ≠ e → p.Never e) (he : e ≠ .finished) : (p.catching e').Never e := by
  intro history n hexit
  rw [observe_catching, Observation.catching] at hexit
  split at hexit
  · exact he (Option.some.inj hexit).symm
  next hne =>
  by_cases heq : e' = e
  · exact hne (heq ▸ hexit)
  · exact h heq history n hexit

/-- Actions in turn only finish. -/
theorem never_acts (he : e ≠ .finished) (as : List Action) : (acts as).Never e := by
  induction as with
  | nil => exact never_exit he.symm
  | cons a as ih => exact (never_after fun _ => never_exit he.symm).andThen ih

/-- A loop ends as its rounds do, or finishes. -/
theorem Never.loop {holds : List Action → Bool} (h : p.Never e) (he : e ≠ .finished) :
    (Behavior.loop condition holds p).Never e := by
  intro history n
  show (observeRounds condition holds p history n).exit ≠ some e
  induction n using Nat.strong_induction_on generalizing history with
  | _ n ih =>
    cases n with
    | zero =>
      rw [observeRounds]
      simp
    | succ n =>
      rw [observeRounds]
      show (ite _ _ _ : Observation).exit ≠ _
      split
      · -- only a round that finishes is followed by others
        by_cases hexit : (p.observe (history ++ [.test condition]) n).exit = some .finished
        · rw [Observation.followedBy_of_finished hexit]
          exact ih _ (by omega) _
        · rw [Observation.followedBy_of_not_finished hexit]
          exact h _ n
      · exact fun hexit => he (Option.some.inj hexit).symm

/-- A loop with a step ends only as its body returns and as its step does. -/
theorem never_forLoop {holds : List Action → Bool} {body step : Behavior} (he : e ≠ .finished)
    (hbody : e = .returned → body.Never e) (hstep : step.Never e) : (forLoop condition holds body step).Never e := by
  refine never_catching (fun hleft => ?_) he
  refine Never.loop (.andThen (never_catching (fun hagain => hbody ?_) he) hstep) he
  cases e <;> trivial

/-- A loop ends only as its body returns. -/
theorem never_whileLoop {holds : List Action → Bool} {body : Behavior} (he : e ≠ .finished)
    (hbody : e = .returned → body.Never e) : (whileLoop condition holds body).Never e := by
  refine never_catching (fun hleft => ?_) he
  refine Never.loop (never_catching (fun hagain => hbody ?_) he) he
  cases e <;> trivial

/-- A step may stand at the end of the body unless the body goes on to the next round by itself. -/
theorem forLoop_eq_whileLoop {holds : List Action → Bool} {body step : Behavior} (hbody : body.Never .again)
    (hstep : step.Never .again) :
    forLoop condition holds body step = whileLoop condition holds (body.andThen step) := by
  rw [forLoop, whileLoop, hbody.catching_eq, hbody.catching_andThen, hstep.catching_eq]

/-! ## Executions that end -/

/-- After the history `h`, the execution makes the actions `as` and ends by `e`. -/
def EndsBy (p : Behavior) (h as : List Action) (e : Exit) : Prop := ∃ n, p.observe h n = ⟨as, some e⟩

variable {h as : List Action}

theorem endsBy_of_exit {n : Nat} (hexit : (p.observe h n).exit = some e) : p.EndsBy h (p.observe h n).actions e :=
  ⟨n, by rw [← hexit]⟩

/-- An action finishes behind itself. -/
theorem EndsBy.of_act {a : Action} (hends : (act a).EndsBy h as e) : as = [a] ∧ e = .finished := by
  obtain ⟨n, hn⟩ := hends
  cases n with
  | zero => cases hn
  | succ n =>
    cases hn
    exact ⟨rfl, rfl⟩

/-- Two behaviors in turn end as the second one does behind the first, or as the first one does if it does not
finish. -/
theorem EndsBy.of_andThen (hends : (p.andThen q).EndsBy h as e) :
    (∃ bs cs, as = bs ++ cs ∧ p.EndsBy h bs .finished ∧ q.EndsBy (h ++ bs) cs e) ∨
      (e ≠ .finished ∧ p.EndsBy h as e) := by
  obtain ⟨n, hn⟩ := hends
  rw [observe_andThen] at hn
  by_cases hexit : (p.observe h n).exit = some .finished
  · rw [Observation.followedBy_of_finished hexit] at hn
    obtain ⟨hactions, hlast⟩ := Observation.mk.inj hn
    exact .inl ⟨_, _, hactions.symm, endsBy_of_exit hexit, endsBy_of_exit hlast⟩
  · rw [Observation.followedBy_of_not_finished hexit] at hn
    refine .inr ⟨?_, n, hn⟩
    rintro rfl
    exact hexit (congrArg Observation.exit hn)

/-- What ends behind a catch ended that way before, or it was caught. -/
theorem EndsBy.of_catching {e' : Exit} (hends : (p.catching e').EndsBy h as e) :
    p.EndsBy h as e ∨ (e = .finished ∧ p.EndsBy h as e') := by
  obtain ⟨n, hn⟩ := hends
  rw [observe_catching, Observation.catching] at hn
  split at hn
  · next hexit =>
    obtain ⟨rfl, hfinished⟩ := Observation.mk.inj hn
    exact .inr ⟨(Option.some.inj hfinished).symm, endsBy_of_exit hexit⟩
  · exact .inl ⟨n, hn⟩

/-- What ends by `e` finishes where `e` is caught. -/
theorem EndsBy.catching (hends : p.EndsBy h as e) : (p.catching e).EndsBy h as .finished := by
  obtain ⟨n, hn⟩ := hends
  refine ⟨n, ?_⟩
  rw [observe_catching, hn]
  exact if_pos rfl

theorem Never.not_endsBy (hnever : p.Never e) : ¬ p.EndsBy h as e := by
  rintro ⟨n, hn⟩
  exact hnever h n (congrArg Observation.exit hn)

/-- Ending at once is ending without an action. -/
theorem EndsBy.of_exit {e' : Exit} (hends : (exit e').EndsBy h as e) : as = [] ∧ e = e' := by
  obtain ⟨n, hn⟩ := hends
  cases hn
  exact ⟨rfl, rfl⟩

/-- Actions in turn finish behind the last of them. -/
theorem EndsBy.of_acts {actions : List Action} (hends : (acts actions).EndsBy h as e) :
    as = actions ∧ e = .finished := by
  induction actions generalizing h as with
  | nil => exact hends.of_exit
  | cons a actions ih =>
    rcases hends.of_andThen with ⟨bs, cs, rfl, hfirst, hrest⟩ | ⟨hne, hfirst⟩
    · obtain ⟨rfl, -⟩ := hfirst.of_act
      obtain ⟨rfl, rfl⟩ := ih hrest
      exact ⟨rfl, rfl⟩
    · exact absurd hfirst.of_act.2 hne

/-- A choice ends as one of its sides does behind the test. -/
theorem EndsBy.of_choose {holds : List Action → Bool} (hends : (choose condition holds p q).EndsBy h as e) :
    ∃ cs, as = .test condition :: cs ∧
      (p.EndsBy (h ++ [.test condition]) cs e ∨ q.EndsBy (h ++ [.test condition]) cs e) := by
  obtain ⟨n, hn⟩ := hends
  cases n with
  | zero => cases hn
  | succ n =>
    rw [observe_choose] at hn
    obtain ⟨hactions, hexit⟩ := Observation.mk.inj hn
    refine ⟨_, hactions.symm, ?_⟩
    by_cases hholds : holds h
    · rw [if_pos hholds] at hexit ⊢
      exact .inl (endsBy_of_exit hexit)
    · rw [if_neg hholds] at hexit ⊢
      exact .inr (endsBy_of_exit hexit)

/-- A loop that does not finish ends as one of its rounds does. -/
theorem EndsBy.of_loop {holds : List Action → Bool} {round : Behavior} (he : e ≠ .finished)
    (hends : (loop condition holds round).EndsBy h as e) :
    ∃ h' before cs, as = before ++ cs ∧ round.EndsBy h' cs e := by
  obtain ⟨n, hn⟩ := hends
  obtain ⟨rfl, hexit⟩ := Observation.mk.inj hn
  clear hn
  induction n using Nat.strong_induction_on generalizing h with
  | _ n ih =>
    cases n with
    | zero =>
      rw [observeRounds] at hexit
      cases hexit
    | succ n =>
      rw [observeRounds] at hexit ⊢
      by_cases hholds : holds h
      · simp only [hholds, if_true, Observation.prepend] at hexit ⊢
        by_cases hround : (round.observe (h ++ [.test condition]) n).exit = some .finished
        -- a round that finished is followed by others, with fewer actions left to watch
        · rw [Observation.followedBy_of_finished hround] at hexit ⊢
          obtain ⟨h', before, cs, hcs, hends⟩ := ih _ (by omega) hexit
          refine ⟨h', .test condition :: ((round.observe (h ++ [.test condition]) n).actions ++ before), cs, ?_, hends⟩
          rw [hcs, ← List.append_assoc]
          rfl
        -- a round that ended otherwise is the last
        · rw [Observation.followedBy_of_not_finished hround] at hexit ⊢
          exact ⟨_, [_], _, rfl, endsBy_of_exit hexit⟩
      · rw [if_neg hholds] at hexit
        exact absurd (Option.some.inj hexit).symm he

end Behavior

end ClockedC
