import ClockedC.Proofs.ControlFlow.Simulation
import ClockedC.Proofs.Hardware.Emission

/-!
# Returns

In the source `return` ends the function. In hardware it is an assignment like any other, and the process goes on with
what stands behind it. So the process makes all that the function does up to its `return`, and then it may make more.
It makes no more if every `return` stands where nothing follows.

* `early_return` : the process of a function up to the first `return` and behind it;
* `early_return_overwritten` : a `return` whose value does not last.
-/

namespace ClockedC

/-! ## Agreement up to an end -/

namespace Observation

/-- The second execution is seen to do the same, but it may go on where the first one ends by `e`. -/
def AgreeUntil (e : Exit) (o o' : Observation) : Prop := o' = o ∨ (o.exit = some e ∧ o.actions <+: o'.actions)

namespace AgreeUntil

variable {e : Exit} {o o' : Observation} {next next' : List Action → Observation}

theorem prefix_actions (h : AgreeUntil e o o') : o.actions <+: o'.actions := by
  rcases h with rfl | ⟨-, hprefix⟩
  · exact List.prefix_refl _
  · exact hprefix

theorem prepend (h : AgreeUntil e o o') (a : Action) : AgreeUntil e (o.prepend a) (o'.prepend a) := by
  rcases h with rfl | ⟨hexit, hprefix⟩
  · exact .inl rfl
  · exact .inr ⟨hexit, (List.prefix_cons_inj a).2 hprefix⟩

/-- Observations agree as well when what follows them agrees, since both finish or the first one has ended. -/
theorem followedBy (he : e ≠ .finished) (h : AgreeUntil e o o')
    (hnext : ∀ as, AgreeUntil e (next as) (next' as)) : AgreeUntil e (o.followedBy next) (o'.followedBy next') := by
  rcases h with rfl | ⟨hexit, hprefix⟩
  · by_cases hfinished : o'.exit = some .finished
    · rw [followedBy_of_finished hfinished, followedBy_of_finished hfinished]
      rcases hnext o'.actions with heq | ⟨hexit, hprefix⟩
      · exact .inl (by rw [heq])
      · exact .inr ⟨hexit, (List.prefix_append_right_inj _).2 hprefix⟩
    · rw [followedBy_of_not_finished hfinished, followedBy_of_not_finished hfinished]
      exact .inl rfl
  · -- the first execution is over
    rw [followedBy_of_not_finished (by rw [hexit]; exact fun h => he (Option.some.inj h))]
    exact .inr ⟨hexit, hprefix.trans (prefix_followedBy o' next')⟩

theorem catching {e' : Exit} (he : e ≠ e') (h : AgreeUntil e o o') : AgreeUntil e (o.catching e') (o'.catching e') := by
  rcases h with rfl | ⟨hexit, hprefix⟩
  · exact .inl rfl
  · rw [catching_of_ne (by rw [hexit]; exact fun h => he (Option.some.inj h))]
    exact .inr ⟨hexit, by rwa [actions_catching]⟩

end AgreeUntil

end Observation

namespace Behavior

/-- The second behavior is the first one, but it may go on where the first one ends by `e`. -/
def AgreeUntil (e : Exit) (p q : Behavior) : Prop := ∀ h n, (p.observe h n).AgreeUntil e (q.observe h n)

variable {e : Exit} {p p' q q' : Behavior} {condition : String} {holds : List Action → Bool}

theorem AgreeUntil.refl (p : Behavior) : AgreeUntil e p p := fun _ _ => .inl rfl

/-- Behaviors in turn agree if their parts do. -/
theorem AgreeUntil.andThen (he : e ≠ .finished) (hp : AgreeUntil e p p') (hq : AgreeUntil e q q') :
    AgreeUntil e (p.andThen q) (p'.andThen q') := by
  intro h n
  rw [observe_andThen, observe_andThen]
  exact .followedBy he (hp h n) fun as => hq _ _

theorem AgreeUntil.catching {e' : Exit} (he : e ≠ e') (h : AgreeUntil e p q) :
    AgreeUntil e (p.catching e') (q.catching e') :=
  fun history n => .catching he (h history n)

/-- Choices by the same test agree if their behaviors do. -/
theorem AgreeUntil.choose (hp : AgreeUntil e p p') (hq : AgreeUntil e q q') :
    AgreeUntil e (choose condition holds p q) (choose condition holds p' q') := by
  intro h n
  cases n with
  | zero => exact .inl rfl
  | succ n =>
    rw [observe_choose, observe_choose]
    apply Observation.AgreeUntil.prepend
    split
    · exact hp _ n
    · exact hq _ n

/-- Loops agree if their rounds do, by induction on the actions that are watched. -/
theorem AgreeUntil.loop (he : e ≠ .finished) (h : AgreeUntil e p q) :
    AgreeUntil e (loop condition holds p) (loop condition holds q) := by
  intro history n
  show (observeRounds condition holds p history n).AgreeUntil e (observeRounds condition holds q history n)
  induction n using Nat.strong_induction_on generalizing history with
  | _ n ih =>
    cases n with
    | zero =>
      rw [observeRounds, observeRounds]
      exact .inl rfl
    | succ n =>
      rw [observeRounds, observeRounds]
      apply Observation.AgreeUntil.prepend
      split
      · exact .followedBy he (h _ n) fun as => ih _ (by omega) _
      · exact .inl rfl

theorem AgreeUntil.whileLoop (h : AgreeUntil .returned p q) :
    AgreeUntil .returned (whileLoop condition holds p) (whileLoop condition holds q) :=
  .catching (by decide) (.loop (by decide) (.catching (by decide) h))

/-- Where the first behavior ends, the second one has made the same actions. -/
theorem EndsBy.exists_prefix {h as : List Action} (hends : p.EndsBy h as e) (hagree : AgreeUntil e p q) :
    ∃ n, as <+: (q.observe h n).actions := by
  obtain ⟨n, hn⟩ := hends
  have hprefix := (hagree h n).prefix_actions
  rw [hn] at hprefix
  exact ⟨n, hprefix⟩

/-- What is caught behind a choice may be caught on both sides. -/
theorem catching_choose (e : Exit) (p q : Behavior) :
    (choose condition holds p q).catching e = choose condition holds (p.catching e) (q.catching e) := by
  apply ext
  intro h n
  cases n with
  | zero => rfl
  | succ n =>
    rw [observe_catching, observe_choose, observe_choose, Observation.catching_prepend]
    split <;> rfl

end Behavior

/-! ## Hardware up to a `return` -/

section Agreement

variable (oracle : Oracle) (layouts : Layouts) (type : DataType)

/-- A statement that does not return does in hardware what it does in the source. -/
theorem agreeUntil_of_mayExit_eq_false (s : Statement) (hreturn : s.mayExit .returned = false)
    (hcontinue : s.continuesFor = false) (signals : Signals) :
    Behavior.AgreeUntil .returned (s.behavior oracle layouts type signals)
      (Vhdl.Stmt.behaviorOf oracle ((hardwareStatement layouts type s).run signals).1) := by
  rw [behaviorOf_hardwareStatement oracle layouts type s hreturn hcontinue]
  exact .refl _

/-- In hardware nothing is left by `return`. -/
theorem agreeUntil_giveBack (value : Option Expr) (loc : Location) (signals : Signals) :
    Behavior.AgreeUntil .returned ((Statement.giveBack value loc).behavior oracle layouts type signals)
      (Vhdl.Stmt.behaviorOf oracle ((hardwareStatement layouts type (.giveBack value loc)).run signals).1) := by
  rw [behaviorOf_hardwareStatement_giveBack]
  intro h n
  rw [Behavior.observe_catching]
  by_cases hexit : (((Statement.giveBack value loc).behavior oracle layouts type signals).observe h n).exit =
      some .returned
  · refine .inr ⟨hexit, ?_⟩
    rw [Observation.actions_catching]
  · exact .inl (Observation.catching_of_ne hexit)

/-- A loop whose body ends with a step does what the loop with that step does, until it returns. -/
theorem agreeUntil_loop_step {signals : Signals} {condition : Option Expr} {step : Option Assignment} {body : Behavior}
    {stmts : List Vhdl.Stmt} (hstmts : Behavior.AgreeUntil .returned body (Vhdl.Stmt.behaviorOf oracle stmts))
    (hbody : body.Never .again) :
    Behavior.AgreeUntil .returned (oracle.forLoop signals condition step body)
      ((Vhdl.Stmt.loop (loopCondition signals condition)
        (stmts ++ step.toList.map (hardwareAssignment signals))).behavior oracle) := by
  rw [behavior_loop_append_step, Oracle.forLoop,
    Behavior.forLoop_eq_whileLoop hbody (Behavior.never_acts (by decide) _)]
  exact .whileLoop (.andThen (by decide) hstmts (.refl _))

mutual

/-- The sequential statements of a statement do what the statement does until it returns. -/
theorem agreeUntil_hardwareStatement (s : Statement) (hcontinue : s.continuesFor = false) (signals : Signals) :
    Behavior.AgreeUntil .returned (s.behavior oracle layouts type signals)
      (Vhdl.Stmt.behaviorOf oracle ((hardwareStatement layouts type s).run signals).1) := by
  cases s with
  | branch condition body alternative loc =>
    rw [Statement.continuesFor, Bool.or_eq_false_iff] at hcontinue
    have hbody := agreeUntil_hardwareStatements body hcontinue.1 signals
    have harms := agreeUntil_hardwareArms alternative hcontinue.2 signals
    rw [run_branch (run_block body signals) (run_hardwareArms alternative signals), Vhdl.Stmt.behaviorOf_singleton,
      Vhdl.Stmt.behavior, decides_hardwareCondition, Statement.behavior]
    exact .choose hbody harms
  | whileLoop condition body loc =>
    rw [run_whileLoop (run_block body signals), Vhdl.Stmt.behaviorOf_singleton, Vhdl.Stmt.behavior,
      decides_hardwareCondition, Statement.behavior]
    exact .whileLoop (agreeUntil_hardwareStatements body hcontinue signals)
  | forLoop start condition step body loc =>
    cases start with
    | none =>
      rw [Statement.continuesFor, Bool.or_eq_false_iff] at hcontinue
      rw [run_forLoop_none (run_block body signals), Vhdl.Stmt.behaviorOf_singleton, Statement.behavior]
      -- without `continue` the body does not come to the next round before the step
      exact agreeUntil_loop_step oracle (agreeUntil_hardwareStatements body hcontinue.2 signals)
        (Statement.never_behaviorOf (by decide) body hcontinue.1 signals)
    | some start =>
      rw [Statement.continuesFor, Bool.or_eq_false_iff, Bool.or_eq_false_iff] at hcontinue
      have hstart := agreeUntil_hardwareStatement start hcontinue.1.1 signals
      have hbody := agreeUntil_hardwareStatements body hcontinue.2 (signals.behind start)
      rw [run_forLoop_some (run_hardwareStatement start signals) (run_block body _), Vhdl.Stmt.behaviorOf_append,
        Vhdl.Stmt.behaviorOf_singleton, Statement.behavior]
      exact .andThen (by decide) hstart
        (agreeUntil_loop_step oracle hbody (Statement.never_behaviorOf (by decide) body hcontinue.1.2 _))
  | giveBack value loc => exact agreeUntil_giveBack oracle layouts type value loc signals
  | _ => exact agreeUntil_of_mayExit_eq_false oracle layouts type _ rfl rfl signals

/-- The further arms of a branch agree with their hardware until they return. -/
theorem agreeUntil_hardwareArms (alternative : Alternative) (hcontinue : alternative.continuesFor = false)
    (signals : Signals) :
    Behavior.AgreeUntil .returned (alternative.behavior oracle layouts type signals)
      (((hardwareArms layouts type alternative).run signals).1.behavior oracle) := by
  cases alternative with
  | nothing => exact .refl _
  | elseIf condition body rest =>
    rw [Alternative.continuesFor, Bool.or_eq_false_iff] at hcontinue
    have hbody := agreeUntil_hardwareStatements body hcontinue.1 signals
    have hrest := agreeUntil_hardwareArms rest hcontinue.2 signals
    rw [run_elseIf (run_block body signals) (run_hardwareArms rest signals), Vhdl.Arms.behavior,
      decides_hardwareCondition, Alternative.behavior]
    exact .choose hbody hrest
  | otherwise body =>
    rw [run_otherwise (run_block body signals)]
    exact agreeUntil_hardwareStatements body hcontinue signals

/-- Statements agree with their hardware until they return. -/
theorem agreeUntil_hardwareStatements (ss : List Statement) (hcontinue : Statement.anyContinuesFor ss = false)
    (signals : Signals) :
    Behavior.AgreeUntil .returned (Statement.behaviorOf oracle layouts type ss signals)
      (Vhdl.Stmt.behaviorOf oracle ((hardwareStatements layouts type ss).run signals).1) := by
  cases ss with
  | nil => exact .refl _
  | cons s ss =>
    rw [Statement.anyContinuesFor, Bool.or_eq_false_iff] at hcontinue
    rw [fst_run_cons, Vhdl.Stmt.behaviorOf_append, Statement.behaviorOf]
    exact .andThen (by decide) (agreeUntil_hardwareStatement s hcontinue.1 signals)
      (agreeUntil_hardwareStatements ss hcontinue.2 (signals.behind s))

end

end Agreement

/-! ## Nothing behind a `return` -/

mutual

/-- Whether nothing in the statement follows a `return` in it. -/
def Statement.returnsAtEnd : Statement → Bool
  | .giveBack _ _ => true
  | .branch _ body alternative _ => Statement.returnsInTail body && alternative.returnsInTail
  | .whileLoop _ body _ => !Statement.anyMayExit .returned body
  | .forLoop none _ _ body _ => !Statement.anyMayExit .returned body
  | .forLoop (some start) _ _ body _ => !start.mayExit .returned && !Statement.anyMayExit .returned body
  | _ => true

/-- Whether nothing follows a `return` in a further arm of a branch. -/
def Alternative.returnsInTail : Alternative → Bool
  | .nothing => true
  | .elseIf _ body alternative => Statement.returnsInTail body && alternative.returnsInTail
  | .otherwise body => Statement.returnsInTail body

/-- Whether nothing follows a `return` in the statements: it stands at the end of the last one. -/
def Statement.returnsInTail : List Statement → Bool
  | [] => true
  | s :: ss => (!s.mayExit .returned || (ss.isEmpty && s.returnsAtEnd)) && Statement.returnsInTail ss

end

theorem Statement.returnsInTail_cons {s : Statement} {ss : List Statement} (h : Statement.returnsInTail (s :: ss)) :
    (s.mayExit .returned = false ∧ Statement.returnsInTail ss) ∨ (ss = [] ∧ s.returnsAtEnd) := by
  rw [Statement.returnsInTail, Bool.and_eq_true, Bool.or_eq_true, Bool.not_eq_true', Bool.and_eq_true,
    List.isEmpty_iff] at h
  exact h.1.imp (⟨·, h.2⟩) id

section Tail

variable (oracle : Oracle) (layouts : Layouts) (type : DataType)

/-- For a statement that does not return it makes no difference to catch a `return`. -/
theorem behaviorOf_hardwareStatement_catching (s : Statement) (hreturn : s.mayExit .returned = false)
    (hcontinue : s.continuesFor = false) (signals : Signals) :
    Vhdl.Stmt.behaviorOf oracle ((hardwareStatement layouts type s).run signals).1 =
      (s.behavior oracle layouts type signals).catching .returned := by
  rw [behaviorOf_hardwareStatement oracle layouts type s hreturn hcontinue,
    (Statement.never_behavior (by decide) s hreturn signals).catching_eq]

mutual

/-- The sequential statements of a statement do what the statement does up to its `return`. -/
theorem behaviorOf_hardwareStatement_tail (s : Statement) (hreturn : s.returnsAtEnd)
    (hcontinue : s.continuesFor = false) (signals : Signals) :
    Vhdl.Stmt.behaviorOf oracle ((hardwareStatement layouts type s).run signals).1 =
      (s.behavior oracle layouts type signals).catching .returned := by
  cases s with
  | branch condition body alternative loc =>
    rw [Statement.returnsAtEnd, Bool.and_eq_true] at hreturn
    rw [Statement.continuesFor, Bool.or_eq_false_iff] at hcontinue
    have hbody := behaviorOf_hardwareStatements_tail body hreturn.1 hcontinue.1 signals
    have harms := behavior_hardwareArms_tail alternative hreturn.2 hcontinue.2 signals
    rw [run_branch (run_block body signals) (run_hardwareArms alternative signals), Vhdl.Stmt.behaviorOf_singleton,
      Vhdl.Stmt.behavior, hbody, harms, decides_hardwareCondition, Statement.behavior, Behavior.catching_choose]
  | giveBack value loc => exact behaviorOf_hardwareStatement_giveBack oracle layouts type value loc signals
  -- nothing returns out of a loop here, since the loop would follow
  | whileLoop condition body loc =>
    refine behaviorOf_hardwareStatement_catching oracle layouts type _ ?_ hcontinue signals
    simpa [Statement.mayExit, Statement.returnsAtEnd] using hreturn
  | forLoop start condition step body loc =>
    refine behaviorOf_hardwareStatement_catching oracle layouts type _ ?_ hcontinue signals
    cases start with
    | none => simpa [Statement.mayExit, Statement.returnsAtEnd] using hreturn
    | some start => simpa [Statement.mayExit, Statement.returnsAtEnd] using hreturn
  | _ => exact behaviorOf_hardwareStatement_catching oracle layouts type _ rfl rfl signals

/-- Arms in which nothing follows a `return` do in hardware what they do in the source. -/
theorem behavior_hardwareArms_tail (alternative : Alternative) (hreturn : alternative.returnsInTail)
    (hcontinue : alternative.continuesFor = false) (signals : Signals) :
    ((hardwareArms layouts type alternative).run signals).1.behavior oracle =
      (alternative.behavior oracle layouts type signals).catching .returned := by
  cases alternative with
  | nothing => exact (Behavior.never_exit (by decide)).catching_eq.symm
  | elseIf condition body rest =>
    rw [Alternative.returnsInTail, Bool.and_eq_true] at hreturn
    rw [Alternative.continuesFor, Bool.or_eq_false_iff] at hcontinue
    have hbody := behaviorOf_hardwareStatements_tail body hreturn.1 hcontinue.1 signals
    have hrest := behavior_hardwareArms_tail rest hreturn.2 hcontinue.2 signals
    rw [run_elseIf (run_block body signals) (run_hardwareArms rest signals), Vhdl.Arms.behavior, hbody, hrest,
      decides_hardwareCondition, Alternative.behavior, Behavior.catching_choose]
  | otherwise body =>
    rw [run_otherwise (run_block body signals)]
    exact behaviorOf_hardwareStatements_tail body hreturn hcontinue signals

/-- Statements in which nothing follows a `return` do in hardware what they do in the source, and finish there. -/
theorem behaviorOf_hardwareStatements_tail (ss : List Statement) (hreturn : Statement.returnsInTail ss)
    (hcontinue : Statement.anyContinuesFor ss = false) (signals : Signals) :
    Vhdl.Stmt.behaviorOf oracle ((hardwareStatements layouts type ss).run signals).1 =
      (Statement.behaviorOf oracle layouts type ss signals).catching .returned := by
  cases ss with
  | nil => exact (Behavior.never_exit (by decide)).catching_eq.symm
  | cons s ss =>
    rw [Statement.anyContinuesFor, Bool.or_eq_false_iff] at hcontinue
    rw [fst_run_cons, Vhdl.Stmt.behaviorOf_append, Statement.behaviorOf]
    rcases Statement.returnsInTail_cons hreturn with ⟨hs, hss⟩ | ⟨rfl, hs⟩
    · rw [behaviorOf_hardwareStatement oracle layouts type s hs hcontinue.1,
        behaviorOf_hardwareStatements_tail ss hss hcontinue.2,
        (Statement.never_behavior (by decide) s hs signals).catching_andThen]
    · rw [behaviorOf_hardwareStatement_tail s hs hcontinue.1]
      show Behavior.andThen _ (.exit .finished) = (Behavior.andThen _ (.exit .finished)).catching .returned
      rw [Behavior.andThen_finished, Behavior.andThen_finished]

end

end Tail

/-! ## The `return` that is made -/

section Last

variable (layouts : Layouts) (type : DataType)

/-- The actions `as` end with the lines of a `return` that is emitted with the statements. -/
def EndsWithReturn (ss : List Statement) (signals : Signals) (as : List Action) : Prop :=
  ∃ value loc inner before, EmittedIn (.giveBack value loc) inner ss signals ∧
    as = before ++ lineActions ((hardwareStatement layouts type (.giveBack value loc)).run inner).1

variable {layouts type}

/-- Actions in front leave the end as it is. -/
theorem EndsWithReturn.prepend {ss : List Statement} {signals : Signals} {as : List Action}
    (h : EndsWithReturn layouts type ss signals as) (bs : List Action) :
    EndsWithReturn layouts type ss signals (bs ++ as) := by
  obtain ⟨value, loc, inner, before, hemitted, rfl⟩ := h
  exact ⟨value, loc, inner, bs ++ before, hemitted, (List.append_assoc ..).symm⟩

theorem EndsWithReturn.imp {ss ss' : List Statement} {signals signals' : Signals} {as : List Action}
    (h : EndsWithReturn layouts type ss signals as)
    (himp : ∀ {s inner}, EmittedIn s inner ss signals → EmittedIn s inner ss' signals') :
    EndsWithReturn layouts type ss' signals' as := by
  obtain ⟨value, loc, inner, before, hemitted, rfl⟩ := h
  exact ⟨value, loc, inner, before, himp hemitted, rfl⟩

variable {oracle : Oracle}

/-- A `for` loop that ends by `return` ends as its body does. -/
theorem Oracle.endsBy_of_forLoop {signals : Signals} {condition : Option Expr} {step : Option Assignment}
    {body : Behavior} {h as : List Action}
    (hends : (oracle.forLoop signals condition step body).EndsBy h as .returned) :
    ∃ h' before cs, as = before ++ cs ∧ body.EndsBy h' cs .returned := by
  rcases hends.of_catching with hends | ⟨he, -⟩
  · obtain ⟨h', before, cs, hcs, hround⟩ := hends.of_loop (by decide)
    rcases hround.of_andThen with ⟨_, _, -, -, hstep⟩ | ⟨-, hbody⟩
    · exact absurd hstep.of_acts.2 (by decide)
    · rcases hbody.of_catching with hbody | ⟨he, -⟩
      · exact ⟨h', before, cs, hcs, hbody⟩
      · cases he
  · cases he

/-- A loop that returns does so in a round of its body. -/
theorem Behavior.EndsBy.of_whileLoop {condition : String} {holds : List Action → Bool} {body : Behavior}
    {h as : List Action} (hends : (Behavior.whileLoop condition holds body).EndsBy h as .returned) :
    ∃ h' before cs, as = before ++ cs ∧ body.EndsBy h' cs .returned := by
  rcases hends.of_catching with hends | ⟨he, -⟩
  · obtain ⟨h', before, cs, hcs, hround⟩ := hends.of_loop (by decide)
    rcases hround.of_catching with hbody | ⟨he, -⟩
    · exact ⟨h', before, cs, hcs, hbody⟩
    · cases he
  · cases he

mutual

/-- What a statement does last before the function ends by `return` is the lines of that `return`. -/
theorem Statement.endsWithReturn_of_endsBy_behavior (s : Statement) {signals : Signals} {h as : List Action}
    (hends : (s.behavior oracle layouts type signals).EndsBy h as .returned) (ss : List Statement) :
    EndsWithReturn layouts type (s :: ss) signals as := by
  cases s with
  | branch condition body alternative loc =>
    rw [Statement.behavior] at hends
    obtain ⟨cs, rfl, hbody | harms⟩ := hends.of_choose
    · exact ((Statement.endsWithReturn_of_endsBy body hbody).imp .branch).prepend [_]
    · obtain ⟨arm, harm, hreturn⟩ := Alternative.endsWithReturn_of_endsBy alternative harms
      exact (hreturn.imp (.arm harm)).prepend [_]
  | whileLoop condition body loc =>
    rw [Statement.behavior] at hends
    obtain ⟨h', before, cs, rfl, hbody⟩ := hends.of_whileLoop
    exact ((Statement.endsWithReturn_of_endsBy body hbody).imp .whileLoop).prepend before
  | forLoop start condition step body loc =>
    cases start with
    | none =>
      rw [Statement.behavior] at hends
      obtain ⟨h', before, cs, rfl, hbody⟩ := Oracle.endsBy_of_forLoop hends
      exact ((Statement.endsWithReturn_of_endsBy body hbody).imp fun hinner => .forLoop hinner).prepend before
    | some start =>
      rw [Statement.behavior] at hends
      -- either the start finished and the loop returned, or the start returned
      rcases hends.of_andThen with ⟨bs, cs, rfl, -, hloop⟩ | ⟨-, hstart⟩
      · obtain ⟨h', before, ds, rfl, hbody⟩ := Oracle.endsBy_of_forLoop hloop
        have hinner := Statement.endsWithReturn_of_endsBy body hbody
        exact ((hinner.imp fun hinner => .forLoop hinner).prepend before).prepend bs
      · exact (Statement.endsWithReturn_of_endsBy_behavior start hstart []).imp .start
  | giveBack value loc =>
    refine ⟨value, loc, signals, [], .here, ?_⟩
    cases value with
    | none => exact hends.of_exit.1
    | some value =>
      rw [Statement.behavior] at hends
      rcases hends.of_andThen with ⟨bs, cs, rfl, hacts, hexit⟩ | ⟨-, hacts⟩
      · obtain ⟨rfl, -⟩ := hexit.of_exit
        rw [List.append_nil]
        exact hacts.of_acts.1
      · exact absurd hacts.of_acts.2 (by decide)
  -- no other statement returns
  | _ => exact absurd hends (Statement.never_behavior (by decide) _ rfl signals).not_endsBy

/-- Further arms that return end with the assignments of a `return` in one of them. -/
theorem Alternative.endsWithReturn_of_endsBy (alternative : Alternative) {signals : Signals} {h as : List Action}
    (hends : (alternative.behavior oracle layouts type signals).EndsBy h as .returned) :
    ∃ arm ∈ alternative.bodies, EndsWithReturn layouts type arm signals as := by
  cases alternative with
  | nothing => exact absurd hends.of_exit.2 (by decide)
  | elseIf condition body rest =>
    rw [Alternative.behavior] at hends
    obtain ⟨cs, rfl, hbody | hrest⟩ := hends.of_choose
    · exact ⟨body, List.mem_cons_self .., (Statement.endsWithReturn_of_endsBy body hbody).prepend [_]⟩
    · obtain ⟨arm, harm, hreturn⟩ := Alternative.endsWithReturn_of_endsBy rest hrest
      exact ⟨arm, List.mem_cons_of_mem _ harm, hreturn.prepend [_]⟩
  | otherwise body => exact ⟨body, List.mem_singleton_self _, Statement.endsWithReturn_of_endsBy body hends⟩

/-- Statements that return end with the assignments of a `return` among them. -/
theorem Statement.endsWithReturn_of_endsBy (ss : List Statement) {signals : Signals} {h as : List Action}
    (hends : (Statement.behaviorOf oracle layouts type ss signals).EndsBy h as .returned) :
    EndsWithReturn layouts type ss signals as := by
  cases ss with
  | nil => exact absurd hends.of_exit.2 (by decide)
  | cons s ss =>
    rw [Statement.behaviorOf] at hends
    rcases hends.of_andThen with ⟨bs, cs, rfl, -, hrest⟩ | ⟨-, hfirst⟩
    · exact ((Statement.endsWithReturn_of_endsBy ss hrest).imp .behind).prepend bs
    · exact Statement.endsWithReturn_of_endsBy_behavior s hfirst ss

end

end Last

/-! ## Functions -/

/-- **A `return` and what follows it.** Take a function that is compiled in which no `continue` belongs to a `for` loop,
and an execution of its body that ends by `return`. What the body does last is the lines of a `return` that is emitted
with it. The lines of the process make all that the body does. If nothing in the body follows a `return`, they make no
more than that. -/
theorem early_return {source : String} {c : Compilation} {i : Nat} {f : Function}
    (hc : (compile source).outcome = .ok c) (hf : c.program.functions[i]? = some f)
    (hcontinue : Statement.anyContinuesFor f.body = false) :
    ∃ entity lines, c.design.entities[i]? = some entity ∧ entity.Clocks lines ∧
      ∀ oracle : Oracle, ∃ process, Vhdl.Line.behavior? oracle lines = some process ∧
        ∀ h as, (Statement.behaviorOf oracle c.tables.structs f.result f.body (Signals.ofFunction f)).EndsBy h as
            .returned →
          EndsWithReturn c.tables.structs f.result f.body (Signals.ofFunction f) as ∧
          (∃ n, as <+: (process.observe h n).actions) ∧
          (Statement.returnsInTail f.body → process.EndsBy h as .finished) := by
  have hlegible := legible_hardwareEntity hc (List.mem_of_getElem? hf) c.tables.structs
  refine ⟨_, _, getElem?_entities_of_compile hc hf, Vhdl.Entity.clocks_linesOf _, ?_⟩
  rw [hardwareEntity_body] at hlegible ⊢
  intro oracle
  refine ⟨_, Vhdl.Stmt.behavior?_linesOf oracle hlegible 3, ?_⟩
  intro h as hends
  refine ⟨Statement.endsWithReturn_of_endsBy f.body hends, ?_, ?_⟩
  · exact hends.exists_prefix (agreeUntil_hardwareStatements oracle _ _ f.body hcontinue _)
  · intro htail
    have hsame := behaviorOf_hardwareStatements_tail oracle c.tables.structs f.result f.body htail hcontinue
      (Signals.ofFunction f)
    exact hsame ▸ hends.catching

/-- A source text where nothing follows a `return`. -/
def tailReturnSource : String :=
  "int f(int a)\x7bif(a>2)\x7bwhile(a)a--;return a;\x7delse if(a)return 1;else return 0;\x7d"

theorem early_return_tailReturnSource :
    ∃ c f entity lines, (compile tailReturnSource).outcome = .ok c ∧ c.program.functions[0]? = some f ∧
      Statement.anyContinuesFor f.body = false ∧ Statement.returnsInTail f.body ∧
      c.design.entities[0]? = some entity ∧ entity.Clocks lines ∧
      ∃ (oracle : Oracle) (process : Behavior) (as : List Action), Vhdl.Line.behavior? oracle lines = some process ∧
        as = [.test "unsigned(a) > to_unsigned(2, 32)", .test "unsigned(a) /= 0", .assign "result <= a;"] ∧
        (Statement.behaviorOf oracle c.tables.structs f.result f.body (Signals.ofFunction f)).EndsBy [] as .returned ∧
        EndsWithReturn c.tables.structs f.result f.body (Signals.ofFunction f) as ∧
        process.EndsBy [] as .finished := by
  have hchecked : (compile tailReturnSource).outcome.toOption.any (fun c => c.program.functions[0]?.any fun f =>
      !Statement.anyContinuesFor f.body && Statement.returnsInTail f.body &&
      (Statement.behaviorOf (fun h _ => h.isEmpty) c.tables.structs f.result f.body (Signals.ofFunction f)).observe
          [] 3 =
        ⟨[.test "unsigned(a) > to_unsigned(2, 32)", .test "unsigned(a) /= 0", .assign "result <= a;"],
          some .returned⟩) := by decide +kernel
  obtain ⟨c, f, hc, hf, hrun⟩ := exists_function_of_any hchecked
  simp only [Bool.and_eq_true, Bool.not_eq_true', decide_eq_true_eq] at hrun
  obtain ⟨⟨hcontinue, htail⟩, hends⟩ := hrun
  obtain ⟨entity, lines, hentity, hclocks, hprocess⟩ := early_return hc hf hcontinue
  obtain ⟨process, hbehavior, hall⟩ := hprocess fun h _ => h.isEmpty
  obtain ⟨hreturn, -, hfinished⟩ := hall _ _ ⟨3, hends⟩
  exact ⟨c, f, entity, lines, hc, hf, hcontinue, htail, hentity, hclocks, _, process, _, hbehavior, rfl, ⟨3, hends⟩,
    hreturn, hfinished htail⟩

/-- A source text where a `return` is followed by another one. -/
def guardedReturnSource : String := "int f(int a)\x7bif(a)return 1;return 0;\x7d"

/-- Where the condition of `guardedReturnSource` holds, the body ends by its first `return`, but the process goes on and
assigns the value of the second one. -/
theorem early_return_overwritten :
    ∃ c f entity lines, (compile guardedReturnSource).outcome = .ok c ∧ c.program.functions[0]? = some f ∧
      c.design.entities[0]? = some entity ∧ entity.Clocks lines ∧
      ∃ (oracle : Oracle) (process : Behavior), Vhdl.Line.behavior? oracle lines = some process ∧
        (Statement.behaviorOf oracle c.tables.structs f.result f.body (Signals.ofFunction f)).EndsBy []
          [.test "unsigned(a) /= 0", .assign "result <= 1;"] .returned ∧
        process.EndsBy [] [.test "unsigned(a) /= 0", .assign "result <= 1;", .assign "result <= 0;"] .finished := by
  have hchecked : (compile guardedReturnSource).outcome.toOption.any (fun c => c.program.functions[0]?.any fun f =>
      (Statement.behaviorOf (fun _ _ => true) c.tables.structs f.result f.body (Signals.ofFunction f)).observe [] 2 =
        ⟨[.test "unsigned(a) /= 0", .assign "result <= 1;"], some .returned⟩ &&
      (Vhdl.Stmt.behaviorOf (fun _ _ => true) (hardwareEntity c.tables.structs f).body).observe [] 3 =
        ⟨[.test "unsigned(a) /= 0", .assign "result <= 1;", .assign "result <= 0;"], some .finished⟩) := by
    decide +kernel
  obtain ⟨c, f, hc, hf, hrun⟩ := exists_function_of_any hchecked
  simp only [Bool.and_eq_true, decide_eq_true_eq] at hrun
  have hlegible := legible_hardwareEntity hc (List.mem_of_getElem? hf) c.tables.structs
  exact ⟨c, f, _, _, hc, hf, getElem?_entities_of_compile hc hf, Vhdl.Entity.clocks_linesOf _, _, _,
    Vhdl.Stmt.behavior?_linesOf _ hlegible 3, ⟨2, hrun.1⟩, ⟨3, hrun.2⟩⟩

end ClockedC
