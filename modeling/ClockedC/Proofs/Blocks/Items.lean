import ClockedC.Proofs.Blocks.Rebracing

/-!
# Other braces in a program

The functions and structs of a program are read one after the other. An item is read without a look at what follows it,
and what is skipped looks at a few tokens more at most. So other braces inside of a function leave everything in front
of the function as it is, and everything behind it.
-/

namespace ClockedC.Grammar

variable {α β : Type}

/-! ## Structs -/

/-- The fields of a struct end where the next lexeme is not a field, so one lexeme behind them counts. -/
theorem Glances.structFields (struct : String) (depth : Nat) (fields : List Field) :
    Glances (fun _ => False) (structFields struct depth fields) := by
  induction depth generalizing fields with
  | zero => exact of_fails fun _ _ _ hrun => by cases hrun
  | succ depth ih =>
    constructor
    intro r
    by_cases hend : endsBlock r.next.lexeme
    · refine .of_lexeme (q := Pure.pure fields) (fun r' hsame => ?_) ((pure _).glancesAt r)
      rw [Grammar.structFields, structFieldsBy, run_bind_of_ok (run_current r'), hsame]
      obtain hnext | hnext := hend <;> rw [hnext]
    · refine (TakesAt.current ?_).glancesAt
      split
      · next hnext => exact absurd (.inl hnext) hend
      · next hnext => exact absurd (.inr hnext) hend
      · refine Takes.takesAt (Takes.dataType.bind fun type => Takes.identifier.glances.bind fun name => ?_) r
        exact check (check ((Takes.expect ..).glances.bind fun _ => ih _))

namespace Takes

variable {stops : Lexeme → Prop}

/-- A struct definition ends with its semicolon and looks at nothing behind it. -/
theorem structDefinition : Takes stops structDefinition := by
  apply current
  intro r
  refine Takes.takesAt (behind identifier.glances fun name => get (fun _ _ => rfl) fun r₁ => check ?_) r
  refine behind (expect ..).glances fun _ => read_bind (p := .structFields name []) ?_
  refine behind (.read fun depth => .structFields name depth []) fun fields => ?_
  refine behind (expect ..).glances fun _ => (expect ..).bind fun _ => .check ?_
  exact (Glances.modify fun _ _ => rfl).bind fun _ => (Glances.note _).bind fun _ => .pure _

/-! ## Functions -/

theorem parameter (others : List Parameter) : Takes (fun _ => False) (parameter others) := by
  apply current
  intro r
  refine Takes.takesAt (dataType.bind fun type => identifier.glances.bind fun name => .check ?_) r
  exact (Glances.nextIs _).bind fun b => .check (.check (.pure _))

/-- Behind the last parameter it counts whether a comma follows. -/
theorem parametersFrom (depth : Nat) (others : List Parameter) :
    Takes (fun _ => False) (parametersFrom depth others) := by
  induction depth generalizing others with
  | zero => exact of_fails fun _ _ _ hrun => by cases hrun
  | succ depth ih =>
    refine (parameter others).bind fun p => (Glances.accept .comma).bind fun b => ?_
    split
    · exact (ih _).glances
    · exact .pure _

end Takes

/-- A step that goes past a token may make use of the lexeme behind it. -/
theorem TakesAt.of_second {p q : ReadM α} {r : Reader}
    (h : ∀ r' : Reader, r'.next = r.next → (r'.ahead 1).lexeme = (r.ahead 1).lexeme → p.run r' = q.run r')
    (hq : TakesAt (fun _ => False) q r) : TakesAt (fun _ => False) p r := by
  refine ⟨⟨?_, ?_⟩, ⟨?_⟩⟩
  · intro r' a hrun
    rw [h r rfl rfl] at hrun
    exact hq.glancesAt.suffix hrun
  · intro r' tokens tail a hrun htokens hends
    rw [h r rfl rfl] at hrun
    obtain ⟨more, rfl⟩ := (hq.consumesAt.advances hrun).exists_eq_next_cons htokens
    have hsecond : ((r.withRest (r.next :: more ++ tail)).ahead 1).lexeme = (r.ahead 1).lexeme := by
      have halike := ((hends.elsewhere r).append (fun _ => id) more).resolve_right id
      have hr : (r.ahead 1).lexeme = ((r.withRest (r.next :: more ++ r'.rest)).ahead 1).lexeme := by
        rw [← htokens, r.withRest_rest]
      rw [hr, List.cons_append, List.cons_append, Reader.ahead_withRest_cons_succ, Reader.ahead_withRest_cons_succ]
      exact halike
    rw [h (r.withRest (r.next :: more ++ tail)) rfl hsecond]
    exact hq.glancesAt.run_append hrun htokens hends
  · intro r' a hrun
    rw [h r rfl rfl] at hrun
    exact hq.consumesAt.advances hrun

/-- Parameters may be missing, which shows in the lexeme where they would begin. -/
theorem Glances.parameters : Glances (fun _ => False) parameters := by
  have hmore : Takes (fun _ => False) (Production.parameters []).read := .read fun depth => .parametersFrom depth []
  apply (nextIs _).bind
  intro b
  split
  · exact pure _
  · constructor
    intro r
    by_cases hvoid : r.next.lexeme = .keyword .void ∧ (r.ahead 1).lexeme = .symbol .closeParen
    · have hskip : TakesAt (fun _ => False) (do
          Grammar.advance
          return ([] : List Parameter)) r := .advance (by simp [hvoid.1]) (pure _)
      refine (TakesAt.of_second ?_ hskip).glancesAt
      intro r' hnext hsecond
      rw [run_bind_of_ok (run_nextIs ..), run_bind_of_ok (run_lexemeAhead 1 r'), hnext, hsecond, hvoid.1, hvoid.2]
      rfl
    · refine (TakesAt.of_second ?_ (hmore.takesAt r)).glancesAt
      intro r' hnext hsecond
      have hneither : (decide (r.next.lexeme = .keyword .void) && decide ((r.ahead 1).lexeme = .symbol .closeParen)) =
          false := by simpa using hvoid
      rw [run_bind_of_ok (run_nextIs ..), run_bind_of_ok (run_lexemeAhead 1 r'), hnext, hsecond, hneither]
      rfl

namespace Takes

variable {stops : Lexeme → Prop}

/-- A function definition ends with its closing brace or semicolon and looks at nothing behind it. -/
theorem functionDefinition : Takes stops functionDefinition := by
  refine behind dataType.glances fun result => current fun r => ?_
  refine Takes.takesAt (behind identifier.glances fun name => behind (expect ..).glances fun _ => ?_) r
  refine behind (.modify fun _ _ => rfl) fun _ => behind .parameters fun parameters => ?_
  refine behind (expect ..).glances fun _ => accept_bind ?_ ?_
  · exact (Glances.warn ..).bind fun _ => .pure _
  · refine behind (expect ..).glances fun _ => behind (.modify fun _ _ => rfl) fun _ => ?_
    refine behind .statements fun body => (expect ..).bind fun _ => ?_
    exact (Glances.note _).bind fun _ => .pure _

end Takes

/-! ## The body of a function -/

/-- Reads the parameters of a function that has a body, up to the opening brace of the body. -/
def parametersBeforeBody : ReadM (List Parameter) := do
  modify fun r => { r with tables.arrays := .empty }
  let parameters ← parameters
  expect .closeParen "after parameters"
  expect .openBrace "before function body"
  modify fun r => { r with loopDepth := 0 }
  return parameters

/-- Reads a function up to the opening brace of its body. -/
def functionHead : ReadM (DataType × Location × String × List Parameter) := do
  let result ← dataType
  let loc := (← current).loc
  let name ← identifier
  expect .openParen "after function name"
  let parameters ← parametersBeforeBody
  return (result, loc, name, parameters)

/-- Reads the body of a function behind its opening brace. -/
def functionBody (head : DataType × Location × String × List Parameter) : ReadM (Option Function) := do
  let body ← Production.statements.read
  expect .closeBrace "after function body"
  note (.readFunction head.2.2.1 head.2.2.2.length body.length)
  return some { name := head.2.2.1, result := head.1, parameters := head.2.2.2, body, loc := head.2.1 }

theorem Takes.parametersBeforeBody {stops : Lexeme → Prop} : Takes stops parametersBeforeBody := by
  refine behind (.modify fun _ _ => rfl) fun _ => behind .parameters fun parameters => ?_
  refine behind (expect ..).glances fun _ => (expect ..).bind fun _ => ?_
  exact (Glances.modify fun _ _ => rfl).bind fun _ => .pure _

theorem Takes.functionHead {stops : Lexeme → Prop} : Takes stops functionHead := by
  refine behind dataType.glances fun result => current fun r => ?_
  refine Takes.takesAt (behind identifier.glances fun name => behind (expect ..).glances fun _ => ?_) r
  exact parametersBeforeBody.bind fun parameters => .pure _

/-- The head of a function has a type, a name and a parenthesis at least. -/
theorem three_le_length_of_head {r r' : Reader} {info : DataType × Location × String × List Parameter}
    {head : List Token} (h : functionHead.run r = .ok info r') (hhead : r.rest = head ++ r'.rest) :
    3 ≤ head.length := by
  obtain ⟨result, r₁, hresult, h⟩ := run_bind_eq_ok.1 h
  rw [run_bind_of_ok (run_current r₁)] at h
  obtain ⟨name, r₂, hname, h⟩ := run_bind_eq_ok.1 h
  obtain ⟨_, r₃, hopen, h⟩ := run_bind_eq_ok.1 h
  obtain ⟨parameters, r₄, hparameters, h⟩ := run_bind_eq_ok.1 h
  cases h
  have htakes : Takes (fun _ => True) Grammar.parametersBeforeBody := .parametersBeforeBody
  have hlength₁ := (Consumes.dataType.advances hresult).length_lt
  have hlength₂ := (Consumes.identifier.advances hname).length_lt
  have hlength₃ := ((Consumes.expect ..).advances hopen).length_lt
  have hlength₄ := (htakes.consumes.advances hparameters).length_lt
  have hlength := congrArg List.length hhead
  rw [List.length_append] at hlength
  omega

/-- A function whose head can be read has a body. -/
theorem run_functionDefinition_of_head {r r' : Reader} {head : DataType × Location × String × List Parameter}
    (h : functionHead.run r = .ok head r') : functionDefinition.run r = (functionBody head).run r' := by
  obtain ⟨result, r₁, hresult, h⟩ := run_bind_eq_ok.1 h
  rw [run_bind_of_ok (run_current r₁)] at h
  obtain ⟨name, r₂, hname, h⟩ := run_bind_eq_ok.1 h
  obtain ⟨_, r₃, hopen, h⟩ := run_bind_eq_ok.1 h
  obtain ⟨parameters, r', hrest, h⟩ := run_bind_eq_ok.1 h
  cases h
  rw [parametersBeforeBody, run_bind_of_ok (EStateM.run_modify _ r₃)] at hrest
  obtain ⟨parameters, r₄, hparameters, hrest⟩ := run_bind_eq_ok.1 hrest
  obtain ⟨_, r₅, hclose, hrest⟩ := run_bind_eq_ok.1 hrest
  obtain ⟨_, r₆, hbrace, hrest⟩ := run_bind_eq_ok.1 hrest
  rw [run_bind_of_ok (EStateM.run_modify _ r₆)] at hrest
  cases hrest
  have hsemicolon : (accept .semicolon).run r₅ = .ok false r₅ :=
    run_accept_of_ne (by simp [(run_expect_eq_ok hbrace).1])
  rw [functionDefinition, functionBy, run_bind_of_ok hresult, run_bind_of_ok (run_current r₁), run_bind_of_ok hname,
    run_bind_of_ok hopen, run_bind_of_ok (EStateM.run_modify _ r₃), run_bind_of_ok hparameters, run_bind_of_ok hclose,
    run_bind_of_ok hsemicolon]
  simp only [Bool.false_eq_true, if_false]
  rw [run_bind_of_ok hbrace, run_bind_of_ok (EStateM.run_modify _ r₆)]
  rfl

/-- A name and an opening parenthesis behind the type tell that a function is read. -/
theorem run_typedItem_of_function {length : Nat} {loc : Location} {name : String} {r : Reader}
    (hname : (r.ahead length).lexeme = .identifier name)
    (hopen : (r.ahead (length + 1)).lexeme = .symbol .openParen) :
    (typedItem length loc).run r = EStateM.run (do
      return (← functionDefinition).map .function) r := by
  rw [typedItem, run_bind_of_ok (run_lexemeAhead ..), run_bind_of_ok (run_lexemeAhead ..)]
  simp only [hname, hopen]

/-- What has the head of a function is read as one. -/
theorem run_topLevel_of_head {r r' : Reader} {head : DataType × Location × String × List Parameter}
    (h : functionHead.run r = .ok head r') : topLevel.run r = EStateM.run (do
      return (← functionDefinition).map .function) r := by
  obtain ⟨result, r₁, hresult, h⟩ := run_bind_eq_ok.1 h
  rw [run_bind_of_ok (run_current r₁)] at h
  obtain ⟨name, r₂, hidentifier, h⟩ := run_bind_eq_ok.1 h
  obtain ⟨_, r₃, hparen, -⟩ := run_bind_eq_ok.1 h
  obtain ⟨hname, rfl⟩ := run_identifier_eq_ok hidentifier
  have hopen : (r₁.ahead 1).lexeme = .symbol .openParen := by
    rw [Reader.ahead_one (by simp [hname]), (run_expect_eq_ok hparen).1]
  rw [dataType, run_bind_of_ok (run_current r)] at hresult
  rw [topLevel, run_bind_of_ok (run_current r)]
  split at hresult
  case h_6 hnext =>
    -- the type takes two tokens here, so the name stands one further on than for the other types
    rw [run_bind_of_ok (run_advance r)] at hresult
    obtain ⟨struct, r₄, htag, hresult⟩ := run_bind_eq_ok.1 hresult
    rw [run_bind_of_ok (EStateM.run_get r₄)] at hresult
    dsimp only at hresult
    split at hresult <;> cases hresult
    obtain ⟨hstruct, rfl⟩ := run_identifier_eq_ok htag
    have hend : r.next.lexeme ≠ .eof := by simp [hnext]
    have hend' : (r.withRest r.rest.tail).next.lexeme ≠ .eof := by simp [hstruct]
    have hfirst : (r.ahead 1).lexeme = .identifier struct := by rw [Reader.ahead_one hend, hstruct]
    have hsecond : (r.ahead 2).lexeme = .identifier name := by
      rw [Reader.ahead_succ hend, Reader.ahead_one hend', hname]
    have hthird : (r.ahead 3).lexeme = .symbol .openParen := by
      rw [Reader.ahead_succ hend, Reader.ahead_succ hend', hopen]
    simp only [hnext]
    rw [run_bind_of_ok (run_lexemeAhead ..), run_bind_of_ok (run_lexemeAhead ..)]
    simp only [hfirst, hsecond]
    exact run_typedItem_of_function hsecond hthird
  case h_7 => cases hresult
  all_goals
    next hnext =>
    rw [run_bind_of_ok (run_advance r)] at hresult
    cases hresult
    have hend : r.next.lexeme ≠ .eof := by simp [hnext]
    simp only [hnext]
    refine run_typedItem_of_function (by rw [Reader.ahead_one hend, hname]) ?_
    rw [Reader.ahead_succ hend, hopen]

/-! ## Items in front of other tokens -/

/-- The tokens agree in the first three at least. -/
def SharesFront (l l' : List Token) : Prop :=
  ∃ front more more', 3 ≤ front.length ∧ l = front ++ more ∧ l' = front ++ more'

/-- At the reader, the step looks at no more than three tokens behind those it reads. -/
def ReachesAt (p : ReadM α) (r : Reader) : Prop :=
  ∀ ⦃r' : Reader⦄ ⦃head ts : List Token⦄ ⦃a : α⦄, p.run r = .ok a r' → r.rest = head ++ r'.rest → head ≠ [] →
    SharesFront r'.rest ts → p.run (r.withRest (head ++ ts)) = .ok a (r'.withRest ts)

/-- Tokens that agree in front agree there also behind common tokens. -/
theorem SharesFront.append {l l' : List Token} (h : SharesFront l l') (head : List Token) :
    SharesFront (head ++ l) (head ++ l') := by
  obtain ⟨front, more, more', hlength, rfl, rfl⟩ := h
  refine ⟨head ++ front, more, more', ?_, (List.append_assoc ..).symm, (List.append_assoc ..).symm⟩
  rw [List.length_append]
  omega

/-- Tokens that agree in front begin with the same lexeme. -/
theorem SharesFront.endsAlike {stops : Lexeme → Prop} {l l' : List Token} (h : SharesFront l l') (r : Reader) :
    EndsAlike stops r l l' := by
  obtain ⟨front, more, more', hlength, rfl, rfl⟩ := h
  refine .append_of_ne_nil r more more' ?_
  rintro rfl
  cases hlength

/-- The tokens in front of others are ahead whatever the others are. -/
theorem ahead_withRest_append {front : List Token} {n : Nat} (h : n < front.length) (r : Reader)
    (more more' : List Token) : (r.withRest (front ++ more)).ahead n = (r.withRest (front ++ more')).ahead n := by
  induction front generalizing n with
  | nil => cases h
  | cons t ts ih =>
    cases n with
    | zero => rfl
    | succ n =>
      rw [List.cons_append, List.cons_append, Reader.ahead_withRest_cons_succ, Reader.ahead_withRest_cons_succ]
      exact ih (Nat.lt_of_succ_lt_succ h)

/-- What is left behind the next semicolon, if there is one, is left of other tokens as well. -/
theorem tail_dropWhile_append {p : Token → Bool} {head after ts : List Token} (hne : after ≠ [])
    (h : ((head ++ after).dropWhile p).tail = after) : ((head ++ ts).dropWhile p).tail = ts := by
  induction head with
  | nil =>
    have hle := (List.dropWhile_suffix (l := after) p).length_le
    have hlength := congrArg List.length h
    rw [List.nil_append, List.length_tail] at hlength
    have hpos := List.length_pos_iff.2 hne
    omega
  | cons t head ih =>
    by_cases hp : p t
    · rw [List.cons_append, List.dropWhile_cons_of_pos hp] at h ⊢
      exact ih h
    · rw [List.cons_append, List.dropWhile_cons_of_neg hp, List.tail_cons] at h ⊢
      rw [List.append_left_eq_self.1 h, List.nil_append]

namespace ReachesAt

variable {r : Reader}

theorem of_glancesAt {p : ReadM α} (hp : GlancesAt (fun _ => False) p r) : ReachesAt p r :=
  fun r' _ _ _ hrun hhead _ hts => hp.run_append hrun hhead (hts.endsAlike r')

/-- A step may begin with a look at one of the next lexemes that are within reach. -/
theorem lexemeAhead {n : Nat} {k : Lexeme → ReadM β} (hn : n ≤ 3) (hk : ReachesAt (k (r.ahead n).lexeme) r) :
    ReachesAt (lexemeAhead n >>= k) r := by
  intro r' head ts b hrun hhead hne hts
  have hahead : (r.withRest (head ++ ts)).ahead n = r.ahead n := by
    obtain ⟨front, more, more', hlength, hrest, rfl⟩ := hts
    have hlt : n < (head ++ front).length := by
      have hpos := List.length_pos_iff.2 hne
      rw [List.length_append]
      omega
    rw [← List.append_assoc, ahead_withRest_append hlt r more' more, List.append_assoc, ← hrest, ← hhead,
      r.withRest_rest]
  rw [run_bind_of_ok (run_lexemeAhead n r)] at hrun
  rw [run_bind_of_ok (run_lexemeAhead n _), hahead]
  exact hk hrun hhead hne hts

/-- A step may begin with a look at the next token. -/
theorem current {k : Token → ReadM β} (hk : ReachesAt (k r.next) r) : ReachesAt (current >>= k) r := by
  intro r' head ts b hrun hhead hne hts
  rw [run_bind_of_ok (run_current r)] at hrun
  have hnext : (r.withRest (head ++ ts)).next = r.next := by
    cases head with
    | nil => exact absurd rfl hne
    | cons t more =>
      rw [r.next_eq_head, hhead]
      rfl
  rw [run_bind_of_ok (run_current _), hnext]
  exact hk hrun hhead hne hts

theorem advance {k : Unit → ReadM β} (hk : Glances (fun _ => False) (k ())) : ReachesAt (advance >>= k) r := by
  intro r' head ts b hrun hhead hne hts
  cases hrest : r.rest with
  | nil => exact absurd (List.append_eq_nil_iff.1 (hhead.symm.trans hrest)).1 hne
  | cons t more => exact (GlancesAt.advance_cons hrest hk).run_append hrun hhead (hts.endsAlike r')

/-- A warning reads nothing. -/
theorem warn {warning : Warning} {loc : Location} {k : Unit → ReadM β} (hk : ∀ r', ReachesAt (k ()) r') :
    ReachesAt (warn warning loc >>= k) r := fun _ _ _ _ hrun hhead hne hts => hk _ hrun hhead hne hts

/-- What is skipped ends with its semicolon. -/
theorem skipPastSemicolon {a : α} : ReachesAt (do
    Grammar.skipPastSemicolon
    return a) r := by
  have hrun : ∀ r' : Reader, EStateM.run (do
      Grammar.skipPastSemicolon
      return a) r' = .ok a (r'.withRest (r'.rest.dropWhile fun t => !decide (t.lexeme = .symbol .semicolon)).tail) := by
    intro r'
    rw [Grammar.skipPastSemicolon, run_bind_of_ok (EStateM.run_modify _ r'), Reader.with_queue_eq_withRest]
    rfl
  intro r' head ts b hok hhead hne hts
  rw [hrun r] at hok
  cases hok
  have hafter : (r.rest.dropWhile fun t => !decide (t.lexeme = .symbol .semicolon)).tail ≠ [] := by
    obtain ⟨front, more, -, hlength, hrest, -⟩ := hts
    rw [Reader.rest_withRest] at hrest
    rw [hrest]
    rintro hnil
    rw [(List.append_eq_nil_iff.1 hnil).1] at hlength
    cases hlength
  rw [Reader.rest_withRest] at hhead
  have hskip : ((head ++ ts).dropWhile fun t => !decide (t.lexeme = .symbol .semicolon)).tail = ts :=
    tail_dropWhile_append hafter (by rw [← hhead])
  rw [hrun, Reader.rest_withRest, hskip]
  rfl

theorem skipWarning (warning : Warning) (loc : Location) : ReachesAt (skipWarning warning loc) r :=
  warn fun _ => advance (.pure _)

/-- An item that begins with a type looks at the name and the symbol behind the type at most. -/
theorem typedItem {length : Nat} (h : length ≤ 2) (loc : Location) : ReachesAt (typedItem length loc) r := by
  refine lexemeAhead (by omega) (lexemeAhead (by omega) ?_)
  split
  · exact of_glancesAt ((Takes.functionDefinition.bind fun _ => .pure _).glances.glancesAt r)
  · exact warn fun _ => skipPastSemicolon
  · exact skipWarning ..

/-- An item at the top of a program looks at no more than three tokens behind it. -/
theorem topLevel (r : Reader) : ReachesAt topLevel r := by
  apply current
  split
  case h_1 =>
    refine lexemeAhead (by omega) (lexemeAhead (by omega) ?_)
    split
    · exact advance (Takes.structDefinition.bind fun _ => .pure _).glances
    · exact typedItem le_rfl _
    · exact skipWarning ..
  case h_7 => exact skipWarning ..
  all_goals exact typedItem (by omega) _

end ReachesAt

/-! ## Other braces in a function of a program -/

/-- The tokens `ts` are those before the reader, but for braces or empty statements in the body of one function. -/
inductive RebracesItems : Reader → List Token → Prop where
  /-- The function that is next. -/
  | body {r r' : Reader} {info : DataType × Location × String × List Parameter} {head ts : List Token}
      (hinfo : functionHead.run r = .ok info r') (hhead : r.rest = head ++ r'.rest) (hts : Rebraces .statements r' ts) :
      RebracesItems r (head ++ ts)
  /-- A function behind the next item. -/
  | later {r r' : Reader} {item : Option Item} {head ts : List Token} (hend : r.next.lexeme ≠ .eof)
      (hitem : topLevel.run r = .ok item r') (hhead : r.rest = head ++ r'.rest) (hts : RebracesItems r' ts) :
      RebracesItems r (head ++ ts)

/-- Before the end, an item is read and then the items behind it. -/
theorem run_items_of_ne_eof {r : Reader} (h : r.next.lexeme ≠ .eof) :
    Production.items.read.run r = EStateM.run (do
      let item ← topLevel
      return item.toList ++ (← Production.items.read)) r := by
  rw [← Production.run_unfold, Production.unfold, itemsBy, run_bind_of_ok (run_nextIs _ r)]
  simp only [h, decide_false, Bool.false_eq_true, if_false]
  rfl

namespace RebracesItems

variable {r : Reader} {ts : List Token}

/-- Other braces come late enough to leave the first three tokens as they are. -/
theorem sharesFront (h : RebracesItems r ts) : SharesFront r.rest ts := by
  induction h with
  | body hinfo hhead =>
    exact ⟨_, _, _, three_le_length_of_head hinfo hhead, hhead, rfl⟩
  | later _ _ hhead _ ih =>
    rw [hhead]
    exact ih.append _

/-- Other braces are found before the end of the source text. -/
theorem next_ne_eof (h : RebracesItems r ts) : r.next.lexeme ≠ .eof := by
  cases h with
  | later hend => exact hend
  | body hinfo =>
    intro heof
    obtain ⟨result, r₁, hresult, -⟩ := run_bind_eq_ok.1 hinfo
    rw [dataType, run_bind_of_ok (run_current r), heof] at hresult
    cases hresult

/-- The items are those that begin with the next one. -/
theorem run_items_eq (h : RebracesItems r ts) :
    Production.items.read.run (r.withRest ts) = EStateM.run (do
      let item ← topLevel
      return item.toList ++ (← Production.items.read)) (r.withRest ts) := by
  apply run_items_of_ne_eof
  have hsame : EndsAlike (fun _ => False) r r.rest ts := h.sharesFront.endsAlike r
  rw [hsame.resolve_right id, r.withRest_rest]
  exact h.next_ne_eof

/-- Items are read as before when a function inside has other braces. -/
theorem run_items (h : RebracesItems r ts) :
    Production.items.read.run (r.withRest ts) = Production.items.read.run r := by
  have heq := h.run_items_eq
  have hend := h.next_ne_eof
  induction h with
  | @body r r' info head ts hinfo hhead hts =>
    have hinfo' : functionHead.run (r.withRest (head ++ ts)) = .ok info (r'.withRest ts) :=
      Takes.functionHead.glances.run_append hinfo hhead (hts.endsAlike.mono fun _ _ => trivial)
    have hbody : (functionBody info).run (r'.withRest ts) = (functionBody info).run r' := by
      rw [functionBody, EStateM.run_bind, EStateM.run_bind, hts.run_eq]
    have hfunction : topLevel.run (r.withRest (head ++ ts)) = topLevel.run r := by
      rw [run_topLevel_of_head hinfo', run_topLevel_of_head hinfo, EStateM.run_bind, EStateM.run_bind,
        run_functionDefinition_of_head hinfo', run_functionDefinition_of_head hinfo, hbody]
    rw [heq, run_items_of_ne_eof hend, EStateM.run_bind, EStateM.run_bind, hfunction]
  | @later r r' item head ts _ hitem hhead hts ih =>
    have hne : head ≠ [] := ((ConsumesAt.topLevel hend).advances hitem).ne_nil_of_rest_eq hhead
    have hitem' := ReachesAt.topLevel r hitem hhead hne hts.sharesFront
    have hmore := ih hts.run_items_eq hts.next_ne_eof
    rw [heq, run_items_of_ne_eof hend, run_bind_of_ok hitem', run_bind_of_ok hitem, EStateM.run_bind, EStateM.run_bind,
      hmore]

/-- **Other braces are read as before** in a program. -/
theorem run_program (h : RebracesItems r ts) : program.run (r.withRest ts) = program.run r := by
  have hprogram : ∀ r' : Reader, program.run r' = EStateM.run (do
      let items ← Production.items.read
      note (.readProgram items.length (← get).tables.structs.count)
      return (⟨items⟩ : Program)) r' := fun _ => rfl
  rw [hprogram, hprogram, EStateM.run_bind, EStateM.run_bind, h.run_items]

end RebracesItems

end ClockedC.Grammar
