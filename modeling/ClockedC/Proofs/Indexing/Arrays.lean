import ClockedC.Proofs.Indexing.Bounds
import ClockedC.Proofs.Reading.Segments

/-!
# Array declarations among tokens

The declaration of an array is a type, a name, and a number in brackets, wherever it stands. While the body of a
function is read, the table of arrays is what registering these declarations gives, one after another.
-/

namespace ClockedC

/-! ## Declarations -/

/-- The lexemes behind the type with which some lexemes begin. -/
def behindType? : List Lexeme → Option (List Lexeme)
  | .keyword .int :: rest => some rest
  | .keyword .float :: rest => some rest
  | .keyword .double :: rest => some rest
  | .keyword .char :: rest => some rest
  | .keyword .struct :: .identifier _ :: rest => some rest
  | _ => none

/-- The name and the length with which some lexemes begin. -/
def namedLength? : List Lexeme → Option (String × Nat)
  | .identifier name :: .symbol .openBracket :: .number text :: .symbol .closeBracket :: _ =>
    (Text.natural64? text).map (name, ·)
  | _ => none

/-- The arrays that are declared among some lexemes, with their lengths. -/
def declaredArrays : List Lexeme → List (String × Nat)
  | [] => []
  | lexeme :: lexemes => ((behindType? (lexeme :: lexemes)).bind namedLength?).toList ++ declaredArrays lexemes

/-- Among the lexemes the arrays `found` are declared, whatever follows. -/
def Declares (lexemes : List Lexeme) (found : List (String × Nat)) : Prop :=
  ∀ rest, declaredArrays (lexemes ++ rest) = found ++ declaredArrays rest

/-- A type of a variable, of one lexeme or of two. -/
inductive IsType : List Lexeme → Prop
  | word {keyword : Keyword} (mem : keyword ∈ [.int, .float, .double, .char]) : IsType [.keyword keyword]
  | struct (name : String) : IsType [.keyword .struct, .identifier name]

/-- A lexeme that begins no type begins no declaration. -/
theorem declaredArrays_cons_of_not_startsVariable {lexeme : Lexeme} (h : Grammar.startsVariable lexeme = false)
    (rest : List Lexeme) : declaredArrays (lexeme :: rest) = declaredArrays rest := by
  have hnone : behindType? (lexeme :: rest) = none := by
    unfold behindType?
    split <;> simp_all [Grammar.startsVariable]
  rw [declaredArrays, hnone]
  rfl

/-- Behind a type there may be the name and the length of an array. -/
theorem IsType.declaredArrays_append {type : List Lexeme} (h : IsType type) (rest : List Lexeme) :
    declaredArrays (type ++ rest) = (namedLength? rest).toList ++ declaredArrays rest := by
  cases h with
  | word hmem =>
    simp only [List.mem_cons, List.not_mem_nil, or_false] at hmem
    rcases hmem with rfl | rfl | rfl | rfl <;> rfl
  | struct name =>
    have hname : declaredArrays (.identifier name :: rest) = declaredArrays rest :=
      declaredArrays_cons_of_not_startsVariable rfl rest
    rw [List.cons_append, List.cons_append, List.nil_append, declaredArrays, hname]
    rfl

namespace Declares

variable {lexemes lexemes' : List Lexeme} {found found' : List (String × Nat)}

/-- The arrays are those that are declared among the lexemes alone. -/
theorem declaredArrays_eq (h : Declares lexemes found) : declaredArrays lexemes = found := by
  simpa [declaredArrays] using h []

theorem nil : Declares [] [] := fun _ => rfl

theorem append (h : Declares lexemes found) (h' : Declares lexemes' found') :
    Declares (lexemes ++ lexemes') (found ++ found') := by
  intro rest
  rw [List.append_assoc, h, h', List.append_assoc]

/-- A lexeme with which no declaration begins. -/
theorem single {lexeme : Lexeme} (h : Grammar.startsVariable lexeme = false) : Declares [lexeme] [] :=
  declaredArrays_cons_of_not_startsVariable h

/-- The declaration of an array up to its closing bracket. -/
theorem array {type : List Lexeme} (htype : IsType type) {text : String} {n : Nat} (hn : Text.natural64? text = some n)
    (name : String) :
    Declares (type ++ [.identifier name, .symbol .openBracket, .number text, .symbol .closeBracket]) [(name, n)] := by
  intro rest
  have hbrackets : Declares [.identifier name, .symbol .openBracket, .number text, .symbol .closeBracket] [] :=
    (single rfl).append ((single rfl).append ((single rfl).append (single rfl)))
  rw [List.append_assoc, htype.declaredArrays_append, hbrackets]
  simp [namedLength?, hn]

/-- The declaration of another variable up to the lexeme behind its name. -/
theorem scalar {type : List Lexeme} (htype : IsType type) (name : String) {symbol : Symbol}
    (h : symbol ≠ .openBracket) : Declares (type ++ [.identifier name, .symbol symbol]) [] := by
  intro rest
  have hbehind : Declares [.identifier name, .symbol symbol] [] := (single rfl).append (single rfl)
  have hnone : namedLength? ([.identifier name, .symbol symbol] ++ rest) = none := by
    unfold namedLength?
    split <;> simp_all
  rw [List.append_assoc, htype.declaredArrays_append, hbehind, hnone]
  rfl

end Declares

/-! ## The table of arrays -/

namespace ArraySizes

/-- The table with more arrays registered, one after another. -/
def registerAll (table : ArraySizes) (found : List (String × Nat)) : ArraySizes :=
  found.foldl (fun table declared => table.register declared.1 declared.2) table

@[simp] theorem registerAll_append (table : ArraySizes) (found found' : List (String × Nat)) :
    table.registerAll (found ++ found') = (table.registerAll found).registerAll found' := List.foldl_append

/-- In the table an array has its last length. -/
theorem size?_registerAll_empty (found : List (String × Nat)) (name : String) :
    (empty.registerAll found).size? name = found.reverse.lookup name := by
  induction found using List.reverseRecOn with
  | nil => rfl
  | append_singleton found declared ih =>
    obtain ⟨declared, n⟩ := declared
    rw [registerAll_append, List.reverse_append]
    show ((empty.registerAll found).register declared n).size? name = List.lookup name ((declared, n) :: found.reverse)
    by_cases h : declared = name
    · rw [h, size?_register_self, List.lookup_cons_self]
    · rw [size?_register_of_ne _ _ h, ih, List.lookup_cons, beq_eq_false_iff_ne.2 (Ne.symm h)]

/-- An array in the table was declared with that length, and none of its name was declared behind it. -/
theorem exists_of_size?_registerAll {found : List (String × Nat)} {name : String} {size : Nat}
    (h : (empty.registerAll found).size? name = some size) :
    ∃ before after, found = before ++ (name, size) :: after ∧ ∀ declared ∈ after, declared.1 ≠ name := by
  rw [size?_registerAll_empty] at h
  obtain ⟨front, back, hfound, hfront⟩ := List.lookup_eq_some_iff.1 h
  refine ⟨back.reverse, front.reverse, ?_, ?_⟩
  · rw [← List.reverse_reverse found, hfound]
    simp
  · intro declared hdeclared
    have hne := hfront declared (List.mem_reverse.1 hdeclared)
    exact Ne.symm (bne_iff_ne.1 hne)

end ArraySizes

/-! ## Readers further on -/

/-- The reader `r'` is `r` behind some of its tokens. The arrays that are declared among these are registered, and none
of their declarations goes on behind them. -/
def Reader.WalksTo (r r' : Reader) : Prop :=
  ∃ tokens found, r.rest = tokens ++ r'.rest ∧ Declares (tokens.map (·.lexeme)) found ∧
    r'.tables.arrays = r.tables.arrays.registerAll found

namespace Reader.WalksTo

variable {r r' r'' : Reader}

/-- A reader before the same tokens with the same arrays. -/
theorem of_rest_eq (hrest : r'.rest = r.rest) (harrays : r'.tables.arrays = r.tables.arrays) : r.WalksTo r' :=
  ⟨[], [], hrest.symm, .nil, harrays⟩

theorem refl (r : Reader) : r.WalksTo r := of_rest_eq rfl rfl

/-- A walk may go on from where another one ends. -/
theorem trans (h : r.WalksTo r') (h' : r'.WalksTo r'') : r.WalksTo r'' := by
  obtain ⟨tokens, found, hrest, hdeclares, harrays⟩ := h
  obtain ⟨tokens', found', hrest', hdeclares', harrays'⟩ := h'
  refine ⟨tokens ++ tokens', found ++ found', ?_, ?_, ?_⟩
  · rw [hrest, hrest', List.append_assoc]
  · rw [List.map_append]
    exact hdeclares.append hdeclares'
  · rw [harrays', harrays, ArraySizes.registerAll_append]

/-- Going past a token with which no declaration begins. -/
theorem tail (h : Grammar.startsVariable r.next.lexeme = false) : r.WalksTo (r.withRest r.rest.tail) := by
  cases hrest : r.rest with
  | nil => exact of_rest_eq (by simp [hrest]) rfl
  | cons t ts =>
    have hnext : r.next = t := by simp [next_eq_head, hrest]
    rw [hnext] at h
    exact ⟨[t], [], hrest, .single h, rfl⟩

end Reader.WalksTo

/-! ## The tokens of a declaration -/

namespace Grammar

/-- A type of a variable is read from its tokens. -/
theorem exists_isType_of_dataType {type : DataType} {r r' : Reader} (h : dataType.run r = .ok type r')
    (hvoid : type ≠ .void) : ∃ tokens, r.rest = tokens ++ r'.rest ∧ IsType (tokens.map (·.lexeme)) := by
  rw [dataType, run_bind_of_ok (run_current r)] at h
  split at h
  case h_5 =>
    rw [run_bind_of_ok (run_advance r)] at h
    cases h
    exact absurd rfl hvoid
  case h_6 hnext =>
    rw [run_bind_of_ok (run_advance r)] at h
    obtain ⟨name, r₁, hname, h⟩ := run_bind_eq_ok.1 h
    rw [run_bind_of_ok (EStateM.run_get r₁)] at h
    dsimp only at h
    split at h <;> cases h
    have htail : r.rest.tail = _ :: r'.rest := rest_of_identifier hname
    refine ⟨[⟨.keyword .struct, r.next.loc⟩, ⟨.identifier name, (r.withRest r.rest.tail).next.loc⟩], ?_, .struct name⟩
    rw [Reader.rest_eq_cons_of_next hnext (by simp), htail]
    rfl
  case h_7 => cases h
  all_goals
    next hnext =>
    rw [run_bind_of_ok (run_advance r)] at h
    cases h
    exact ⟨[_], Reader.rest_eq_cons_of_next hnext (by simp), .word (by simp)⟩

/-- The length of an array is read from a number. -/
theorem rest_of_arrayLength {name : String} {n : Nat} {r r' : Reader} (h : (arrayLength name).run r = .ok n r') :
    ∃ text, r.rest = ⟨.number text, r.next.loc⟩ :: r'.rest ∧ Text.natural64? text = some n := by
  rw [arrayLength, run_bind_of_ok (run_current r)] at h
  split at h
  · next text hnext =>
    rw [run_bind_of_ok (run_advance r)] at h
    split at h
    · next n' hn' =>
      cases h
      exact ⟨text, Reader.rest_eq_cons_of_next hnext (by simp), (Option.filter_eq_some_iff.1 hn').1⟩
    · cases h
  · cases h

/-- Behind the name of a variable its array is registered if there are brackets, and nothing is read if there are
none. -/
theorem rest_of_arrayBrackets {name : String} {length : Option Nat} {r r' : Reader}
    (h : (arrayBrackets name).run r = .ok length r') :
    (r' = r ∧ r.next.lexeme ≠ .symbol .openBracket) ∨
      ∃ text n tokens, r.rest = tokens ++ r'.rest ∧
        tokens.map (·.lexeme) = [.symbol .openBracket, .number text, .symbol .closeBracket] ∧
        Text.natural64? text = some n ∧ r'.tables.arrays = r.tables.arrays.register name n := by
  obtain ⟨b, r₁, haccept, h⟩ := run_bind_eq_ok.1 h
  cases b with
  | true =>
    obtain ⟨n, r₂, hlength, h⟩ := run_bind_eq_ok.1 h
    obtain ⟨_, r₃, hclose, h⟩ := run_bind_eq_ok.1 h
    rw [run_bind_of_ok (EStateM.run_modify _ r₃)] at h
    cases h
    obtain ⟨text, hrest, hn⟩ := rest_of_arrayLength hlength
    have htables : r₃.tables = r.tables := (((Moves.accept _).passes haccept).trans
      (((Moves.arrayLength _).passes hlength).trans ((Moves.expect ..).passes hclose))).tables_eq
    refine .inr ⟨text, n, [⟨.symbol .openBracket, r.next.loc⟩, ⟨.number text, r₁.next.loc⟩,
      ⟨.symbol .closeBracket, r₂.next.loc⟩], ?_, rfl, hn, ?_⟩
    · rw [rest_of_accept haccept, hrest, rest_of_expect hclose]
      rfl
    · show r₃.tables.arrays.register name n = _
      rw [htables]
  | false =>
    cases h
    obtain ⟨htrue, -⟩ | ⟨-, hnext, rfl⟩ := run_accept_eq_ok haccept
    · cases htrue
    · exact .inl ⟨rfl, hnext⟩

end Grammar

end ClockedC
