import ClockedC.Ast.Program
import ClockedC.Vhdl.Design

/-!
# Signal names

Every variable of a function has a signal. Its name is the name of the variable, with two exceptions: a name
that every entity uses for a port of its own is replaced, and a local variable with the name of a parameter has
a signal of its own, in sight from its declaration to the end of the block around it. A replacement is free of
the names of all variables and of all other replacements.

* `freshName` : the first free name of a sequence;
* `takeName` : takes it;
* `Signals.ofFunction` : the replacements of a function;
* `Signals.signal` : the signal of a variable where a statement stands.
-/

namespace ClockedC

/-! ## Fresh names -/

/-- The names tried in place of `base`. Their numbers have no bound here; a counter of 32 bits numbers them the same
while fewer than 2 ^ 31 names are taken, since a name's number is at most the count of the taken ones. -/
def candidateName (base : String) : Nat → String
  | 0 => base ++ "_local"
  | n + 1 => base ++ "_local" ++ toString (n + 1)

/-- The first name tried in place of `base` that is not taken. One more name than there are taken ones is
enough. -/
def freshName (base : String) (taken : List String) : String :=
  (((List.range (taken.length + 1)).map (candidateName base)).find? (· ∉ taken)).getD (candidateName base 0)

/-- Gives the first free name tried in place of `base`, which is taken from then on. -/
def takeName (base : String) : StateM (List String) String :=
  modifyGet fun taken =>
    let fresh := freshName base taken
    (fresh, fresh :: taken)

@[simp] theorem run_takeName (base : String) (taken : List String) :
    (takeName base).run taken = (freshName base taken, freshName base taken :: taken) := rfl

/-- Replacements, and the names that are taken. -/
structure Renaming where
  pairs : List (String × String)
  taken : List String

/-- Gives `name` a fresh replacement unless it has one. -/
def Renaming.add (r : Renaming) (name : String) : Renaming :=
  if (r.pairs.lookup name).isSome then r
  else
    let (fresh, taken) := (takeName name).run r.taken
    ⟨r.pairs ++ [(name, fresh)], taken⟩

/-- Gives every one of `names` a fresh replacement, in their order. -/
def Renaming.addAll (r : Renaming) (names : List String) : Renaming :=
  names.foldl Renaming.add r

/-- Whether every entity has a port of that name. -/
def isReserved (name : String) : Bool := name ∈ Vhdl.reservedPorts

/-! ## The signals of a function -/

/-- How the variables of a function are named in hardware. -/
structure Signals where
  /-- The replacements of reserved names. -/
  fixed : List (String × String) := []
  /-- The signals of local variables that have the name of a parameter. -/
  shadows : List (String × String) := []
  /-- Those of them whose declaration is in sight. -/
  active : List String := []
  deriving Repr

namespace Signals

/-- The signals at the beginning of a function. -/
def ofFunction (f : Function) : Signals :=
  let parameters := f.parameters.map (·.name)
  let locals := f.locals.map (·.name)
  let names := parameters ++ locals
  let fixed := (Renaming.mk [] names).addAll (names.filter isReserved)
  let shadows := (Renaming.mk [] fixed.taken).addAll (locals.filter (· ∈ parameters))
  { fixed := fixed.pairs, shadows := shadows.pairs }

/-- The signal of its own of a local variable that has the name of a parameter. -/
def shadow? (signals : Signals) (name : String) : Option String := signals.shadows.lookup name

/-- The signal of a variable whose name no local variable in sight takes from a parameter. -/
def outer (signals : Signals) (name : String) : String :=
  match signals.fixed.lookup name with
  | some fresh => fresh
  | none => if isReserved name then name ++ "_local" else name

/-- The signal that a name stands for. -/
def signal (signals : Signals) (name : String) : String :=
  if name ∈ signals.active then (signals.shadow? name).getD (signals.outer name) else signals.outer name

/-- The signal of the local variable called `name`. -/
def localSignal (signals : Signals) (name : String) : String :=
  (signals.shadow? name).getD (signals.signal name)

/-- Brings the declaration of a local variable into sight. -/
def declare (signals : Signals) (name : String) : Signals :=
  if (signals.shadow? name).isSome ∧ name ∉ signals.active then
    { signals with active := signals.active ++ [name] }
  else signals

/-- What is in sight where a block begins. -/
def enterBlock (signals : Signals) : List String := signals.active

/-- Brings back what was in sight where a block began. -/
def leaveBlock (signals : Signals) (saved : List String) : Signals := { signals with active := saved }

@[simp] theorem leaveBlock_enterBlock (signals : Signals) :
    signals.leaveBlock signals.enterBlock = signals := rfl

/-- A declaration keeps the signals themselves. -/
@[simp] theorem shadow?_declare (signals : Signals) (declared name : String) :
    (signals.declare declared).shadow? name = signals.shadow? name := by
  unfold declare
  split <;> rfl

/-- A declaration keeps the signals of everything else. -/
@[simp] theorem outer_declare (signals : Signals) (declared name : String) :
    (signals.declare declared).outer name = signals.outer name := by
  unfold declare
  split <;> rfl

/-- After its declaration, a local variable is read from its own signal. -/
theorem signal_declare_self (signals : Signals) (name : String) :
    (signals.declare name).signal name = signals.localSignal name := by
  rw [signal, shadow?_declare, outer_declare, localSignal, signal]
  cases h : signals.shadow? name with
  | none => simp
  | some s =>
    have : name ∈ (signals.declare name).active := by
      by_cases hmem : name ∈ signals.active <;> simp [declare, h, hmem]
    simp [this]

end Signals

end ClockedC
