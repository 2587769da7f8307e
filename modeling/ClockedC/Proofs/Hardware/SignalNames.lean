import ClockedC.Proofs.Hardware.FreshNames
import ClockedC.Proofs.Hardware.Scope

/-!
# Names of signals

A signal is called like its variable, or like its variable with something behind it. What is put behind a name is chosen
so that the result is new.
-/

namespace ClockedC

/-! ## Replacements -/

/-- Every replacement is one of the names tried for what it replaces. -/
def AreCandidates (pairs : List (String × String)) : Prop := ∀ pair ∈ pairs, ∃ n, pair.2 = candidateName pair.1 n

/-- Every replacement begins with the name it replaces. -/
def ExtendNames (pairs : List (String × String)) : Prop := ∀ pair ∈ pairs, ∃ suffix, pair.2 = pair.1 ++ suffix

/-- Candidates begin with the names they are tried for. -/
theorem AreCandidates.extendNames {pairs : List (String × String)} (h : AreCandidates pairs) : ExtendNames pairs := by
  intro pair hpair
  obtain ⟨n, hn⟩ := h pair hpair
  rw [hn]
  exact candidateName_eq_append ..

/-- A replacement that is found is in the list. -/
theorem mem_of_lookup {pairs : List (String × String)} {name signal : String}
    (hlookup : pairs.lookup name = some signal) : (name, signal) ∈ pairs := by
  obtain ⟨front, back, rfl, -⟩ := List.lookup_eq_some_iff.1 hlookup
  simp

theorem ExtendNames.of_lookup {pairs : List (String × String)} (h : ExtendNames pairs) {name signal : String}
    (hlookup : pairs.lookup name = some signal) : ∃ suffix, signal = name ++ suffix :=
  h _ (mem_of_lookup hlookup)

/-- If all replacements differ, a replacement tells what it replaces. -/
theorem eq_of_lookup_eq {pairs : List (String × String)} (h : (pairs.map Prod.snd).Nodup) {name name' signal : String}
    (hname : pairs.lookup name = some signal) (hname' : pairs.lookup name' = some signal) : name = name' :=
  congrArg Prod.fst (List.inj_on_of_nodup_map h (mem_of_lookup hname) (mem_of_lookup hname') rfl)

/-- The replacements differ from each other and from the names to avoid, with which they are all that is taken, and they
are names tried for what they replace. -/
structure Renaming.Avoids (avoid : List String) (r : Renaming) : Prop
    extends GivenApart avoid (r.pairs.map Prod.snd) r.taken where
  areCandidates : AreCandidates r.pairs

namespace Renaming

/-- What is given one after the other avoids what was taken before. -/
theorem Given.avoids {avoid : List String} {r : Renaming} (h : r.Given avoid) : r.Avoids avoid := by
  have hcandidates := forall₂_mapM_takeName (r.pairs.map Prod.fst) avoid
  have happart := (GivenApart.nil avoid).append_mapM (r.pairs.map Prod.fst)
  rw [Given] at h
  rw [h] at hcandidates happart
  rw [List.forall₂_map_left_iff, List.forall₂_map_right_iff, List.forall₂_same] at hcandidates
  exact ⟨happart, hcandidates⟩

theorem avoids_addAll (avoid names : List String) : ((mk [] avoid).addAll names).Avoids avoid :=
  ((Given.nil avoid).addAll names).avoids

/-- Exactly the names that were given have a replacement. -/
theorem isSome_lookup_addAll (r : Renaming) (names : List String) (name : String) :
    ((r.addAll names).pairs.lookup name).isSome ↔ (r.pairs.lookup name).isSome ∨ name ∈ names := by
  rw [isSome_lookup_iff, isSome_lookup_iff, map_fst_addAll, List.mem_append, List.mem_eraseDups, List.mem_filter,
    decide_eq_true_eq]
  tauto

end Renaming

/-! ## Signals -/

/-- All replacements of a function begin with the names they replace. -/
structure Signals.Extending (signals : Signals) : Prop where
  fixed : ExtendNames signals.fixed
  shadows : ExtendNames signals.shadows

namespace Signals.Extending

theorem ofFunction (f : Function) : (Signals.ofFunction f).Extending :=
  ⟨(Renaming.avoids_addAll ..).areCandidates.extendNames, (Renaming.avoids_addAll ..).areCandidates.extendNames⟩

variable {signals : Signals}

/-- A declaration changes no replacement. -/
theorem declare (h : signals.Extending) (name : String) : (signals.declare name).Extending := by
  rw [Signals.declare]
  split
  · exact ⟨h.fixed, h.shadows⟩
  · exact h

/-- A statement changes no replacement. -/
theorem behind (h : signals.Extending) (s : Statement) : (signals.behind s).Extending := by
  cases s with
  | declare decl => exact h.declare decl.name
  | _ => exact h

/-- The signal outside of declarations begins with the name. -/
theorem outer_eq_append (h : signals.Extending) (name : String) : ∃ suffix, signals.outer name = name ++ suffix := by
  rw [outer]
  split
  · next fresh hlookup => exact h.fixed.of_lookup hlookup
  · split
    · exact ⟨"_local", rfl⟩
    · exact ⟨"", by simp⟩

/-- A signal begins with the name of its variable. -/
theorem signal_eq_append (h : signals.Extending) (name : String) : ∃ suffix, signals.signal name = name ++ suffix := by
  rw [signal]
  split
  · cases hshadow : signals.shadow? name with
    | none => exact h.outer_eq_append name
    | some shadow => exact h.shadows.of_lookup hshadow
  · exact h.outer_eq_append name

end Signals.Extending

end ClockedC
