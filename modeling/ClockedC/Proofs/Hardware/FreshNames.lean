import Mathlib
import ClockedC.Hardware.Signals

/-!
# Fresh names

A search for a free name tries one name after the other. No name is tried twice, so every vain try meets another one of
the taken names, and the search ends when these are used up at the latest. What it finds is taken from then on. So names
that are found one after the other differ, whatever they are tried in place of.

* `fresh_names_first_and_distinct` : one name, several names, and the replacements of a function.
-/

namespace ClockedC

/-! ## Names that are tried -/

/-- A name that is tried begins with the name it is tried for. -/
theorem candidateName_eq_append (base : String) (n : Nat) : ∃ suffix, candidateName base n = base ++ suffix := by
  cases n with
  | zero => exact ⟨"_local", rfl⟩
  | succ n => exact ⟨"_local" ++ toString (n + 1), by rw [candidateName, String.append_assoc]⟩

/-- No name is tried twice. -/
theorem candidateName_injective (base : String) : Function.Injective (candidateName base) := by
  have hne (n : Nat) : toString (n + 1) ≠ "" := by
    rw [Nat.toString_eq_repr, ← String.toList_inj.ne]
    simp
  intro m n h
  cases m with
  | zero =>
    cases n with
    | zero => rfl
    | succ n =>
      rw [candidateName, candidateName, eq_comm, String.append_eq_left_iff] at h
      exact absurd h (hne n)
  | succ m =>
    cases n with
    | zero =>
      rw [candidateName, candidateName, String.append_eq_left_iff] at h
      exact absurd h (hne m)
    | succ n =>
      rw [candidateName, candidateName, String.append_right_inj, Nat.toString_eq_repr, Nat.toString_eq_repr] at h
      exact Nat.repr_injective h

/-! ## The first free name -/

/-- So many names are tried in vain in place of `base`, and the next one is free. -/
structure IsFirstFree (base : String) (taken : List String) (tries : Nat) : Prop where
  free : candidateName base tries ∉ taken
  tried : ∀ n < tries, candidateName base n ∈ taken

/-- No more names can be tried in vain than there are taken ones. -/
theorem le_card_of_tried {base : String} {taken : List String} {tries : Nat}
    (htried : ∀ n < tries, candidateName base n ∈ taken) : tries ≤ taken.toFinset.card := by
  have hsubset : (Finset.range tries).image (candidateName base) ⊆ taken.toFinset := by
    intro name hname
    obtain ⟨n, hn, rfl⟩ := Finset.mem_image.1 hname
    exact List.mem_toFinset.2 (htried n (Finset.mem_range.1 hn))
  calc tries = ((Finset.range tries).image (candidateName base)).card := by
        rw [Finset.card_image_of_injective _ (candidateName_injective base), Finset.card_range]
    _ ≤ taken.toFinset.card := Finset.card_le_card hsubset

/-- The search ends, since finitely many names are taken. -/
theorem exists_isFirstFree (base : String) (taken : List String) : ∃ tries, IsFirstFree base taken tries := by
  have hfree : ∃ n, candidateName base n ∉ taken := by
    by_contra hall
    push Not at hall
    have hcard : taken.toFinset.card + 1 ≤ taken.toFinset.card := le_card_of_tried fun n _ => hall n
    omega
  refine ⟨Nat.find hfree, Nat.find_spec hfree, ?_⟩
  intro n hn
  simpa using Nat.find_min hfree hn

/-- The search as a loop, where `candidate` is under test and `next` is the number of this test. If the name is free,
the loop stops. If it is taken, the name with `next` behind it is tested next. The loop ends with `found` in test number
`tested`, and a loop that goes on forever ends with nothing. -/
inductive SearchEnds (base : String) (taken : List String) :
    (candidate : String) → (next : Nat) → (found : String) → (tested : Nat) → Prop
  | stop {candidate : String} {next : Nat} : candidate ∉ taken → SearchEnds base taken candidate next candidate next
  | goOn {candidate found : String} {next tested : Nat} : candidate ∈ taken →
      SearchEnds base taken (base ++ "_local" ++ toString next) (next + 1) found tested →
      SearchEnds base taken candidate next found tested

/-- The loop ends at a name that is not taken. -/
theorem searchEnds_of_not_mem {base candidate : String} {taken : List String} (h : candidate ∉ taken)
    {next : Nat} {found : String} {tested : Nat} :
    SearchEnds base taken candidate next found tested ↔ found = candidate ∧ tested = next := by
  constructor
  · intro hends
    cases hends with
    | stop => exact ⟨rfl, rfl⟩
    | goOn hmem => exact absurd hmem h
  · rintro ⟨rfl, rfl⟩
    exact .stop h

/-- The loop goes on from a name that is taken with the next number. -/
theorem searchEnds_of_mem {base candidate : String} {taken : List String} (h : candidate ∈ taken)
    {next : Nat} {found : String} {tested : Nat} :
    SearchEnds base taken candidate next found tested ↔
      SearchEnds base taken (base ++ "_local" ++ toString next) (next + 1) found tested := by
  constructor
  · intro hends
    cases hends with
    | stop hfree => exact absurd h hfree
    | goOn _ hrest => exact hrest
  · exact .goOn h

namespace IsFirstFree

variable {base : String} {taken taken' : List String} {tries : Nat}

/-- The bound on the names that are tried is never met. -/
theorem freshName_eq (h : IsFirstFree base taken tries) : freshName base taken = candidateName base tries := by
  have hfind : (List.range (taken.length + 1)).find? ((fun name => decide (name ∉ taken)) ∘ candidateName base) =
      some tries := by
    have hlength : tries ≤ taken.length := (le_card_of_tried h.tried).trans (List.toFinset_card_le taken)
    rw [List.find?_range_eq_some]
    refine ⟨by simpa using h.free, List.mem_range.2 (by omega), ?_⟩
    intro n hn
    simpa using h.tried n hn
  rw [freshName, List.find?_map, hfind]
  rfl

/-- From every name that is tried, the loop gets to the first free one and ends there. -/
theorem searchEnds_iff (h : IsFirstFree base taken tries) {n : Nat} (hn : n ≤ tries) {found : String} {tested : Nat} :
    SearchEnds base taken (candidateName base n) (n + 1) found tested ↔
      found = candidateName base tries ∧ tested = tries + 1 := by
  -- downwards from the free name, whose test is the last one
  induction hn using Nat.decreasingInduction with
  | self => exact searchEnds_of_not_mem h.free
  | of_succ n hn ih =>
    rw [searchEnds_of_mem (h.tried n hn)]
    exact ih

/-- Where a search ends depends on which names are taken, and not on their order. -/
theorem congr (h : IsFirstFree base taken tries) (hsame : taken'.toFinset = taken.toFinset) :
    IsFirstFree base taken' tries := by
  have hmem (name : String) : name ∈ taken' ↔ name ∈ taken := by
    rw [← List.mem_toFinset, hsame, List.mem_toFinset]
  exact ⟨(hmem _).not.2 h.free, fun n hn => (hmem _).2 (h.tried n hn)⟩

end IsFirstFree

/-- A fresh name is one of those that are tried. -/
theorem freshName_eq_candidateName (base : String) (taken : List String) :
    ∃ n, freshName base taken = candidateName base n := by
  obtain ⟨tries, h⟩ := exists_isFirstFree base taken
  exact ⟨tries, h.freshName_eq⟩

/-- A fresh name is not taken. -/
theorem freshName_not_mem (base : String) (taken : List String) : freshName base taken ∉ taken := by
  obtain ⟨tries, h⟩ := exists_isFirstFree base taken
  rw [h.freshName_eq]
  exact h.free

theorem freshName_congr (base : String) {taken taken' : List String} (hsame : taken'.toFinset = taken.toFinset) :
    freshName base taken' = freshName base taken := by
  obtain ⟨tries, h⟩ := exists_isFirstFree base taken
  rw [h.freshName_eq, (h.congr hsame).freshName_eq]

/-! ## One name after the other -/

/-- The first of several names is taken before the others are looked for. -/
theorem mapM_takeName_cons (base : String) (bases taken : List String) :
    ((base :: bases).mapM takeName).run taken =
      (freshName base taken :: ((bases.mapM takeName).run (freshName base taken :: taken)).1,
        ((bases.mapM takeName).run (freshName base taken :: taken)).2) := by
  rw [List.mapM_cons]
  rfl

/-- Names that are taken in two parts are taken in turn. -/
theorem mapM_takeName_append (bases bases' taken : List String) :
    ((bases ++ bases').mapM takeName).run taken =
      (((bases.mapM takeName).run taken).1 ++ ((bases'.mapM takeName).run ((bases.mapM takeName).run taken).2).1,
        ((bases'.mapM takeName).run ((bases.mapM takeName).run taken).2).2) := by
  rw [List.mapM_append]
  rfl

/-- Every name is given one fresh name. -/
theorem length_mapM_takeName (bases taken : List String) :
    ((bases.mapM takeName).run taken).1.length = bases.length := by
  induction bases generalizing taken with
  | nil => rfl
  | cons base bases ih => rw [mapM_takeName_cons, List.length_cons, List.length_cons, ih]

/-- Every name that is given is one of the names tried in place of its base. -/
theorem forall₂_mapM_takeName (bases taken : List String) :
    List.Forall₂ (fun base name => ∃ n, name = candidateName base n) bases ((bases.mapM takeName).run taken).1 := by
  induction bases generalizing taken with
  | nil => exact .nil
  | cons base bases ih =>
    rw [mapM_takeName_cons]
    exact .cons (freshName_eq_candidateName base taken) (ih _)

/-- The order of the taken names changes neither the names that are given nor which names are taken then. -/
theorem mapM_takeName_congr (bases : List String) {taken taken' : List String}
    (hsame : taken'.toFinset = taken.toFinset) :
    ((bases.mapM takeName).run taken').1 = ((bases.mapM takeName).run taken).1 ∧
      ((bases.mapM takeName).run taken').2.toFinset = ((bases.mapM takeName).run taken).2.toFinset := by
  induction bases generalizing taken taken' with
  | nil => exact ⟨rfl, hsame⟩
  | cons base bases ih =>
    have hsame' : (freshName base taken :: taken').toFinset = (freshName base taken :: taken).toFinset := by
      rw [List.toFinset_cons, List.toFinset_cons, hsame]
    obtain ⟨hnames, htaken⟩ := ih hsame'
    rw [mapM_takeName_cons, mapM_takeName_cons, freshName_congr base hsame]
    exact ⟨congrArg (freshName base taken :: ·) hnames, htaken⟩

/-- The names that were given differ from each other and from the names to avoid, and with these they are all that is
taken. -/
structure GivenApart (avoid given taken : List String) : Prop where
  nodup : given.Nodup
  not_mem : ∀ name ∈ given, name ∉ avoid
  mem_taken : ∀ name, name ∈ taken ↔ name ∈ avoid ∨ name ∈ given

namespace GivenApart

theorem nil (avoid : List String) : GivenApart avoid [] avoid := ⟨List.nodup_nil, by simp, by simp⟩

variable {avoid given taken : List String}

/-- One more name is given: it is not among the taken ones, and no other name is taken with it. -/
theorem append_freshName (h : GivenApart avoid given taken) (base : String) :
    GivenApart avoid (given ++ [freshName base taken]) (freshName base taken :: taken) := by
  have hfresh : freshName base taken ∉ taken := freshName_not_mem base taken
  rw [h.mem_taken, not_or] at hfresh
  refine ⟨?_, ?_, ?_⟩
  · exact List.Nodup.append h.nodup (List.nodup_singleton _) (by simpa using hfresh.2)
  · intro name hname
    rcases List.mem_append.1 hname with hname | hname
    · exact h.not_mem name hname
    · rw [List.mem_singleton.1 hname]
      exact hfresh.1
  · intro name
    rw [List.mem_cons, h.mem_taken, List.mem_append, List.mem_singleton]
    tauto

/-- Any number of names is given. -/
theorem append_mapM (h : GivenApart avoid given taken) (bases : List String) :
    GivenApart avoid (given ++ ((bases.mapM takeName).run taken).1) ((bases.mapM takeName).run taken).2 := by
  induction bases generalizing given taken with
  | nil =>
    rw [show ((([] : List String).mapM takeName).run taken) = ([], taken) from rfl, List.append_nil]
    exact h
  | cons base bases ih =>
    rw [mapM_takeName_cons, List.append_cons]
    exact ih (h.append_freshName base)

theorem toFinset_eq (h : GivenApart avoid given taken) : taken.toFinset = avoid.toFinset ∪ given.toFinset := by
  ext name
  simp [h.mem_taken]

end GivenApart

/-! ## Replacements of a function -/

namespace Renaming

/-- A renaming replaces the names that are in its list. -/
theorem isSome_lookup_iff (r : Renaming) (name : String) :
    (r.pairs.lookup name).isSome ↔ name ∈ r.pairs.map Prod.fst := by
  simp [List.lookup_isSome_iff]

/-- A name that is replaced already is not replaced again. -/
theorem add_of_mem {r : Renaming} {name : String} (h : name ∈ r.pairs.map Prod.fst) : r.add name = r := by
  rw [add, if_pos ((r.isSome_lookup_iff name).2 h)]

/-- A name that is not replaced yet comes last. -/
theorem map_fst_add {r : Renaming} {name : String} (h : name ∉ r.pairs.map Prod.fst) :
    (r.add name).pairs.map Prod.fst = r.pairs.map Prod.fst ++ [name] := by
  rw [add, if_neg ((r.isSome_lookup_iff name).not.2 h), run_takeName, List.map_append]
  rfl

/-- Behind the names that had a replacement come the others, each once and in the order of `names`. -/
theorem map_fst_addAll (r : Renaming) (names : List String) :
    (r.addAll names).pairs.map Prod.fst =
      r.pairs.map Prod.fst ++ (names.filter (· ∉ r.pairs.map Prod.fst)).eraseDups := by
  induction names generalizing r with
  | nil => exact (List.append_nil _).symm
  | cons name names ih =>
    have hcons : r.addAll (name :: names) = (r.add name).addAll names := rfl
    rw [hcons, ih]
    by_cases hname : name ∈ r.pairs.map Prod.fst
    · rw [add_of_mem hname, List.filter_cons_of_neg (by simpa using hname)]
    · have hfilter : names.filter (· ∉ r.pairs.map Prod.fst ++ [name]) =
          (names.filter (· ∉ r.pairs.map Prod.fst)).filter (fun other => !other == name) := by
        rw [List.filter_filter]
        refine List.filter_congr fun other _ => ?_
        grind
      rw [map_fst_add hname, hfilter, List.filter_cons_of_pos (by simpa using hname), List.eraseDups_cons,
        List.append_assoc, List.singleton_append]

theorem map_fst_addAll_nil (avoid names : List String) :
    ((mk [] avoid).addAll names).pairs.map Prod.fst = names.eraseDups := by
  simp [map_fst_addAll]

end Renaming

/-- The replacements are what is given in place of the names they replace, one after the other. -/
def Renaming.Given (avoid : List String) (r : Renaming) : Prop :=
  ((r.pairs.map Prod.fst).mapM takeName).run avoid = (r.pairs.map Prod.snd, r.taken)

namespace Renaming.Given

theorem nil (avoid : List String) : (Renaming.mk [] avoid).Given avoid := rfl

theorem singleton (avoid : List String) (name : String) :
    (Renaming.mk [(name, freshName name avoid)] (freshName name avoid :: avoid)).Given avoid := rfl

variable {avoid : List String} {r r' : Renaming}

/-- Replacements that avoid what the ones before them took are given after these. -/
theorem append (h : r.Given avoid) (h' : r'.Given r.taken) :
    (Renaming.mk (r.pairs ++ r'.pairs) r'.taken).Given avoid := by
  rw [Given] at h h' ⊢
  rw [List.map_append, List.map_append, mapM_takeName_append, h, h']

theorem add (h : r.Given avoid) (name : String) : (r.add name).Given avoid := by
  rw [Renaming.add]
  split
  · exact h
  · exact h.append (singleton r.taken name)

theorem addAll (h : r.Given avoid) (names : List String) : (r.addAll names).Given avoid := by
  induction names generalizing r with
  | nil => exact h
  | cons name names ih => exact ih (h.add name)

end Renaming.Given

/-- The names that are replaced in a function: those that are reserved, then those of parameters that a local variable
has too. -/
def Function.replacedNames (f : Function) : List String :=
  let parameters := f.parameters.map (·.name)
  let locals := f.locals.map (·.name)
  ((parameters ++ locals).filter isReserved).eraseDups ++ (locals.filter (· ∈ parameters)).eraseDups

/-- The replacements of a function are given one after the other and avoid its variables. -/
theorem Signals.ofFunction_given (f : Function) :
    let replaced := (Signals.ofFunction f).fixed ++ (Signals.ofFunction f).shadows
    replaced.map Prod.fst = f.replacedNames ∧
      ((f.replacedNames.mapM takeName).run (f.parameters.map (·.name) ++ f.locals.map (·.name))).1 =
        replaced.map Prod.snd := by
  intro replaced
  let names := f.parameters.map (·.name) ++ f.locals.map (·.name)
  let fixed := (Renaming.mk [] names).addAll (names.filter isReserved)
  let shadows := (Renaming.mk [] fixed.taken).addAll ((f.locals.map (·.name)).filter (· ∈ f.parameters.map (·.name)))
  have hfixed : fixed.Given names := (Renaming.Given.nil names).addAll _
  have hshadows : shadows.Given fixed.taken := (Renaming.Given.nil fixed.taken).addAll _
  have hreplaced : replaced.map Prod.fst = f.replacedNames := by
    show (fixed.pairs ++ shadows.pairs).map Prod.fst = _
    rw [List.map_append, Renaming.map_fst_addAll_nil, Renaming.map_fst_addAll_nil]
    rfl
  refine ⟨hreplaced, ?_⟩
  rw [← hreplaced]
  exact congrArg Prod.fst (hfixed.append hshadows)

/-! ## The search ends at the first free name -/

/-- The search for a name in place of `base` ends after at most one test more than names are taken, so the number behind
a name is at most that of the taken ones. It ends with the first name of `base_local`, `base_local1`, `base_local2`, …
that is not taken, and takes this name and no other. So names that are given one after the other, in place of whatever
names, differ from each other and from those taken before, and do not depend on the order of the latter. The
replacements of a function are such names. -/
theorem fresh_names_first_and_distinct :
    (∀ (base : String) (taken : List String),
      let given := (takeName base).run taken
      ∃ tries ≤ taken.toFinset.card,
        (∀ found tested, SearchEnds base taken (base ++ "_local") 1 found tested ↔
          found = given.1 ∧ tested = tries + 1) ∧
        given.1 = candidateName base tries ∧ candidateName base tries ∉ taken ∧
        (∀ n < tries, candidateName base n ∈ taken) ∧
        given.2.toFinset = insert given.1 taken.toFinset) ∧
    (∀ bases taken : List String,
      let given := (bases.mapM takeName).run taken
      given.1.length = bases.length ∧ given.1.Nodup ∧ (∀ name ∈ given.1, name ∉ taken) ∧
        given.2.toFinset = taken.toFinset ∪ given.1.toFinset ∧
        ∀ taken' : List String, taken'.toFinset = taken.toFinset →
          ((bases.mapM takeName).run taken').1 = given.1 ∧
            ((bases.mapM takeName).run taken').2.toFinset = given.2.toFinset) ∧
    ∀ f : Function,
      let replaced := (Signals.ofFunction f).fixed ++ (Signals.ofFunction f).shadows
      replaced.map Prod.fst = f.replacedNames ∧
        ((f.replacedNames.mapM takeName).run (f.parameters.map (·.name) ++ f.locals.map (·.name))).1 =
          replaced.map Prod.snd := by
  refine ⟨?_, ?_, Signals.ofFunction_given⟩
  · intro base taken given
    obtain ⟨tries, h⟩ := exists_isFirstFree base taken
    have hgiven : given = (candidateName base tries, candidateName base tries :: taken) := by
      rw [← h.freshName_eq]
      rfl
    rw [hgiven]
    exact ⟨tries, le_card_of_tried h.tried, fun found tested => h.searchEnds_iff (Nat.zero_le tries), rfl, h.free,
      h.tried, List.toFinset_cons⟩
  · intro bases taken given
    have happart : GivenApart taken given.1 given.2 := (GivenApart.nil taken).append_mapM bases
    exact ⟨length_mapM_takeName bases taken, happart.nodup, happart.not_mem, happart.toFinset_eq,
      fun taken' hsame => mapM_takeName_congr bases hsame⟩

/-- Names that stand in the way of replacements of `a` and `a_local`, one of them twice. -/
def crowdedNames : List String := ["a_local1", "a_local", "a_local_local", "a_local2", "a_local"]

theorem fresh_names_first_and_distinct_crowdedNames :
    SearchEnds "a" crowdedNames "a_local" 1 "a_local3" 4 ∧ crowdedNames.toFinset.card = 4 ∧
      let given := (["a", "a_local", "a"].mapM takeName).run crowdedNames
      given.1 = ["a_local3", "a_local_local1", "a_local4"] ∧ given.1.Nodup ∧
        "a_local4" ∈ given.1 ∧ "a_local4" ∉ crowdedNames ∧
        crowdedNames.dedup.reverse.toFinset = crowdedNames.toFinset ∧
        ((["a", "a_local", "a"].mapM takeName).run crowdedNames.dedup.reverse).1 = given.1 := by
  obtain ⟨hone, hmany, -⟩ := fresh_names_first_and_distinct
  obtain ⟨tries, -, hsearch, hname, -, -, -⟩ := hone "a" crowdedNames
  obtain ⟨-, hnodup, hfree, -, horder⟩ := hmany ["a", "a_local", "a"] crowdedNames
  have hfirst : ((takeName "a").run crowdedNames).1 = candidateName "a" 3 := by decide +kernel
  have htries : tries = 3 := candidateName_injective "a" (hname.symm.trans hfirst)
  have hends : SearchEnds "a" crowdedNames "a_local" 1 "a_local3" 4 := (hsearch _ _).2 ⟨hfirst.symm, by rw [htries]⟩
  have hgiven : ((["a", "a_local", "a"].mapM takeName).run crowdedNames).1 =
      ["a_local3", "a_local_local1", "a_local4"] := by decide +kernel
  have hmem : "a_local4" ∈ ((["a", "a_local", "a"].mapM takeName).run crowdedNames).1 := by
    rw [hgiven]
    decide
  have hsame : crowdedNames.dedup.reverse.toFinset = crowdedNames.toFinset := by
    ext name
    simp
  exact ⟨hends, by decide +kernel, hgiven, hnodup, hmem, hfree _ hmem, hsame, (horder _ hsame).1⟩

end ClockedC
