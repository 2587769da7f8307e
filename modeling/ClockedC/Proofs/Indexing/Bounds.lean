import ClockedC.Proofs.Indexing.Sites

/-!
# Constant indices

A constant index is checked against the last array of its name that is declared before it, while the signal has as many
elements as the first declaration of the name in the function says. So an index stays inside of the signal if it is
checked at all and the later declaration is not the longer one.

* `constant_indices_in_bounds` : the indices that stay inside of their signal;
* `constant_index_overruns` : indices that do not.
-/

namespace ClockedC

/-! ## Lengths -/

/-- The length of the last array called `name` among some variables. -/
def lastLength? (decls : List Variable) (name : String) : Option Nat :=
  (decls.filterMap fun decl => if decl.name = name then decl.length else none).getLast?

/-- The length of the first variable called `name`, if it is an array. -/
def firstLength? (decls : List Variable) (name : String) : Option Nat :=
  (decls.find? (·.name = name)).bind (·.length)

theorem lastLength?_append_singleton (decls : List Variable) (decl : Variable) (name : String) :
    lastLength? (decls ++ [decl]) name =
      (if decl.name = name then decl.length else none).or (lastLength? decls name) := by
  rw [lastLength?, List.filterMap_append, List.getLast?_append]
  cases h : (if decl.name = name then decl.length else none) <;> simp [h, lastLength?]

/-- A length that is found is that of a declared name. -/
theorem mem_of_lastLength? {decls : List Variable} {name : String} {length : Nat}
    (h : lastLength? decls name = some length) : name ∈ decls.map (·.name) := by
  obtain ⟨decl, hdecl, hlength⟩ := List.mem_filterMap.1 (List.mem_of_getLast? h)
  split at hlength
  next hname => exact List.mem_map.2 ⟨decl, hdecl, hname⟩
  · cases hlength

namespace ArraySizes

/-- The table holds the size of the last array, and a variable without a length leaves it alone. -/
theorem size?_declare (table : ArraySizes) (decl : Variable) (name : String) :
    (table.declare decl).size? name = (if decl.name = name then decl.length else none).or (table.size? name) := by
  unfold declare
  split
  next length hlength =>
    split
    next hname => rw [hname, size?_register_self, hlength, Option.some_or]
    next hname => rw [size?_register_of_ne _ _ hname, Option.none_or]
  next hlength => rw [hlength, ite_self, Option.none_or]

/-- The size in the table is the length of the last array of that name. -/
theorem size?_declareAll_empty (decls : List Variable) (name : String) :
    (empty.declareAll decls).size? name = lastLength? decls name := by
  induction decls using List.reverseRecOn with
  | nil => rfl
  | append_singleton decls decl ih =>
    rw [declareAll_append, declareAll_singleton, size?_declare, ih, lastLength?_append_singleton]

end ArraySizes

/-! ## Indices at a site -/

/-- The variable and the text of the index, if that is a literal. -/
def Application.literalIndex? : Application → Option (String × String)
  | element name (.number text _) => some (name, text)
  | _ => none

/-- The variables that are indexed by a literal at a site, with the texts of the literals. -/
def Site.literalIndices (site : Site) : List (String × String) :=
  site.value.applications.filterMap Application.literalIndex?

/-- A variable that is indexed inside of an expression in bounds has an index that fits it. -/
theorem Expr.InBounds.indexFits_of_mem_applications {arrays : ArraySizes} {e : Expr} (h : e.InBounds arrays)
    {name : String} {index : Expr} (hmem : .element name index ∈ e.applications) :
    IndexFits arrays (.ident name .nowhere) index := by
  obtain ⟨node, hnode, happlication⟩ := List.mem_filterMap.1 hmem
  unfold Expr.application? at happlication
  split at happlication
  · next base index' loc =>
    obtain ⟨name', hname, heq⟩ := Option.map_eq_some_iff.1 happlication
    cases heq
    cases base with
    | ident name' loc' =>
      cases hname
      have hfits : IndexFits arrays (.ident name loc') index := h.indexFits hnode
      exact hfits
    | _ => cases hname
  · cases happlication
  · cases happlication

/-- The expression is in bounds where it stands, the variables before it come first among all variables, and its
signals are called as at the beginning. -/
structure Site.Sound (base : Signals) (all : List Variable) (site : Site) : Prop where
  inBounds : site.value.InBounds (ArraySizes.empty.declareAll site.before)
  before : site.before <+: all
  sameNames : base.SameNames site.signals

/-- A literal index at a sound site is less than the length of the last array before it. -/
theorem Site.Sound.lt_lastLength? {base : Signals} {all : List Variable} {site : Site} (h : site.Sound base all)
    {name text : String} (hmem : (name, text) ∈ site.literalIndices) {k : Int} (hk : Text.integer64? text = some k)
    {last : Nat} (hlast : lastLength? site.before name = some last) : 0 ≤ k ∧ k < last := by
  obtain ⟨written, hwritten, hliteral⟩ := List.mem_filterMap.1 hmem
  unfold Application.literalIndex? at hliteral
  split at hliteral
  · cases hliteral
    rw [← ArraySizes.size?_declareAll_empty] at hlast
    exact h.inBounds.indexFits_of_mem_applications hwritten k hk name rfl last hlast
  · cases hliteral

section Sound

variable {structs : Layouts} {base : Signals} {all : List Variable}

/-- The sites of a declaration are sound. -/
theorem Variable.sound_sites {signals : Signals} {before : List Variable} {decl : Variable}
    (h : decl.Admissible structs (ArraySizes.empty.declareAll before)) (hbefore : before ++ [decl] <+: all)
    (hsame : base.SameNames signals) : ∀ site ∈ decl.sites signals before, site.Sound base all := by
  have hinit := h.init
  have harrays :
      (ArraySizes.empty.declareAll before).declare decl = ArraySizes.empty.declareAll (before ++ [decl]) := by
    rw [ArraySizes.declareAll_append, ArraySizes.declareAll_singleton]
  rw [harrays] at hinit
  intro site hsite
  rw [Variable.sites] at hsite
  split at hsite
  next e he =>
    rw [List.mem_singleton.1 hsite]
    exact ⟨(hinit _ he).2.inBounds, hbefore, hsame.trans (.declare signals decl.name)⟩
  next values hvalues =>
    obtain ⟨e, he, rfl⟩ := List.mem_map.1 hsite
    exact ⟨((hinit _ hvalues).2.2 e he).inBounds, hbefore, hsame.trans (.declare signals decl.name)⟩
  next values hvalues =>
    obtain ⟨e, he, rfl⟩ := List.mem_map.1 hsite
    exact ⟨((hinit _ hvalues).2 e he).inBounds, hbefore, ⟨hsame.fixed, hsame.shadows⟩⟩
  · cases hsite

/-- The sites of an assignment are sound. -/
theorem Assignment.sound_sites {signals : Signals} {before : List Variable} {assignment : Assignment}
    (h : assignment.Admissible (ArraySizes.empty.declareAll before)) (hbefore : before <+: all)
    (hsame : base.SameNames signals) : ∀ site ∈ assignment.sites signals before, site.Sound base all :=
  List.forall_mem_cons.2 ⟨⟨h.target.inBounds, hbefore, hsame⟩,
    List.forall_mem_singleton.2 ⟨h.value.inBounds, hbefore, hsame⟩⟩

/-- A `for` loop, in terms of its start and its body. -/
theorem Site.sound_forLoop {starts sites : List Site} {signals : Signals} {before : List Variable}
    {condition : Option Expr} {step : Option Assignment} (hstart : ∀ site ∈ starts, site.Sound base all)
    (hcondition : ∀ e ∈ condition, e.Written (ArraySizes.empty.declareAll before))
    (hstep : ∀ a ∈ step, a.Admissible (ArraySizes.empty.declareAll before))
    (hbody : ∀ site ∈ sites, site.Sound base all) (hbefore : before <+: all) (hsame : base.SameNames signals) :
    ∀ site ∈ starts ++ condition.toList.map (⟨·, signals, before⟩) ++
      step.toList.flatMap (Assignment.sites signals before) ++ sites, site.Sound base all := by
  simp only [List.forall_mem_append]
  refine ⟨⟨⟨hstart, ?_⟩, ?_⟩, hbody⟩
  · intro site hsite
    obtain ⟨e, he, rfl⟩ := List.mem_map.1 hsite
    exact ⟨(hcondition e (Option.mem_toList.1 he)).inBounds, hbefore, hsame⟩
  · intro site hsite
    obtain ⟨a, ha, hsite⟩ := List.mem_flatMap.1 hsite
    exact Assignment.sound_sites (hstep a (Option.mem_toList.1 ha)) hbefore hsame site hsite

mutual

/-- The sites of a statement that can be read are sound. -/
theorem Statement.sound_sites (s : Statement) {inLoop : Prop} {signals : Signals} {before : List Variable}
    (h : s.Admissible structs inLoop (ArraySizes.empty.declareAll before)) (hbefore : before ++ s.locals <+: all)
    (hsame : base.SameNames signals) : ∀ site ∈ s.sites signals before, site.Sound base all := by
  have hhere : before <+: all := (List.prefix_append ..).trans hbefore
  cases s with
  | declare decl => exact Variable.sound_sites h hbefore hsame
  | assign assignment => exact Assignment.sound_sites h hhere hsame
  | branch condition body alternative loc =>
    obtain ⟨hcondition, hbody, halternative⟩ := h
    -- the arrays of the body are still known in the arms behind it
    rw [← ArraySizes.declareAll_append] at halternative
    rw [Statement.locals, ← List.append_assoc] at hbefore
    refine List.forall_mem_cons.2 ⟨⟨hcondition.inBounds, hhere, hsame⟩, List.forall_mem_append.2 ⟨?_, ?_⟩⟩
    · exact Statement.sound_sitesAll body hbody ((List.prefix_append ..).trans hbefore) hsame
    · exact alternative.sound_sites halternative hbefore hsame
  | whileLoop condition body loc =>
    exact List.forall_mem_cons.2 ⟨⟨h.1.inBounds, hhere, hsame⟩, Statement.sound_sitesAll body h.2 hbefore hsame⟩
  | forLoop start condition step body loc =>
    rw [Statement.sites_forLoop]
    rw [Statement.locals_forLoop, ← List.append_assoc] at hbefore
    have hstart := (List.prefix_append ..).trans hbefore
    have hinner := hsame.trans (.behindStart signals start)
    cases start with
    | none =>
      rw [startLocals, Option.elim_none, List.append_nil] at hbefore ⊢
      obtain ⟨hcondition, hstep, hbody⟩ := h
      exact Site.sound_forLoop (List.forall_mem_nil _) hcondition hstep
        (Statement.sound_sitesAll body hbody hbefore hinner) hhere hinner
    | some start =>
      obtain ⟨-, hadmissible, hcondition, hstep, hbody⟩ := h
      rw [← ArraySizes.declareAll_append] at hcondition hstep hbody
      exact Site.sound_forLoop (start.sound_sites hadmissible hstart hsame) hcondition hstep
        (Statement.sound_sitesAll body hbody hbefore hinner) hstart hinner
  | giveBack value loc =>
    intro site hsite
    obtain ⟨e, he, rfl⟩ := List.mem_map.1 hsite
    exact ⟨(h e (Option.mem_toList.1 he)).inBounds, hhere, hsame⟩
  | leaveLoop loc => exact List.forall_mem_nil _
  | nextRound loc => exact List.forall_mem_nil _
  | evaluate value => exact List.forall_mem_singleton.2 ⟨h.2.inBounds, hhere, hsame⟩

/-- The sites of further arms are sound. -/
theorem Alternative.sound_sites (alternative : Alternative) {inLoop : Prop} {signals : Signals}
    {before : List Variable} (h : alternative.Admissible structs inLoop (ArraySizes.empty.declareAll before))
    (hbefore : before ++ alternative.locals <+: all) (hsame : base.SameNames signals) :
    ∀ site ∈ alternative.sites signals before, site.Sound base all := by
  have hhere : before <+: all := (List.prefix_append ..).trans hbefore
  cases alternative with
  | nothing => exact List.forall_mem_nil _
  | elseIf condition body rest =>
    obtain ⟨hcondition, hbody, hrest⟩ := h
    rw [← ArraySizes.declareAll_append] at hrest
    rw [Alternative.locals, ← List.append_assoc] at hbefore
    refine List.forall_mem_cons.2 ⟨⟨hcondition.inBounds, hhere, hsame⟩, List.forall_mem_append.2 ⟨?_, ?_⟩⟩
    · exact Statement.sound_sitesAll body hbody ((List.prefix_append ..).trans hbefore) hsame
    · exact rest.sound_sites hrest hbefore hsame
  | otherwise body => exact Statement.sound_sitesAll body h hbefore hsame

/-- The sites of statements are sound, by induction with the declarations that came before. -/
theorem Statement.sound_sitesAll (ss : List Statement) {inLoop : Prop} {signals : Signals} {before : List Variable}
    (h : Statement.AllAdmissible structs inLoop (ArraySizes.empty.declareAll before) ss)
    (hbefore : before ++ Statement.localsOf ss <+: all) (hsame : base.SameNames signals) :
    ∀ site ∈ Statement.sitesAll signals before ss, site.Sound base all := by
  cases ss with
  | nil => exact List.forall_mem_nil _
  | cons s ss =>
    obtain ⟨hfirst, hrest⟩ := h
    rw [← ArraySizes.declareAll_append] at hrest
    rw [Statement.localsOf_cons, ← List.append_assoc] at hbefore
    refine List.forall_mem_append.2 ⟨?_, ?_⟩
    · exact s.sound_sites hfirst ((List.prefix_append ..).trans hbefore) hsame
    · exact Statement.sound_sitesAll ss hrest hbefore (hsame.trans (.behind signals s))

end

/-- The sites of a function that can be read are sound. -/
theorem Function.Admissible.sound_sites {f : Function} (h : f.Admissible structs) :
    ∀ site ∈ f.sites, site.Sound (Signals.ofFunction f) f.locals :=
  Statement.sound_sitesAll f.body h.body (List.prefix_refl _) (.refl _)

end Sound

/-! ## Signals that are arrays -/

/-- The name and the length of an array. -/
def Vhdl.Declaration.array? : Vhdl.Declaration → Option (String × Nat)
  | .signal _ _ => none
  | .array name length _ _ => some (name, length)

/-- The names and the lengths of the arrays of an entity. -/
def Vhdl.Entity.arrays (entity : Vhdl.Entity) : List (String × Nat) := entity.signals.filterMap Vhdl.Declaration.array?

theorem array?_hardwareDeclaration (signals : Signals) (decl : Variable) :
    (hardwareDeclaration signals decl).array? = decl.length.map (signals.localSignal decl.name, ·) := by
  rw [hardwareDeclaration_eq]
  cases decl.length <;> rfl

/-- An array that a local variable stands for is as long as the first declaration of the variable. -/
theorem firstLength?_of_mem_arrays {layouts : Layouts} {f : Function} {signals : Signals} {name : String}
    (hname : name ∈ f.locals.map (·.name)) (hsame : (Signals.ofFunction f).SameNames signals) {length : Nat}
    (h : (signals.signal name, length) ∈ (hardwareEntity layouts f).arrays) :
    firstLength? f.locals name = some length := by
  have hseparates := (Signals.Separates.ofFunction f).of_sameNames hsame
  obtain ⟨declaration, hdeclaration, harray⟩ := List.mem_filterMap.1 h
  rw [hardwareEntity_signals] at hdeclaration
  obtain ⟨decl, hdecl, rfl⟩ := List.mem_map.1 hdeclaration
  rw [array?_hardwareDeclaration, Option.map_eq_some_iff] at harray
  obtain ⟨length', hlength, heq⟩ := harray
  obtain ⟨hlocal, rfl⟩ := Prod.mk.inj heq
  have hdeclName : decl.name ∈ f.variableNames :=
    List.mem_append_right _ (List.mem_map_of_mem (mem_of_mem_firstDeclarations hdecl))
  have hcases : signals.shadow? decl.name = some (signals.signal name) ∨
      signals.signal name = signals.outer decl.name := by
    rw [Signals.shadow?, hsame.shadows, Signals.outer, hsame.fixed, ← hlocal]
    exact (Signals.Separates.localSignal_cases _ decl.name).imp_right And.right
  -- the signal was made for this variable and no other one
  have hsameName : decl.name = name :=
    hseparates.eq_of_cases hdeclName (List.mem_append_right _ hname) hcases
      (Signals.Separates.signal_cases signals name)
  rw [firstLength?, ← hsameName, (find?_of_mem_firstDeclarations hdecl).2, Option.bind_some, hlength]

/-! ## Source texts -/

/-- **Constant indices stay inside of their signal.** In the entity of a function of a source text that is compiled,
every name with arguments is a conversion or comes from a call or an element in the source. Where a variable is indexed
by a literal of 64 bits, an array of its name is declared before, and its signal is an array, that signal is as long as
the first declaration of the name says, and the index is inside of it unless the last declaration before the index is
longer. -/
theorem constant_indices_in_bounds {source : String} {c : Compilation} {f : Function}
    (h : (compile source).outcome = .ok c) (hf : f ∈ c.program.functions) :
    (∀ application ∈ (hardwareEntity c.tables.structs f).applications, application.1 ∈ conversionNames ∨
        ∃ site ∈ f.sites, ∃ written ∈ site.value.applications, written.hardware site.signals = application) ∧
      ∀ site ∈ f.sites, site.before <+: f.locals ∧
        ∀ (name text : String) (k : Int) (last length : Nat), (name, text) ∈ site.literalIndices →
          Text.integer64? text = some k → lastLength? site.before name = some last →
          (site.signals.signal name, length) ∈ (hardwareEntity c.tables.structs f).arrays →
          firstLength? f.locals name = some length ∧ 0 ≤ k ∧ k < last ∧ (last ≤ length → k < length) := by
  obtain ⟨structs, hadmissible⟩ := Function.admissible_of_compile h hf
  refine ⟨?_, ?_⟩
  · intro application hmem
    refine (appliedFrom_hardwareEntity c.tables.structs f application hmem).imp_right fun hfrom => ?_
    obtain ⟨site, hsite, hfrom⟩ := List.mem_flatMap.1 hfrom
    exact ⟨site, hsite, List.mem_map.1 hfrom⟩
  · intro site hsite
    have hsound := hadmissible.sound_sites site hsite
    refine ⟨hsound.before, ?_⟩
    intro name text k last length hmem hk hlast harray
    obtain ⟨hnonneg, hlt⟩ := hsound.lt_lastLength? hmem hk hlast
    have hname : name ∈ f.locals.map (·.name) := (hsound.before.map (·.name)).subset (mem_of_lastLength? hlast)
    exact ⟨firstLength?_of_mem_arrays hname hsound.sameNames harray, hnonneg, hlt, by omega⟩

/-- A function with two arrays of one name, which is also the name of a parameter. The second array is the shorter
one. -/
def redeclaredSource : String :=
  "int f(int a,int n)\x7bif(n)\x7bint a[4]=\x7bn,g(n)\x7d;a[3]=n;\x7d" ++
    "else\x7bint a[2];a[1]=a[0]+h(a[n]);\x7dreturn a;\x7d"

theorem constant_indices_in_bounds_redeclaredSource :
    ∃ c f, (compile redeclaredSource).outcome = .ok c ∧ f ∈ c.program.functions ∧
      (hardwareEntity c.tables.structs f).applications.map Prod.fst =
        ["g", "unsigned", "a_local", "a_local", "a_local", "h", "a_local"] ∧
      (∀ application ∈ (hardwareEntity c.tables.structs f).applications, application.1 ∈ conversionNames ∨
        ∃ site ∈ f.sites, ∃ written ∈ site.value.applications, written.hardware site.signals = application) ∧
      ∃ site ∈ f.sites, ("a", "1") ∈ site.literalIndices ∧ Text.integer64? "1" = some 1 ∧
        lastLength? site.before "a" = some 2 ∧
        (site.signals.signal "a", 4) ∈ (hardwareEntity c.tables.structs f).arrays ∧
        firstLength? f.locals "a" = some 4 ∧ (0 : Int) ≤ 1 ∧ (1 : Int) < (2 : Nat) ∧ (1 : Int) < (4 : Nat) := by
  have hchecked : (compile redeclaredSource).outcome.toOption.any fun c => c.program.functions[0]?.any fun f =>
      (hardwareEntity c.tables.structs f).applications.map Prod.fst =
          ["g", "unsigned", "a_local", "a_local", "a_local", "h", "a_local"] ∧
        ∃ site ∈ f.sites, ("a", "1") ∈ site.literalIndices ∧ lastLength? site.before "a" = some 2 ∧
          (site.signals.signal "a", 4) ∈ (hardwareEntity c.tables.structs f).arrays := by decide +kernel
  obtain ⟨c, f, hc, hf, hfacts⟩ := exists_function_of_any hchecked
  obtain ⟨happlications, site, hsite, hindex, hlast, harray⟩ := of_decide_eq_true hfacts
  have hmem := List.mem_of_getElem? hf
  obtain ⟨hfrom, hsites⟩ := constant_indices_in_bounds hc hmem
  have hk : Text.integer64? "1" = some 1 := by decide +kernel
  obtain ⟨hfirst, hnonneg, hlt, hinside⟩ := (hsites site hsite).2 "a" "1" 1 2 4 hindex hk hlast harray
  exact ⟨c, f, hc, hmem, happlications, hfrom, site, hsite, hindex, hk, hlast, harray, hfirst, hnonneg, hlt,
    hinside (by decide)⟩

/-- A source text that gives an element of a variable a value of one. -/
structure Overrun where
  source : String
  name : String
  /-- The text of the index. -/
  index : String

/-- Indices outside of an array of two elements: before its declaration, behind a longer declaration, too large to be
checked, and of another name that is the name of the signal. -/
def overruns : List Overrun :=
  [⟨"int f(int n)\x7ba[5]=1;int a[2];return a[0];\x7d", "a", "5"⟩,
    ⟨"int f(int n)\x7bif(n)\x7bint a[2];a[0]=1;\x7delse\x7bint a[10];a[5]=1;\x7dreturn n;\x7d", "a", "5"⟩,
    ⟨"int f(int n)\x7bint a[2];a[99999999999999999999]=1;return n;\x7d", "a", "99999999999999999999"⟩,
    ⟨"int f(int a)\x7bint a[2];a_local[5]=1;return a[0];\x7d", "a_local", "5"⟩]

/-- An index that is not checked, or checked against another declaration, may miss the signal. -/
theorem constant_index_overruns :
    overruns.Forall fun overrun => ∃ c f, (compile overrun.source).outcome = .ok c ∧
      c.program.functions[0]? = some f ∧
      overrun.name ++ "(" ++ overrun.index ++ ") <= 1;" ∈ (hardwareEntity c.tables.structs f).lines.map (·.text) ∧
      ∃ site ∈ f.sites, (overrun.name, overrun.index) ∈ site.literalIndices ∧
        (site.signals.signal overrun.name, 2) ∈ (hardwareEntity c.tables.structs f).arrays := by
  have hchecked : ∀ overrun ∈ overruns, (compile overrun.source).outcome.toOption.any fun c =>
      c.program.functions[0]?.any fun f =>
        overrun.name ++ "(" ++ overrun.index ++ ") <= 1;" ∈ (hardwareEntity c.tables.structs f).lines.map (·.text) ∧
          ∃ site ∈ f.sites, (overrun.name, overrun.index) ∈ site.literalIndices ∧
            (site.signals.signal overrun.name, 2) ∈ (hardwareEntity c.tables.structs f).arrays := by decide +kernel
  refine List.forall_iff_forall_mem.2 fun overrun hoverrun => ?_
  obtain ⟨c, f, hc, hf, hfacts⟩ := exists_function_of_any (hchecked overrun hoverrun)
  exact ⟨c, f, hc, hf, of_decide_eq_true hfacts⟩

end ClockedC
