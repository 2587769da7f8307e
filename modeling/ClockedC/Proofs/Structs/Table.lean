import ClockedC.Proofs.Reading.Admissible

/-!
# The table of structs

A struct enters the table when its definition has been read to the end, with all its fields, and behind every struct it
contains. So the table stays well formed while it grows, and no struct contains itself.
-/

namespace ClockedC

namespace Layouts

variable {table table' : Layouts}

/-! ## Looking up -/

/-- A name has no position if no struct is called so. -/
theorem index?_eq_none_iff {name : String} : table.index? name = none ↔ name ∉ table.all.map (·.name) := by
  rw [← not_iff_not, not_not, ← ne_eq, Option.ne_none_iff_exists', List.mem_map]
  constructor
  · rintro ⟨i, hi⟩
    obtain ⟨layout, hlayout, hname⟩ := index?_eq_some_iff.1 hi
    exact ⟨layout, List.mem_of_getElem? hlayout, hname⟩
  · rintro ⟨layout, hlayout, hname⟩
    obtain ⟨i, hi⟩ := List.mem_iff_getElem?.1 hlayout
    exact ⟨i, index?_eq_some_iff.2 ⟨layout, hi, hname⟩⟩

/-- Names differ, since the map holds one position for a name. -/
theorem nodup_names (table : Layouts) : (table.all.map (·.name)).Nodup := by
  rw [List.nodup_iff_getElem?_ne_getElem?]
  intro i j hij hj hsame
  have hname := List.getElem?_eq_getElem hj
  rw [hname, List.getElem?_map, ← table.agrees] at hsame
  rw [List.getElem?_map, ← table.agrees, hsame] at hname
  exact absurd (Option.some.inj hname) hij.ne

/-- A struct is found at the same position in a table that continues another. -/
theorem index?_of_isPrefix (h : table.all <+: table'.all) {name : String} {i : Nat} (hi : table.index? name = some i) :
    table'.index? name = some i := by
  obtain ⟨layout, hlayout, hname⟩ := index?_eq_some_iff.1 hi
  obtain ⟨more, hmore⟩ := h
  refine index?_eq_some_iff.2 ⟨layout, ?_, hname⟩
  rw [get?, ← hmore, List.getElem?_append_left (List.getElem?_eq_some_iff.1 hlayout).1]
  exact hlayout

theorem lt_of_index? {name : String} {i : Nat} (h : table.index? name = some i) : i < table.all.length := by
  obtain ⟨layout, hlayout, -⟩ := index?_eq_some_iff.1 h
  exact (List.getElem?_eq_some_iff.1 hlayout).1

/-- A layout is found where it stands. -/
theorem index?_of_get? {i : Nat} {layout : Layout} (h : table.get? i = some layout) :
    table.index? layout.name = some i := index?_eq_some_iff.2 ⟨layout, h, rfl⟩

/-- The layout that is looked up is the one of that name. -/
theorem lookup?_eq_some_iff {name : String} {layout : Layout} :
    table.lookup? name = some layout ↔ layout ∈ table.all ∧ layout.name = name := by
  rw [lookup?, Option.bind_eq_some_iff]
  constructor
  · rintro ⟨i, hi, hlayout⟩
    obtain ⟨found, hfound, hname⟩ := index?_eq_some_iff.1 hi
    obtain rfl := Option.some.inj (hlayout.symm.trans hfound)
    exact ⟨List.mem_of_getElem? hfound, hname⟩
  · rintro ⟨hmem, rfl⟩
    obtain ⟨i, hi⟩ := List.mem_iff_getElem?.1 hmem
    exact ⟨i, index?_of_get? hi, hi⟩

/-! ## Defining a struct -/

theorem all_addField_last {layouts : List Layout} {name : String} {fields : List Field}
    (h : table.all = layouts ++ [⟨name, fields⟩]) (field : Field) :
    (table.addField layouts.length field).all = layouts ++ [⟨name, fields ++ [field]⟩] := by
  rw [all_addField, h, List.modify_eq_take_cons_drop (by simp)]
  simp [Layout.addField]

/-- A struct of a new name is put at the end of the table, with all its fields. -/
theorem all_define {name : String} (hfresh : table.index? name = none) (fields : List Field) :
    (table.define name fields).all = table.all ++ [⟨name, fields⟩] := by
  -- the fields go one by one to the layout at the end
  have hfields : ∀ (before : List Field) (table' : Layouts), table'.all = table.all ++ [⟨name, before⟩] →
      (fields.foldl (fun table' field => addField table' table.all.length field) table').all =
        table.all ++ [⟨name, before ++ fields⟩] := by
    induction fields with
    | nil =>
      intro before table' hall
      rw [List.foldl_nil, hall, List.append_nil]
    | cons field fields ih =>
      intro before table' hall
      rw [List.foldl_cons, ih _ _ (all_addField_last hall field), List.append_assoc, List.singleton_append]
  rw [define, register_of_fresh hfresh]
  exact hfields [] _ rfl

end Layouts

/-! ## Well-formed tables -/

/-- The struct has fields, their names differ, and none of them is `void`. -/
structure Layout.WellFormed (layout : Layout) : Prop where
  ne_nil : layout.fields ≠ []
  nodup : (layout.fields.map (·.name)).Nodup
  ne_void : ∀ field ∈ layout.fields, field.type ≠ .void

/-- The names of structs differ, every struct is well formed, and a struct contains only structs that stand before it
in the table. -/
structure Layouts.WellFormed (table : Layouts) : Prop where
  nodup : (table.all.map (·.name)).Nodup
  layouts : ∀ layout ∈ table.all, layout.WellFormed
  earlier : ∀ i layout, table.get? i = some layout → ∀ field ∈ layout.fields, ∀ name, field.type = .struct name →
    ∃ j < i, table.index? name = some j

/-- Among some layouts, the struct `outer` has a field of type `inner`. -/
def Layout.Contains (layouts : List Layout) (outer inner : String) : Prop :=
  ∃ layout ∈ layouts, layout.name = outer ∧ ∃ field ∈ layout.fields, field.type = .struct inner

namespace Layouts

variable {table table' : Layouts}

theorem wellFormed_empty : WellFormed {} where
  nodup := List.nodup_nil
  layouts := by simp
  earlier := by simp [get?]

/-- An admissible struct leaves the table well formed: what it contains has been defined before. -/
theorem WellFormed.define (h : table.WellFormed) {decl : Struct} (hdecl : decl.Admissible table) :
    (table.define decl.name decl.fields).WellFormed := by
  have hall := all_define hdecl.fresh decl.fields
  constructor
  · rw [hall, List.map_append, List.nodup_append]
    refine ⟨h.nodup, List.nodup_singleton _, ?_⟩
    intro name hname other hother hsame
    obtain rfl : other = decl.name := by simpa using hother
    rw [hsame] at hname
    exact index?_eq_none_iff.1 hdecl.fresh hname
  · rw [hall]
    intro layout hlayout
    rcases List.mem_append.1 hlayout with hlayout | hlayout
    · exact h.layouts layout hlayout
    · rw [List.mem_singleton.1 hlayout]
      exact ⟨hdecl.ne_nil, hdecl.fields.nodup, fun field hfield => (hdecl.fields.known field hfield).2⟩
  · intro i layout hi field hfield name hname
    have hbegins : table.all <+: (table.define decl.name decl.fields).all := ⟨_, hall.symm⟩
    rw [get?, hall] at hi
    rcases Nat.lt_or_ge i table.all.length with hlt | hge
    · -- a struct from before contains what it contained before
      rw [List.getElem?_append_left hlt] at hi
      obtain ⟨j, hj, hindex⟩ := h.earlier i layout hi field hfield name hname
      exact ⟨j, hj, index?_of_isPrefix hbegins hindex⟩
    · -- the new struct contains structs that are in the table already
      rw [List.getElem?_append_right hge] at hi
      have hnew := List.mem_of_getElem? hi
      rw [List.mem_singleton.1 hnew] at hfield
      have hknown := (hdecl.fields.known field hfield).1
      rw [hname] at hknown
      obtain ⟨j, hj⟩ := Option.isSome_iff_exists.1 hknown
      have := lt_of_index? hj
      exact ⟨j, by omega, index?_of_isPrefix hbegins hj⟩

/-! ## Growing tables -/

/-- The table `table'` is `table` with one more struct defined. -/
def Defines (table table' : Layouts) : Prop :=
  ∃ decl : Struct, decl.Admissible table ∧ table' = table.define decl.name decl.fields

/-- The table `table'` is `table` with more structs defined, one after another. -/
def Grows : Layouts → Layouts → Prop := Relation.ReflTransGen Defines

/-- What has been defined stays as it is. -/
theorem Grows.isPrefix (h : table.Grows table') : table.all <+: table'.all := by
  induction h with
  | refl => exact List.prefix_refl _
  | tail _ hstep ih =>
    obtain ⟨decl, hdecl, rfl⟩ := hstep
    rw [all_define hdecl.fresh]
    exact ih.trans (List.prefix_append ..)

/-- A well-formed table stays well formed while it grows. -/
theorem WellFormed.of_grows (h : table.WellFormed) (hgrows : table.Grows table') : table'.WellFormed := by
  induction hgrows with
  | refl => exact h
  | tail _ hstep ih =>
    obtain ⟨decl, hdecl, rfl⟩ := hstep
    exact ih.define hdecl

/-! ## Containment -/

/-- What a struct contains stands before it. -/
theorem WellFormed.index?_lt_of_contains (h : table.WellFormed) {outer inner : String}
    (hcontains : Layout.Contains table.all outer inner) :
    ∃ i j, table.index? outer = some i ∧ table.index? inner = some j ∧ j < i := by
  obtain ⟨layout, hlayout, rfl, field, hfield, hinner⟩ := hcontains
  obtain ⟨i, hi⟩ := List.mem_iff_getElem?.1 hlayout
  obtain ⟨j, hj, hindex⟩ := h.earlier i layout hi field hfield inner hinner
  exact ⟨i, j, index?_of_get? hi, hindex, hj⟩

/-- No struct contains itself, directly or through others. -/
theorem WellFormed.acyclic (h : table.WellFormed) (name : String) :
    ¬ Relation.TransGen (Layout.Contains table.all) name name := by
  -- along containment positions go down
  have hdown : ∀ {outer inner}, Relation.TransGen (Layout.Contains table.all) outer inner →
      ∃ i j, table.index? outer = some i ∧ table.index? inner = some j ∧ j < i := by
    intro outer inner hpath
    induction hpath with
    | single hstep => exact h.index?_lt_of_contains hstep
    | tail _ hstep ih =>
      obtain ⟨i, j, hi, hj, hlt⟩ := ih
      obtain ⟨j', k, hj', hk, hlt'⟩ := h.index?_lt_of_contains hstep
      obtain rfl : j = j' := by simpa [hj] using hj'
      exact ⟨i, k, hi, hk, by omega⟩
  intro hcycle
  obtain ⟨i, j, hi, hj, hlt⟩ := hdown hcycle
  obtain rfl : i = j := by simpa [hi] using hj
  omega

end Layouts

end ClockedC
