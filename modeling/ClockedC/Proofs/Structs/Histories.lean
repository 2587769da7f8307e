import ClockedC.Proofs.Structs.Table

/-!
# The table of structs over a history

The table of structs may be asked in any order to register a name and to add a field at a position, whatever the names
and positions. The requests so far determine the table: a struct stands behind as many others as names were registered
before its own, and it has the fields that were added at its position since.

* `struct_table_ordered_map` : the table is a map in the order of registration.
-/

namespace ClockedC

namespace Layouts

/-! ## Requests -/

/-- What the table of structs may be asked. -/
inductive Request where
  | register (name : String)
  | addField (index : Nat) (field : Field)
  deriving DecidableEq, Repr

namespace Request

/-- The table behind a request. -/
def apply : Request → Layouts → Layouts
  | register name, table => (table.register name).2
  | addField index field, table => table.addField index field

/-- The name that a request registers. -/
def name? : Request → Option String
  | register name => some name
  | addField _ _ => none

/-- The field that a request adds at a position. -/
def fieldAt? (index : Nat) : Request → Option Field
  | register _ => none
  | addField i field => if i = index then some field else none

end Request

/-- The table behind several requests, which begin with the table without layouts. -/
def after (requests : List Request) : Layouts := requests.foldl (fun table request => request.apply table) .empty

/-- The names that are registered, in order and each as often as it is registered. -/
def registered (requests : List Request) : List String := requests.filterMap Request.name?

/-- The fields that are added at a position, in order. -/
def fieldsAt (index : Nat) (requests : List Request) : List Field := requests.filterMap (Request.fieldAt? index)

/-- The requests register the name of the layout for the first time behind as many different names as its position says,
and its fields are those that are added at the position from then on. -/
def Entered (requests : List Request) (index : Nat) (layout : Layout) : Prop :=
  ∃ before later, requests = before ++ .register layout.name :: later ∧ layout.name ∉ registered before ∧
    index = (registered before).toFinset.card ∧ layout.fields = fieldsAt index later

/-- Requests in two parts are made in turn. -/
theorem after_append (requests more : List Request) :
    after (requests ++ more) = more.foldl (fun table request => request.apply table) (after requests) := by
  rw [after, List.foldl_append]
  rfl

@[simp] theorem registered_append (requests more : List Request) :
    registered (requests ++ more) = registered requests ++ registered more := List.filterMap_append

@[simp] theorem fieldsAt_append (index : Nat) (requests more : List Request) :
    fieldsAt index (requests ++ more) = fieldsAt index requests ++ fieldsAt index more := List.filterMap_append

/-! ## One more request -/

/-- With one more request, a struct entered before may have one more field, and a name that was not registered before is
entered without fields. -/
theorem entered_append_singleton {requests : List Request} {request : Request} {index : Nat} {layout : Layout} :
    Entered (requests ++ [request]) index layout ↔
      (∃ fields, Entered requests index ⟨layout.name, fields⟩ ∧
        layout.fields = fields ++ (request.fieldAt? index).toList) ∨
      request = .register layout.name ∧ layout.name ∉ registered requests ∧
        index = (registered requests).toFinset.card ∧ layout.fields = [] := by
  have hlast : fieldsAt index [request] = (request.fieldAt? index).toList := by
    rw [fieldsAt, List.filterMap_cons, List.filterMap_nil]
    cases request.fieldAt? index <;> rfl
  constructor
  · rintro ⟨before, later, hsplit, hfresh, hindex, hfields⟩
    -- the last request is the registration itself or stands behind it
    rcases List.eq_nil_or_concat later with rfl | ⟨later, last, rfl⟩
    · obtain ⟨rfl, hrequest⟩ := List.append_inj' hsplit rfl
      exact .inr ⟨(List.cons.inj hrequest).1, hfresh, hindex, hfields⟩
    · rw [List.concat_eq_append, ← List.cons_append, ← List.append_assoc] at hsplit
      obtain ⟨rfl, hrequest⟩ := List.append_inj' hsplit rfl
      obtain rfl : request = last := (List.cons.inj hrequest).1
      rw [List.concat_eq_append, fieldsAt_append, hlast] at hfields
      exact .inl ⟨fieldsAt index later, ⟨before, later, rfl, hfresh, hindex, rfl⟩, hfields⟩
  · rintro (⟨fields, ⟨before, later, rfl, hfresh, hindex, hfields⟩, hadded⟩ | ⟨rfl, hfresh, hindex, hfields⟩)
    · refine ⟨before, later ++ [request], by simp, hfresh, hindex, ?_⟩
      rw [hadded, fieldsAt_append, hlast, ← hfields]
    · exact ⟨requests, [], rfl, hfresh, hindex, hfields⟩

variable {table : Layouts}

/-- Registering a name changes nothing unless the name is new. -/
theorem all_register (name : String) :
    (table.register name).2.all =
      if name ∈ table.all.map (·.name) then table.all else table.all ++ [⟨name, []⟩] := by
  cases hindex : table.index? name with
  | none =>
    rw [register_of_fresh hindex, if_neg (index?_eq_none_iff.1 hindex)]
    rfl
  | some i =>
    have hknown : name ∈ table.all.map (·.name) := by
      by_contra hfresh
      cases hindex.symm.trans (index?_eq_none_iff.2 hfresh)
    rw [register_of_index? hindex, if_pos hknown]

/-- A field that is added at a position is added to the struct there and to no other. -/
theorem get?_addField (index i : Nat) (field : Field) :
    (table.addField index field).get? i =
      (table.get? i).map fun layout =>
        { layout with fields := layout.fields ++ ((Request.addField index field).fieldAt? i).toList } := by
  rw [get?, all_addField, List.getElem?_modify, get?]
  by_cases hi : index = i
  · simp [hi, Request.fieldAt?, Layout.addField]
  · simp [hi, Request.fieldAt?]

/-- Adding a field renames no struct. -/
theorem names_addField (index : Nat) (field : Field) :
    (table.addField index field).all.map (·.name) = table.all.map (·.name) := by
  apply List.ext_getElem?
  intro i
  have hget : (table.addField index field).all[i]? = (table.all[i]?).map _ := get?_addField index i field
  rw [List.getElem?_map, List.getElem?_map, hget, Option.map_map]
  rfl

/-- A request adds a name if it registers one that is not in the table. -/
theorem names_apply (request : Request) :
    (request.apply table).all.map (·.name) =
      table.all.map (·.name) ++ request.name?.toList.filter (· ∉ table.all.map (·.name)) := by
  cases request with
  | register name =>
    rw [Request.apply, all_register]
    by_cases hname : name ∈ table.all.map (·.name)
    · rw [if_pos hname, Request.name?, Option.toList_some, List.filter_singleton,
        decide_eq_false (not_not.2 hname), cond_false, List.append_nil]
    · rw [if_neg hname, Request.name?, Option.toList_some, List.filter_singleton,
        decide_eq_true hname, cond_true, List.map_append]
      rfl
  | addField index field =>
    rw [Request.apply, names_addField]
    exact (List.append_nil _).symm

/-- What one request does to the structs: one of them may have one more field, and one without fields may be put at the
end. -/
theorem get?_apply (request : Request) (index : Nat) (layout : Layout) :
    (request.apply table).get? index = some layout ↔
      (∃ fields, table.get? index = some ⟨layout.name, fields⟩ ∧
        layout.fields = fields ++ (request.fieldAt? index).toList) ∨
      request = .register layout.name ∧ layout.name ∉ table.all.map (·.name) ∧
        index = table.all.length ∧ layout.fields = [] := by
  obtain ⟨name, fields⟩ := layout
  cases request with
  | register name' =>
    have hsame : ∀ fields' : List Field,
        fields = fields' ++ ((Request.register name').fieldAt? index).toList ↔ fields = fields' := by
      intro fields'
      rw [Request.fieldAt?, Option.toList_none, List.append_nil]
    simp only [hsame]
    rw [Request.apply, get?, all_register]
    by_cases hname : name' ∈ table.all.map (·.name)
    · rw [if_pos hname]
      constructor
      · exact fun h => .inl ⟨fields, h, rfl⟩
      · rintro (⟨fields', h, rfl⟩ | ⟨heq, hfresh, -⟩)
        · exact h
        · cases heq
          exact absurd hname hfresh
    · rw [if_neg hname, List.getElem?_append]
      constructor
      · intro h
        split at h
        · exact .inl ⟨fields, h, rfl⟩
        · next hge =>
          -- behind the structs from before there is only the new one
          have hlast := List.mem_singleton.1 (List.mem_of_getElem? h)
          obtain ⟨hlt, -⟩ := List.getElem?_eq_some_iff.1 h
          cases hlast
          rw [List.length_singleton] at hlt
          exact .inr ⟨rfl, hname, by omega, rfl⟩
      · rintro (⟨fields', h, rfl⟩ | ⟨heq, -, rfl, hfields⟩)
        · rw [if_pos (List.getElem?_eq_some_iff.1 h).1]
          exact h
        · cases heq
          obtain rfl : fields = [] := hfields
          simp
  | addField i field =>
    rw [Request.apply, get?_addField, Option.map_eq_some_iff]
    constructor
    · rintro ⟨layout, h, hlayout⟩
      cases hlayout
      exact .inl ⟨layout.fields, h, rfl⟩
    · rintro (⟨fields', h, hfields⟩ | ⟨heq, -⟩)
      · obtain rfl : fields = _ := hfields
        exact ⟨_, h, rfl⟩
      · cases heq

/-! ## Histories -/

/-- The table has the names that the requests register, and the structs that they enter. -/
structure Represents (requests : List Request) (table : Layouts) : Prop where
  mem_names : ∀ name, name ∈ table.all.map (·.name) ↔ name ∈ registered requests
  get? : ∀ index layout, table.get? index = some layout ↔ Entered requests index layout

namespace Represents

variable {requests : List Request}

theorem length_eq (h : Represents requests table) : table.all.length = (registered requests).toFinset.card := by
  rw [← List.length_map (·.name), ← List.toFinset_card_of_nodup table.nodup_names]
  congr 1
  ext name
  rw [List.mem_toFinset, List.mem_toFinset, h.mem_names]

/-- A table that represents some requests represents one more behind them once it is asked for. -/
theorem apply (h : Represents requests table) (request : Request) :
    Represents (requests ++ [request]) (request.apply table) := by
  have hregistered : registered [request] = request.name?.toList := by
    cases request <;> rfl
  constructor
  · intro name
    rw [names_apply, registered_append, List.mem_append, List.mem_append, ← h.mem_names, hregistered, List.mem_filter]
    by_cases hname : name ∈ table.all.map (·.name)
    · simp only [hname, true_or]
    · simp only [hname, false_or, not_false_eq_true, decide_true, and_true]
  · intro index layout
    rw [get?_apply, entered_append_singleton, ← h.mem_names, ← h.length_eq]
    simp only [h.get?]

end Represents

/-- The table behind any requests represents them. -/
theorem represents_after (requests : List Request) : Represents requests (after requests) := by
  induction requests using List.reverseRecOn with
  | nil =>
    refine ⟨fun _ => Iff.rfl, fun index layout => ⟨fun h => ?_, ?_⟩⟩
    · cases h
    · rintro ⟨before, later, hsplit, -⟩
      simp at hsplit
  | append_singleton requests request ih =>
    rw [after_append]
    exact ih.apply request

/-! ## Looking up -/

/-- A name that has been registered has the position that registering it once more tells. -/
theorem index?_of_mem {name : String} (h : name ∈ table.all.map (·.name)) :
    table.index? name = some (table.register name).1 := by
  cases hindex : table.index? name with
  | none => exact absurd h (index?_eq_none_iff.1 hindex)
  | some index => rw [register_of_index? hindex]

/-- The names before the first of its kind are the same whatever is put behind it. -/
theorem takeWhile_append_cons_self (names more : List String) (name : String) :
    (names ++ name :: more).takeWhile (· ≠ name) = names.takeWhile (· ≠ name) := by
  induction names with
  | nil => simp
  | cons first names ih => rw [List.cons_append, List.takeWhile_cons, List.takeWhile_cons, ih]

theorem takeWhile_ne_of_notMem {names : List String} {name : String} (h : name ∉ names) :
    names.takeWhile (· ≠ name) = names := by
  rw [List.takeWhile_eq_self_iff]
  intro other hother
  exact decide_eq_true (ne_of_mem_of_not_mem hother h)

/-- The position of a name is the number of different names that are registered before it. -/
theorem register_fst_after (requests : List Request) (name : String) :
    ((after requests).register name).1 = ((registered requests).takeWhile (· ≠ name)).toFinset.card := by
  have h := represents_after requests
  cases hindex : (after requests).index? name with
  | none =>
    have hfresh : name ∉ registered requests := fun hmem => index?_eq_none_iff.1 hindex ((h.mem_names name).2 hmem)
    rw [register_of_fresh hindex, takeWhile_ne_of_notMem hfresh, h.length_eq]
  | some index =>
    obtain ⟨layout, hget, rfl⟩ := index?_eq_some_iff.1 hindex
    obtain ⟨before, later, rfl, hfresh, hcard, -⟩ := (h.get? index layout).1 hget
    have hnames : registered (before ++ .register layout.name :: later) =
        registered before ++ layout.name :: registered later := registered_append ..
    rw [register_of_index? hindex, hcard, hnames, takeWhile_append_cons_self, takeWhile_ne_of_notMem hfresh]

/-- A name keeps the position at which it is registered. -/
theorem register_fst_after_append (requests more : List Request) (name : String) :
    ((after (requests ++ .register name :: more)).register name).1 = ((after requests).register name).1 := by
  have hnames : registered (requests ++ .register name :: more) = registered requests ++ name :: registered more :=
    registered_append ..
  rw [register_fst_after, register_fst_after, hnames, takeWhile_append_cons_self]

end Layouts

/-- The type of a field is that of the first field so called. -/
theorem Layout.fieldType?_eq_some_iff {layout : Layout} {name : String} {type : DataType} :
    layout.fieldType? name = some type ↔
      ∃ before behind : List Field, layout.fields = before ++ ⟨name, type⟩ :: behind ∧ name ∉ before.map (·.name) := by
  rw [fieldType?, Option.map_eq_some_iff]
  constructor
  · rintro ⟨field, hfind, rfl⟩
    obtain ⟨hname, before, behind, hfields, hbefore⟩ := List.find?_eq_some_iff_append.1 hfind
    obtain rfl : field.name = name := of_decide_eq_true hname
    refine ⟨before, behind, hfields, ?_⟩
    intro hmem
    obtain ⟨other, hother, hsame⟩ := List.mem_map.1 hmem
    simpa [hsame] using hbefore other hother
  · rintro ⟨before, behind, hfields, hbefore⟩
    refine ⟨⟨name, type⟩, List.find?_eq_some_iff_append.2 ⟨by simp, before, behind, hfields, ?_⟩, rfl⟩
    intro other hother
    simpa using fun heq : other.name = name => hbefore (List.mem_map.2 ⟨other, hother, heq⟩)

/-- The type of a field is that of the first field of its name. -/
theorem Layouts.fieldType?_eq_some_iff {table : Layouts} {name field : String} {type : DataType} :
    table.fieldType? name field = some type ↔
      ∃ (layout : Layout) (before behind : List Field), layout ∈ table.all ∧ layout.name = name ∧
        layout.fields = before ++ ⟨field, type⟩ :: behind ∧ field ∉ before.map (·.name) := by
  rw [fieldType?, Option.bind_eq_some_iff]
  constructor
  · rintro ⟨layout, hlookup, htype⟩
    obtain ⟨hmem, hname⟩ := lookup?_eq_some_iff.1 hlookup
    obtain ⟨before, behind, hfields⟩ := Layout.fieldType?_eq_some_iff.1 htype
    exact ⟨layout, before, behind, hmem, hname, hfields⟩
  · rintro ⟨layout, before, behind, hmem, hname, hfields⟩
    exact ⟨layout, lookup?_eq_some_iff.2 ⟨hmem, hname⟩, Layout.fieldType?_eq_some_iff.2 ⟨before, behind, hfields⟩⟩

/-- Where there is no struct, no field can be added. -/
theorem Layouts.addField_of_get?_eq_none {table : Layouts} {index : Nat} (h : table.get? index = none) (field : Field) :
    table.addField index field = table :=
  Layouts.ext (List.modify_eq_self (List.getElem?_eq_none_iff.1 h)) rfl

/-- Behind any requests, the table of structs is a map from names to structs in the order of registration. The map finds
a position for a name exactly if the struct listed there has the name, names differ, and looking a name up gives the one
struct of the name. Registering a name tells the number of different names registered before it, and goes on telling it
whatever is asked later. The struct at a position has the fields that were added there since it was registered, in
order; adding a field where there is no struct changes nothing. The type of a field is that of the first field so
called. -/
theorem struct_table_ordered_map (requests : List Layouts.Request) :
    let table := Layouts.after requests
    (∀ name index, table.index? name = some index ↔ ∃ layout, table.get? index = some layout ∧ layout.name = name) ∧
      (∀ name layout, table.lookup? name = some layout ↔ layout ∈ table.all ∧ layout.name = name) ∧
      (table.all.map (·.name)).Nodup ∧
      (∀ name, let index := (table.register name).1
        index = ((Layouts.registered requests).takeWhile (· ≠ name)).toFinset.card ∧
          ∀ more, let later := Layouts.after (requests ++ .register name :: more)
            later.index? name = some index ∧ (later.register name).1 = index) ∧
      (∀ index layout, table.get? index = some layout ↔ Layouts.Entered requests index layout) ∧
      (∀ index field, table.get? index = none → table.addField index field = table) ∧
      ∀ name field type, table.fieldType? name field = some type ↔
        ∃ (layout : Layout) (before behind : List Field), layout ∈ table.all ∧ layout.name = name ∧
          layout.fields = before ++ ⟨field, type⟩ :: behind ∧ field ∉ before.map (·.name) := by
  intro table
  have h : Layouts.Represents requests table := Layouts.represents_after requests
  refine ⟨fun name index => Layouts.index?_eq_some_iff, fun name layout => Layouts.lookup?_eq_some_iff,
    table.nodup_names, ?_, h.get?, fun index field hnone => Layouts.addField_of_get?_eq_none hnone field,
    fun name field type => Layouts.fieldType?_eq_some_iff⟩
  intro name index
  refine ⟨Layouts.register_fst_after requests name, ?_⟩
  intro more later
  have hlater : (later.register name).1 = index := Layouts.register_fst_after_append requests more name
  have hmem : name ∈ later.all.map (·.name) := by
    rw [(Layouts.represents_after _).mem_names, Layouts.registered_append]
    exact List.mem_append_right _ List.mem_cons_self
  exact ⟨by rw [Layouts.index?_of_mem hmem, hlater], hlater⟩

/-- Fields for positions not in use, a name registered twice, an empty name and two fields of one name. -/
def scatteredRequests : List Layouts.Request :=
  [.addField 0 ⟨"lost", .int⟩, .register "point", .addField 0 ⟨"x", .int⟩, .register "", .register "point",
    .addField 1 ⟨"tag", .char⟩, .addField 0 ⟨"x", .double⟩, .addField 7 ⟨"lost", .int⟩]

theorem struct_table_ordered_map_scatteredRequests :
    let table := Layouts.after scatteredRequests
    table.index? "" = some 1 ∧ (table.register "point").1 = 0 ∧ table.addField 2 ⟨"lost", .int⟩ = table ∧
      Layouts.Entered scatteredRequests 0 ⟨"point", [⟨"x", .int⟩, ⟨"x", .double⟩]⟩ ∧
      table.fieldType? "point" "x" = some .int := by
  intro table
  obtain ⟨hindex, -, -, hregister, hget, hunused, htype⟩ := struct_table_ordered_map scatteredRequests
  have hfirst : table.get? 0 = some ⟨"point", [⟨"x", .int⟩, ⟨"x", .double⟩]⟩ := by decide +kernel
  refine ⟨(hindex "" 1).2 ⟨⟨"", [⟨"tag", .char⟩]⟩, by decide +kernel, rfl⟩, ?_, hunused 2 _ (by decide +kernel),
    (hget 0 _).1 hfirst, (htype "point" "x" .int).2 ⟨_, [], _, List.mem_of_getElem? hfirst, rfl, rfl, List.not_mem_nil⟩⟩
  rw [(hregister "point").1]
  decide +kernel

end ClockedC
