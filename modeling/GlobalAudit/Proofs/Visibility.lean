import GlobalAudit.Visibility

/-! What a name is bound to after entries are added and names are defined. The definitions of a file
make one layer without a barrier over the catalog, which is here called an overlay. -/
namespace GlobalAudit

namespace Fields

variable {α : Type}

theorem get?_append (name : String) (early late : Fields α) :
    get? name (early ++ late) = (get? name early).or (get? name late) := by
  induction early with
  | nil => rfl
  | cons entry rest ih =>
      by_cases same : entry.1 = name
      · simp only [List.cons_append, get?, if_pos same, Option.some_or]
      · simp only [List.cons_append, get?, if_neg same, ih]

theorem isSome_get?_iff (name : String) (fields : Fields α) :
    (get? name fields).isSome = true ↔ name ∈ names fields := by
  have absent := get?_eq_none_iff name fields
  cases found : get? name fields with
  | none => simpa only [Option.isSome_none, Bool.false_eq_true, false_iff] using absent.mp found
  | some value =>
      simp only [Option.isSome_some, true_iff]
      exact Decidable.not_not.mp fun missing => by simp [absent.mpr missing] at found

theorem mem_names_put (name other : String) (value : α) (fields : Fields α) :
    other ∈ names (put name value fields) ↔ other = name ∨ other ∈ names fields := by
  rw [names_put]
  split
  · rename_i present
    exact ⟨.inr, fun found => found.elim (fun same => same ▸ present) id⟩
  · rw [List.mem_append, List.mem_singleton, or_comm]

theorem get?_put (name other : String) (value : α) (fields : Fields α) :
    get? other (put name value fields) = if other = name then some value else get? other fields := by
  by_cases same : other = name
  · rw [if_pos same, same, get?_put_self]
  · rw [if_neg same, get?_put_of_ne same]

theorem get?_putNew (name other : String) (value : α) (fields : Fields α) :
    get? other (putNew name value fields) =
      (get? other fields).or (if other = name then some value else none) := by
  by_cases present : (get? name fields).isSome = true
  · rw [putNew, if_pos present]
    by_cases same : other = name
    · obtain ⟨kept, found⟩ := Option.isSome_iff_exists.mp present
      rw [same, found, Option.some_or]
    · rw [if_neg same, Option.or_none]
  · rw [putNew, if_neg present, get?_append]
    by_cases same : other = name
    · rw [if_pos same, same, get?, if_pos rfl]
    · rw [if_neg same, get?, if_neg (Ne.symm same), get?]

theorem get?_map (name : String) (value : String → α) (given : List String) :
    get? name (given.map fun other => (other, value other)) =
      if name ∈ given then some (value name) else none := by
  induction given with
  | nil => rfl
  | cons other rest ih =>
      by_cases same : other = name
      · simp only [List.map_cons, get?, same, List.mem_cons, true_or, if_true]
      · simp only [List.map_cons, get?, same, if_false, ih, List.mem_cons, Ne.symm same, false_or]

/-- Names entered where they are new, all with one value, follow the old entries in order of their
first occurrence. -/
theorem foldl_putNew (value : α) (fields : Fields α) (added : List String) :
    added.foldl (fun entries name => putNew name value entries) fields =
      fields ++ ((added.filter fun name => !(names fields).contains name).eraseDups.map fun name =>
        (name, value)) := by
  induction added generalizing fields with
  | nil => simp
  | cons name rest ih =>
      by_cases present : name ∈ names fields
      · have kept : putNew name value fields = fields :=
          if_pos ((isSome_get?_iff name fields).mpr present)
        rw [List.foldl_cons, kept, ih, List.filter_cons_of_neg (by simpa using present)]
      · have grown : putNew name value fields = fields ++ [(name, value)] :=
          if_neg (mt (isSome_get?_iff name fields).mp present)
        have later : (rest.filter fun other => !(names (fields ++ [(name, value)])).contains other) =
            (rest.filter fun other => !(names fields).contains other).filter
              fun other => !(other == name) := by
          rw [List.filter_filter]
          apply List.filter_congr
          intro other _
          have longer : names (fields ++ [(name, value)]) = names fields ++ [name] := List.map_append
          rw [longer, List.contains_append, List.contains_cons, List.contains_nil, Bool.or_false,
            Bool.not_or, Bool.and_comm]
        rw [List.foldl_cons, grown, ih, later,
          List.filter_cons_of_pos (by simpa using present), List.eraseDups_cons]
        simp only [List.map_cons, List.append_assoc, List.singleton_append]

end Fields

namespace Visibility

theorem lookup_define (name other : String) (shape : Shape) (scope : Visibility) :
    (scope.define name shape).lookup other =
      if other = name then some shape else scope.lookup other := by
  obtain ⟨base, layers⟩ := scope
  cases layers with
  | nil =>
      by_cases same : other = name
      · simp only [define, lookup, lookupIn, Fields.get?, if_pos same, if_pos same.symm]
      · simp [define, lookup, lookupIn, Fields.get?, if_neg same, if_neg (Ne.symm same)]
  | cons layer outer =>
      simp only [define, lookup, lookupIn, Fields.get?_put]
      by_cases same : other = name
      · simp only [if_pos same]
      · simp only [if_neg same]

theorem lookup_defineNew (name other : String) (shape : Shape) (scope : Visibility) :
    (scope.defineNew name shape).lookup other =
      (scope.lookup other).or (if other = name then some shape else none) := by
  by_cases visible : (scope.lookup name).isSome = true
  · rw [defineNew, if_pos visible]
    by_cases same : other = name
    · obtain ⟨kept, found⟩ := Option.isSome_iff_exists.mp visible
      rw [same, found, Option.some_or]
    · rw [if_neg same, Option.or_none]
  · rw [defineNew, if_neg visible, lookup_define]
    by_cases same : other = name
    · have hidden : scope.lookup name = none := Option.not_isSome_iff_eq_none.mp visible
      rw [if_pos same, if_pos same, same, hidden, Option.none_or]
    · rw [if_neg same, if_neg same, Option.or_none]

theorem tip_define (name : String) (shape : Shape) (scope : Visibility) :
    (scope.define name shape).tip = Fields.put name shape scope.tip := by
  obtain ⟨base, layers⟩ := scope
  cases layers <;> rfl

theorem lookup_of_tip {name : String} {shape : Shape} {scope : Visibility}
    (bound : Fields.get? name scope.tip = some shape) : scope.lookup name = some shape := by
  obtain ⟨base, layers⟩ := scope
  cases layers with
  | nil => cases bound
  | cons layer outer =>
      have here : Fields.get? name layer.entries = some shape := bound
      simp only [lookup, lookupIn, here]

theorem get?_tip_foldl_define (shape : Shape) (defined : List String) (other : String)
    (scope : Visibility) :
    Fields.get? other (defined.foldl (fun scope name => scope.define name shape) scope).tip =
      if other ∈ defined then some shape else Fields.get? other scope.tip := by
  induction defined generalizing scope with
  | nil => simp
  | cons name rest ih =>
      rw [List.foldl_cons, ih, tip_define, Fields.get?_put]
      by_cases later : other ∈ rest
      · rw [if_pos later, if_pos (List.mem_cons_of_mem name later)]
      · simp only [List.mem_cons, later, or_false, if_false]

theorem get?_tip_defineNew (name other : String) (shape : Shape) (scope : Visibility) :
    Fields.get? other (scope.defineNew name shape).tip =
      if other = name ∧ scope.lookup other = none then some shape
      else Fields.get? other scope.tip := by
  rw [defineNew]
  split
  · rename_i visible
    have seen : ¬ (other = name ∧ scope.lookup other = none) := by
      rintro ⟨rfl, hidden⟩
      simp [hidden] at visible
    rw [if_neg seen]
  · rename_i hidden
    rw [tip_define, Fields.get?_put]
    by_cases same : other = name
    · rw [if_pos same, if_pos ⟨same, same ▸ Option.not_isSome_iff_eq_none.mp hidden⟩]
    · rw [if_neg same, if_neg fun both => same both.1]

/-- What is bound keeps its shape. -/
theorem get?_tip_defineNew_of_bound {name : String} {shape : Shape} {scope : Visibility}
    (bound : Fields.get? name scope.tip = some shape) (other : String) (newer : Shape) :
    Fields.get? name (scope.defineNew other newer).tip = some shape := by
  rw [get?_tip_defineNew, lookup_of_tip bound, bound]
  exact if_neg fun both => Option.some_ne_none _ both.2

theorem get?_tip_foldl_defineNew (shape : Shape) (defined : List String) (other : String)
    (scope : Visibility) :
    Fields.get? other (defined.foldl (fun scope name => scope.defineNew name shape) scope).tip =
      if other ∈ defined ∧ scope.lookup other = none then some shape
      else Fields.get? other scope.tip := by
  induction defined generalizing scope with
  | nil => simp
  | cons name rest ih =>
      rw [List.foldl_cons, ih, lookup_defineNew, get?_tip_defineNew]
      by_cases here : other = name
      · simp [here]
      · simp [here]

@[simp] theorem lookup_pushBarrier (name : String) (entries : Fields Shape) (scope : Visibility) :
    (scope.pushBarrier entries).lookup name = Fields.get? name entries := by
  simp only [pushBarrier, lookup, lookupIn]
  cases Fields.get? name entries <;> rfl

/-- A layer of entries over a catalog. -/
def overlay (catalog : Catalog) (entries : Fields Shape) : Visibility := ⟨catalog, [⟨entries, false⟩]⟩

theorem lookup_overlay (name : String) (catalog : Catalog) (entries : Fields Shape) :
    (overlay catalog entries).lookup name = (Fields.get? name entries).or (catalog.get? name) := by
  simp only [overlay, lookup, lookupIn]
  cases Fields.get? name entries <;> rfl

/-- The catalog lies under a single layer, which hides nothing. -/
def IsOverlay (catalog : Catalog) (scope : Visibility) : Prop := scope = overlay catalog scope.tip

theorem IsOverlay.define {catalog : Catalog} {scope : Visibility} (covers : IsOverlay catalog scope)
    (name : String) (shape : Shape) : IsOverlay catalog (scope.define name shape) := by
  rw [IsOverlay] at covers
  rw [covers]
  rfl

theorem IsOverlay.defineNew {catalog : Catalog} {scope : Visibility}
    (covers : IsOverlay catalog scope) (name : String) (shape : Shape) :
    IsOverlay catalog (scope.defineNew name shape) := by
  rw [Visibility.defineNew]
  split
  · exact covers
  · exact covers.define name shape

/-- A fold keeps the overlay when each of its steps does. -/
theorem IsOverlay.foldl {α : Type} {catalog : Catalog} (step : Visibility → α → Visibility)
    (keeps : ∀ scope item, IsOverlay catalog scope → IsOverlay catalog (step scope item))
    (items : List α) {scope : Visibility} (covers : IsOverlay catalog scope) :
    IsOverlay catalog (items.foldl step scope) := by
  induction items generalizing scope with
  | nil => exact covers
  | cons item rest ih => exact ih (keeps scope item covers)

end Visibility

end GlobalAudit
