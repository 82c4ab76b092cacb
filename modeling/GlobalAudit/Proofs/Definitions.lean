import GlobalAudit.Audit.Judgement
import GlobalAudit.Proofs.Dotted
import GlobalAudit.Proofs.Visibility

/-! What the definitions of a file bind. Every rule adds to the one layer over the catalog, and what a
rule binds depends on which names are written on which lines, never on the order of the writes. -/
namespace GlobalAudit

open Visibility

theorem Facts.mem_rootWrites {onLine : Nat → Bool} {facts : Facts} {name : String} :
    name ∈ facts.rootWrites onLine ↔
      ∃ reference ∈ facts.references, reference.isWrite = true ∧ onLine reference.line = true ∧
        Dotted.isDotted reference.name = false ∧ reference.name = name := by
  simp only [Facts.rootWrites, List.mem_eraseDups, List.mem_map, List.mem_filter, Bool.and_eq_true,
    Bool.not_eq_true', and_assoc]

/-- The names that an open module exports. -/
def Facts.exports (facts : Facts) : List String :=
  match facts.declaration with
  | some ⟨_, _, .open⟩ => facts.rootWrites (fun _ => true) ++ moduleFields
  | _ => []

namespace Audit

/-! ## One layer over the catalog -/

theorem isOverlay_defineGlobal {catalog : Catalog} {scope : Visibility}
    (covers : IsOverlay catalog scope) (required : String) (exports : Shape) (global : NewGlobal) :
    IsOverlay catalog (defineGlobal required exports global scope) := by
  rw [defineGlobal]
  split
  · exact covers.define _ _
  · dsimp only
    split
    · exact covers.define _ _
    · exact covers.define _ _

theorem isOverlay_addGlobal {σ : Type} {catalog : Catalog} {loading : Loading σ}
    (covers : IsOverlay catalog loading.scope) (require : Require) (exports : Shape)
    (global : NewGlobal) : IsOverlay catalog (addGlobal require exports loading global).scope := by
  rw [addGlobal]
  split
  · exact isOverlay_defineGlobal covers _ _ _
  · exact covers

theorem isOverlay_foldl_addGlobal {σ : Type} {catalog : Catalog} {loading : Loading σ}
    (covers : IsOverlay catalog loading.scope) (require : Require) (exports : Shape)
    (globals : List NewGlobal) :
    IsOverlay catalog (globals.foldl (addGlobal require exports) loading).scope := by
  induction globals generalizing loading with
  | nil => exact covers
  | cons global rest ih => exact ih (isOverlay_addGlobal covers require exports global)

theorem isOverlay_defineReceiver {catalog : Catalog} {scope : Visibility}
    (covers : IsOverlay catalog scope) (require : Require) (shape : Shape) :
    IsOverlay catalog (defineReceiver require shape scope) := by
  rw [defineReceiver]
  split
  · exact covers.define _ _
  · exact covers

theorem isOverlay_addRequire {σ : Type} [Loader σ] {catalog base : Catalog} {loading : Loading σ}
    (covers : IsOverlay base loading.scope) (policy : Policy) (require : Require) :
    IsOverlay base (addRequire catalog policy loading require).scope := by
  rw [addRequire]
  split
  · split
    · exact covers
    · refine isOverlay_defineReceiver (isOverlay_foldl_addGlobal ?_ _ _ _) _ _
      exact covers
  · exact isOverlay_defineReceiver covers _ _

theorem isOverlay_addRequires {σ : Type} [Loader σ] (catalog : Catalog) (policy : Policy)
    (facts : Facts) (sources : σ) :
    IsOverlay catalog (addRequires catalog policy facts sources).scope := by
  have kept (requires : List Require) (loading : Loading σ) (covers : IsOverlay catalog loading.scope) :
      IsOverlay catalog (requires.foldl (addRequire catalog policy) loading).scope := by
    induction requires generalizing loading with
    | nil => exact covers
    | cons require rest ih => exact ih _ (isOverlay_addRequire covers policy require)
  exact kept facts.requires _ rfl

theorem isOverlay_addReturned {catalog : Catalog} {scope : Visibility}
    (covers : IsOverlay catalog scope) (facts : Facts) :
    IsOverlay catalog (addReturned facts scope) := by
  rw [addReturned]
  split
  · exact covers
  · exact covers.define _ _

theorem isOverlay_addOpenModule {catalog : Catalog} {scope : Visibility}
    (covers : IsOverlay catalog scope) (facts : Facts) :
    IsOverlay catalog (addOpenModule facts scope) := by
  have exported (names : List String) :
      IsOverlay catalog (names.foldl (fun scope name => scope.define name .own) scope) :=
    IsOverlay.foldl _ (fun _ name inner => inner.define name .own) names covers
  rw [addOpenModule]
  split
  · dsimp only
    split
    · exact (exported _).defineNew _ _
    · exact exported _
  · exact covers

theorem isOverlay_addEarlyGlobals {catalog : Catalog} {scope : Visibility}
    (covers : IsOverlay catalog scope) (facts : Facts) :
    IsOverlay catalog (addEarlyGlobals facts scope) := by
  rw [addEarlyGlobals]
  split
  · exact covers
  · exact IsOverlay.foldl _ (fun _ name inner => inner.defineNew name .own) _ covers

theorem isOverlay_definitions {catalog : Catalog} {scope : Visibility}
    (covers : IsOverlay catalog scope) (facts : Facts) :
    IsOverlay catalog (definitions facts scope) :=
  isOverlay_addEarlyGlobals (isOverlay_addOpenModule (isOverlay_addReturned covers facts) facts) facts

/-! ## The fields of the returned module -/

/-- The field below a name that a write reaches, and whether the field itself is written. -/
def touched? (name : String) (reference : Reference) : Option (String × Bool) :=
  if reference.isWrite then
    (Text.after? (name ++ ".") reference.name.toList).map fun rest =>
      match Text.cut? '.' rest with
      | none => (String.ofList rest, true)
      | some (field, _) => (String.ofList field, false)
  else none

/-- What a write below a name touches is the root of the rest. -/
theorem touched?_eq (name : String) (reference : Reference) :
    touched? name reference =
      if reference.isWrite then
        (Text.after? (name ++ ".") reference.name.toList).map fun rest =>
          (Dotted.root (String.ofList rest), !Dotted.isDotted (String.ofList rest))
      else none := by
  rw [touched?]
  congr 2
  funext rest
  cases cut : Text.cut? '.' rest with
  | none =>
      have plain : Dotted.isDotted (String.ofList rest) = false := by
        rw [Dotted.isDotted_eq_false_iff, String.toList_ofList]
        exact Text.cut?_eq_none_iff.mp cut
      rw [Dotted.root_of_not_dotted plain, plain]
      rfl
  | some parts =>
      obtain ⟨before, after⟩ := parts
      obtain ⟨text, absent⟩ := Text.cut?_eq_some cut
      have plain : Dotted.isDotted (String.ofList before) = false := by
        rwa [Dotted.isDotted_eq_false_iff, String.toList_ofList]
      have whole : String.ofList rest =
          Dotted.extend (String.ofList before) (String.ofList after) := by
        rw [← String.toList_inj, Dotted.toList_extend]
        simpa using text
      have dotted : Dotted.isDotted (String.ofList rest) = true := by
        simp [Dotted.isDotted, text]
      rw [dotted, whole, Dotted.root_extend_of_not_dotted plain]
      rfl

theorem addModuleField_eq (name : String) (fields : Fields Shape) (reference : Reference) :
    addModuleField name fields reference =
      match touched? name reference with
      | none => fields
      | some (field, true) => Fields.put field .own fields
      | some (field, false) => Fields.putNew field .own fields := by
  rw [addModuleField, touched?]
  split
  · cases Text.after? (name ++ ".") reference.name.toList with
    | none => rfl
    | some rest =>
        dsimp only [Option.map]
        cases Text.cut? '.' rest <;> rfl
  · rfl

theorem get?_addModuleField (name field : String) (fields : Fields Shape) (reference : Reference) :
    Fields.get? field (addModuleField name fields reference) =
      if touched? name reference = some (field, true) then some .own
      else (Fields.get? field fields).or
        (if touched? name reference = some (field, false) then some .own else none) := by
  rw [addModuleField_eq]
  cases touched? name reference with
  | none => simp
  | some touched =>
      obtain ⟨other, direct⟩ := touched
      cases direct with
      | true => simp [Fields.get?_put, eq_comm]
      | false => simp [Fields.get?_putNew, eq_comm]

/-- A field that is written anywhere is an own name. One that is only on the way to what is written
keeps its shape, if it has one. -/
theorem get?_foldl_addModuleField (name field : String) (references : List Reference)
    (fields : Fields Shape) :
    Fields.get? field (references.foldl (addModuleField name) fields) =
      if references.any (fun reference => touched? name reference == some (field, true)) then some .own
      else (Fields.get? field fields).or
        (if references.any (fun reference => touched? name reference == some (field, false)) then
          some .own
        else none) := by
  induction references generalizing fields with
  | nil => simp
  | cons reference rest ih =>
      rw [List.foldl_cons, ih, get?_addModuleField]
      by_cases written : touched? name reference = some (field, true)
      · simp [written]
      · by_cases passed : touched? name reference = some (field, false)
        · simp only [List.any_cons, passed]
          cases Fields.get? field fields <;> simp
        · simp [written, passed]

/-! ## What is bound -/

section Bindings

variable {facts : Facts} {scope : Visibility} {name : String} {shape : Shape}

theorem get?_tip_addReturned :
    Fields.get? name (addReturned facts scope).tip =
      if facts.returned = some name then
        some (.table (facts.references.foldl (addModuleField name) (visibleFields name scope)))
      else Fields.get? name scope.tip := by
  rw [addReturned]
  cases facts.returned with
  | none => simp
  | some other =>
      rw [tip_define, Fields.get?_put]
      by_cases same : name = other
      · simp [same]
      · simp [same, Ne.symm same]

theorem get?_tip_addOpenModule (bound : Fields.get? name scope.tip = some shape) :
    Fields.get? name (addOpenModule facts scope).tip =
      some (if name ∈ facts.exports then .own else shape) := by
  rw [addOpenModule, Facts.exports]
  cases facts.declaration with
  | none => simpa using bound
  | some declaration =>
      obtain ⟨line, given, mode⟩ := declaration
      cases mode with
      | strict => simpa using bound
      | «open» =>
          have exported := get?_tip_foldl_define .own
            (facts.rootWrites (fun _ => true) ++ moduleFields) name scope
          rw [bound, ← apply_ite] at exported
          cases given with
          | none => exact exported
          | some outer => exact get?_tip_defineNew_of_bound exported _ _

theorem get?_tip_addEarlyGlobals (bound : Fields.get? name scope.tip = some shape) :
    Fields.get? name (addEarlyGlobals facts scope).tip = some shape := by
  rw [addEarlyGlobals]
  split
  · exact bound
  · rw [get?_tip_foldl_defineNew, lookup_of_tip bound, bound]
    simp

/-- What is bound stays bound, except that exports of an open module and the returned module are
bound anew. -/
theorem get?_tip_definitions (bound : Fields.get? name scope.tip = some shape) :
    Fields.get? name (definitions facts scope).tip = some
      (if name ∈ facts.exports then .own
      else if facts.returned = some name then
        .table (facts.references.foldl (addModuleField name) (visibleFields name scope))
      else shape) := by
  refine get?_tip_addEarlyGlobals (get?_tip_addOpenModule ?_)
  rw [get?_tip_addReturned, bound, ← apply_ite]

end Bindings

/-! ## Independence of order -/

end Audit

/-- Equal shapes, or tables that have the same fields in some order. -/
inductive Shape.Alike : Shape → Shape → Prop where
  | refl (shape : Shape) : Alike shape shape
  | table {first second : Fields Shape}
      (same : ∀ name, Fields.get? name first = Fields.get? name second) :
      Alike (.table first) (.table second)

/-- Neither is bound, or both are to shapes that are alike. -/
inductive Shape.BoundAlike : Option Shape → Option Shape → Prop where
  | absent : BoundAlike none none
  | present {first second : Shape} (alike : first.Alike second) :
      BoundAlike (some first) (some second)

/-- Two overlays of one catalog that bind the same names to shapes that are alike. -/
structure Visibility.Alike (catalog : Catalog) (first second : Visibility) : Prop where
  overFirst : IsOverlay catalog first
  overSecond : IsOverlay catalog second
  entries : ∀ name, Shape.BoundAlike (Fields.get? name first.tip) (Fields.get? name second.tip)

namespace Shape.BoundAlike

theorem refl (shape : Option Shape) : Shape.BoundAlike shape shape := by
  cases shape with
  | none => exact .absent
  | some shape => exact .present (.refl shape)

theorem or {first second : Option Shape} (alike : Shape.BoundAlike first second)
    (shape : Option Shape) : Shape.BoundAlike (first.or shape) (second.or shape) := by
  cases alike with
  | absent => exact refl shape
  | present inner => exact .present inner

/-- Two bindings are alike when one condition replaces both by one shape. -/
theorem ite {first second : Option Shape} (alike : Shape.BoundAlike first second)
    (shape : Option Shape) {p q : Prop} [Decidable p] [Decidable q] (same : p ↔ q) :
    Shape.BoundAlike (if p then shape else first) (if q then shape else second) := by
  by_cases holds : p
  · rw [if_pos holds, if_pos (same.mp holds)]
    exact refl shape
  · rw [if_neg holds, if_neg (mt same.mpr holds)]
    exact alike

theorem eq_none_iff {first second : Option Shape} (alike : Shape.BoundAlike first second) :
    first = none ↔ second = none := by
  cases alike with
  | absent => rfl
  | present inner => simp only [reduceCtorEq]

end Shape.BoundAlike

namespace Visibility.Alike

variable {catalog : Catalog} {first second : Visibility}

theorem refl {scope : Visibility} (covers : IsOverlay catalog scope) :
    Visibility.Alike catalog scope scope :=
  ⟨covers, covers, fun _ => Shape.BoundAlike.refl _⟩

theorem lookup (alike : Visibility.Alike catalog first second) (name : String) :
    Shape.BoundAlike (first.lookup name) (second.lookup name) := by
  have overFirst := alike.overFirst
  have overSecond := alike.overSecond
  rw [IsOverlay] at overFirst overSecond
  rw [overFirst, overSecond, lookup_overlay, lookup_overlay]
  exact (alike.entries name).or _

theorem define (alike : Visibility.Alike catalog first second) (name : String) {left right : Shape}
    (shapes : left.Alike right) :
    Visibility.Alike catalog (first.define name left) (second.define name right) where
  overFirst := alike.overFirst.define name left
  overSecond := alike.overSecond.define name right
  entries := by
    intro other
    rw [tip_define, tip_define, Fields.get?_put, Fields.get?_put]
    by_cases same : other = name
    · rw [if_pos same, if_pos same]
      exact .present shapes
    · rw [if_neg same, if_neg same]
      exact alike.entries other

theorem defineNew (alike : Visibility.Alike catalog first second) (name : String) (shape : Shape) :
    Visibility.Alike catalog (first.defineNew name shape) (second.defineNew name shape) where
  overFirst := alike.overFirst.defineNew name shape
  overSecond := alike.overSecond.defineNew name shape
  entries := by
    intro other
    rw [get?_tip_defineNew, get?_tip_defineNew]
    exact (alike.entries other).ite _ (and_congr_right' (alike.lookup other).eq_none_iff)

theorem foldlDefine (alike : Visibility.Alike catalog first second) (shape : Shape)
    {left right : List String} (members : ∀ name, name ∈ left ↔ name ∈ right) :
    Visibility.Alike catalog (left.foldl (fun scope name => scope.define name shape) first)
      (right.foldl (fun scope name => scope.define name shape) second) where
  overFirst := .foldl _ (fun _ name covers => covers.define name shape) left alike.overFirst
  overSecond := .foldl _ (fun _ name covers => covers.define name shape) right alike.overSecond
  entries := by
    intro other
    rw [get?_tip_foldl_define, get?_tip_foldl_define]
    exact (alike.entries other).ite _ (members other)

theorem foldlDefineNew (alike : Visibility.Alike catalog first second) (shape : Shape)
    {left right : List String} (members : ∀ name, name ∈ left ↔ name ∈ right) :
    Visibility.Alike catalog (left.foldl (fun scope name => scope.defineNew name shape) first)
      (right.foldl (fun scope name => scope.defineNew name shape) second) where
  overFirst := .foldl _ (fun _ name covers => covers.defineNew name shape) left alike.overFirst
  overSecond := .foldl _ (fun _ name covers => covers.defineNew name shape) right alike.overSecond
  entries := by
    intro other
    rw [get?_tip_foldl_defineNew, get?_tip_foldl_defineNew]
    exact (alike.entries other).ite _
      (and_congr (members other) (alike.lookup other).eq_none_iff)

end Visibility.Alike

namespace Audit

/-- The facts with their references in another order. -/
def reorder (facts : Facts) (references : List Reference) : Facts := { facts with references }

variable {facts : Facts} {references : List Reference}

theorem mem_rootWrites_reorder (order : references.Perm facts.references) (onLine : Nat → Bool)
    (name : String) :
    name ∈ (reorder facts references).rootWrites onLine ↔ name ∈ facts.rootWrites onLine := by
  rw [Facts.mem_rootWrites, Facts.mem_rootWrites]
  simp only [reorder, order.mem_iff]

theorem alike_addReturned (order : references.Perm facts.references) {catalog : Catalog}
    {scope : Visibility} (covers : IsOverlay catalog scope) :
    Visibility.Alike catalog (addReturned (reorder facts references) scope)
      (addReturned facts scope) := by
  simp only [addReturned, reorder]
  split
  · exact .refl covers
  · refine Visibility.Alike.define (.refl covers) _ (.table ?_)
    intro field
    rw [get?_foldl_addModuleField, get?_foldl_addModuleField, order.any_eq, order.any_eq]

theorem alike_addOpenModule (order : references.Perm facts.references) {catalog : Catalog}
    {first second : Visibility} (alike : Visibility.Alike catalog first second) :
    Visibility.Alike catalog (addOpenModule (reorder facts references) first)
      (addOpenModule facts second) := by
  have exported : ∀ name,
      name ∈ (reorder facts references).rootWrites (fun _ => true) ++ moduleFields ↔
        name ∈ facts.rootWrites (fun _ => true) ++ moduleFields := by
    intro name
    rw [List.mem_append, List.mem_append, mem_rootWrites_reorder order]
  have declared : (reorder facts references).declaration = facts.declaration := rfl
  rw [addOpenModule, addOpenModule, declared]
  split
  · dsimp only
    split
    · exact (alike.foldlDefine .own exported).defineNew _ _
    · exact alike.foldlDefine .own exported
  · exact alike

theorem alike_addEarlyGlobals (order : references.Perm facts.references) {catalog : Catalog}
    {first second : Visibility} (alike : Visibility.Alike catalog first second) :
    Visibility.Alike catalog (addEarlyGlobals (reorder facts references) first)
      (addEarlyGlobals facts second) := by
  have marked : (reorder facts references).endOfGlobals = facts.endOfGlobals := rfl
  rw [addEarlyGlobals, addEarlyGlobals, marked]
  split
  · exact alike
  · exact alike.foldlDefineNew .own (mem_rootWrites_reorder order _)

/-- The definitions of a file do not depend on the order in which its references are found. -/
theorem alike_definitions (order : references.Perm facts.references) {catalog : Catalog}
    {scope : Visibility} (covers : IsOverlay catalog scope) :
    Visibility.Alike catalog (definitions (reorder facts references) scope)
      (definitions facts scope) :=
  alike_addEarlyGlobals order (alike_addOpenModule order (alike_addReturned order covers))

end Audit

end GlobalAudit
