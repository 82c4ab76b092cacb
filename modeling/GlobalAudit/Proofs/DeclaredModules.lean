import GlobalAudit.Module.Source
import GlobalAudit.Proofs.CatalogText
import GlobalAudit.Proofs.Dotted

/-!
# Modules declared in a document

A JSON document declares modules by the members of its object. The members are kept under their names as
they are, while a module is looked for along the path that the segments of its name give. The two agree
on names without a dot. A member whose name has a dot is not what its name leads to: the path begins at
another member, and it may lead nowhere or to something else.
-/
namespace GlobalAudit

/-- What is read as an object has its members in order. -/
theorem Json.ascending_of_read? {text : String} {members : List (String × Json)}
    (read : read? text = some (.object members)) :
    members.Pairwise fun first second => first.1 < second.1 := by
  obtain ⟨value, _, inOrder⟩ := Option.map_eq_some_iff.mp read
  cases value with
  | object written =>
      rw [ordered] at inOrder
      cases inOrder
      exact pairwise_lastByName _
  | _ => cases inOrder

/-- What the path of a name leads to in an object: the first segment names a member, and the other
segments are followed from there. -/
def Leads (members : List (String × Json)) (name : String) (exports : Shape) : Prop :=
  ∃ value, (Dotted.root name, value) ∈ members ∧
    (Shape.ofJson value).follow? (Dotted.segments name).tail = some exports

variable {text : String} {members : List (String × Json)} {modules : Catalog}

/-- The globals of a document are the members of its object. -/
theorem Catalog.get?_ofJsonText (read : Json.read? text = some (.object members))
    (stored : ofJsonText text = .ok modules) {name : String} {shape : Shape} :
    modules.get? name = some shape ↔ ∃ value, (name, value) ∈ members ∧ Shape.ofJson value = shape := by
  have wellFormed := wellFormed_ofDocument stored
  rw [ofJsonText, ofDocument, read] at stored
  cases stored
  rw [Shape.ofList_fieldsOf (Json.ascending_of_read? read), Shape.fieldsOf_eq_map] at wellFormed ⊢
  have named : (name, shape) ∈ members.map (fun member => (member.1, Shape.ofJson member.2)) ↔
      ∃ value, (name, value) ∈ members ∧ Shape.ofJson value = shape := by
    simp
  rw [← named]
  exact ⟨Fields.mem_of_get?_eq_some, Fields.get?_eq_some_of_mem wellFormed.distinct⟩

/-- A document answers for a name with what its path leads to. -/
theorem Catalog.find?_ofJsonText (read : Json.read? text = some (.object members))
    (stored : ofJsonText text = .ok modules) {name : String} {exports : Shape} :
    modules.find? name = some exports ↔ Leads members name exports := by
  obtain ⟨rest, path⟩ := Dotted.segments_eq_root_cons name
  rw [find?, Leads, path, Shape.follow?, Option.bind_eq_some_iff]
  constructor
  · rintro ⟨shape, first, later⟩
    obtain ⟨value, member, rfl⟩ := (get?_ofJsonText read stored).mp first
    exact ⟨value, member, later⟩
  · rintro ⟨value, member, later⟩
    exact ⟨Shape.ofJson value, (get?_ofJsonText read stored).mpr ⟨value, member, rfl⟩, later⟩

/-- A name without a dot leads to the member of this name. -/
theorem leads_of_not_dotted {name : String} {value : Json} (plain : Dotted.isDotted name = false)
    (member : (name, value) ∈ members) : Leads members name (Shape.ofJson value) := by
  refine ⟨value, ?_, ?_⟩
  · rwa [Dotted.root_of_not_dotted plain]
  · rw [Dotted.segments_of_not_dotted plain]
    rfl

theorem Source.load_declared_eq_ok_iff {name : String} {exports : Shape} :
    ((declared modules).load name).1 = .ok ⟨exports, []⟩ ↔ modules.find? name = some exports := by
  rw [load]
  cases modules.find? name with
  | none => simp
  | some found => simp

theorem Source.load_declared_eq_error_iff {name : String} {error : LoadError} :
    ((declared modules).load name).1 = .error error ↔
      error = .notFound name ∧ modules.find? name = none := by
  rw [load]
  cases modules.find? name with
  | none => simp [eq_comm]
  | some found => simp

/-- A document that is an object declares for every name what the path of the name leads to. A member
is loaded under its own name exactly if this name has no dot or its path leads to the same shape
from another member. -/
theorem declared_members_load (read : Json.read? text = some (.object members)) :
    ∃ modules, Catalog.ofJsonText text = .ok modules ∧
      (∀ name value, (name, value) ∈ members →
        (((Source.declared modules).load name).1 = .ok ⟨Shape.ofJson value, []⟩ ↔
          Dotted.isDotted name = false ∨ Leads members name (Shape.ofJson value))) ∧
      ∀ name,
        (∀ exports, ((Source.declared modules).load name).1 = .ok ⟨exports, []⟩ ↔
          Leads members name exports) ∧
        ∀ error, ((Source.declared modules).load name).1 = .error error ↔
          error = .notFound name ∧ ∀ exports, ¬ Leads members name exports := by
  obtain ⟨modules, stored⟩ : ∃ modules, Catalog.ofJsonText text = .ok modules := by
    rw [Catalog.ofJsonText, Catalog.ofDocument, read]
    exact ⟨_, rfl⟩
  have loads (name : String) (exports : Shape) :
      ((Source.declared modules).load name).1 = .ok ⟨exports, []⟩ ↔ Leads members name exports := by
    rw [Source.load_declared_eq_ok_iff, Catalog.find?_ofJsonText read stored]
  refine ⟨modules, stored, ?_, ?_⟩
  · intro name value member
    rw [loads]
    refine ⟨Or.inr, ?_⟩
    rintro (plain | leads)
    · exact leads_of_not_dotted plain member
    · exact leads
  · intro name
    refine ⟨loads name, ?_⟩
    intro error
    rw [Source.load_declared_eq_error_iff, Option.eq_none_iff_forall_ne_some]
    simp only [ne_eq, Catalog.find?_ofJsonText read stored]

/-- A library with one function. -/
def oneFunction : Json := .object [("get", .string "function")]

/-- A module below another one, and a member with the dotted name of the inner one. -/
def sharedPath : List (String × Json) :=
  [("socket", .object [("http", oneFunction)]), ("socket.http", .string "string")]

/-- The inner module is loaded under the dotted name, not the member of this name. -/
theorem declared_members_load_sharedPath :
    Json.read? (Json.object sharedPath).render = some (.object sharedPath) ∧
      ∃ modules, Catalog.ofJsonText (Json.object sharedPath).render = .ok modules ∧
        ((Source.declared modules).load "socket").1 =
          .ok ⟨Shape.ofJson (.object [("http", oneFunction)]), []⟩ ∧
        ((Source.declared modules).load "socket.http").1 = .ok ⟨Shape.ofJson oneFunction, []⟩ := by
  have parsed : Json.parse? (Json.object sharedPath).render.toList = some (.object sharedPath) := rfl
  have read : Json.read? (Json.object sharedPath).render = some (.object sharedPath) := by
    rw [Json.read?, parsed]
    rfl
  have outer : ("socket", Json.object [("http", oneFunction)]) ∈ sharedPath := List.mem_cons_self
  obtain ⟨modules, stored, own, loads⟩ := declared_members_load read
  refine ⟨read, modules, stored, (own _ _ outer).mpr (.inl (by decide)), ?_⟩
  exact ((loads "socket.http").1 _).mpr ⟨_, outer, rfl⟩

/-- The document with one member, whose name has a dot. -/
def dottedMember : String := "\x7b\"socket.http\":\x7b\"get\":\"function\"\x7d\x7d"

/-- The path of this name begins at a member that does not exist. -/
theorem dottedMember_not_found :
    (∃ modules, Catalog.ofJsonText dottedMember = .ok modules ∧
      ((Source.declared modules).load "socket.http").1 = .error (.notFound "socket.http")) ∧
      ¬ ∀ (text : String) (members : List (String × Json)) (modules : Catalog),
        Json.read? text = some (.object members) → Catalog.ofJsonText text = .ok modules →
        ∀ name value, (name, value) ∈ members →
          ((Source.declared modules).load name).1 = .ok ⟨Shape.ofJson value, []⟩ := by
  have parsed : Json.parse? dottedMember.toList = some (.object [("socket.http", oneFunction)]) := rfl
  have read : Json.read? dottedMember = some (.object [("socket.http", oneFunction)]) := by
    rw [Json.read?, parsed]
    rfl
  obtain ⟨modules, stored, lost⟩ : ∃ modules, Catalog.ofJsonText dottedMember = .ok modules ∧
      ((Source.declared modules).load "socket.http").1 = .error (.notFound "socket.http") := by
    rw [Catalog.ofJsonText, Catalog.ofDocument, read]
    exact ⟨_, rfl, rfl⟩
  refine ⟨⟨modules, stored, lost⟩, ?_⟩
  intro loads
  cases lost.symm.trans (loads dottedMember _ modules read stored _ _ List.mem_cons_self)

end GlobalAudit
