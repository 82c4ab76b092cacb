import GlobalAudit.Proofs.ByteOrder
import GlobalAudit.Proofs.JsonText
import GlobalAudit.Proofs.NameList

/-!
# Catalogs written as JSON

A table is written as a JSON object, and the document that holds the text gives the table back as a
catalog, whatever writes and reads the JSON, as long as the two fit together. The names of fields may be
any texts: a dot in a name divides nothing here. What is not kept is the order of the fields, which
ascends by the bytes of their names at every depth. Own names cannot be written, since their mark is
read as the name of an unknown type.
-/
namespace GlobalAudit

namespace Shape

/-- No name at any depth is left to the file itself. -/
inductive Explicit : Shape → Prop where
  | table {fields : Fields Shape} (inner : ∀ entry ∈ fields, Explicit entry.2) :
      Explicit (.table fields)
  | scalar (kind : Kind) : Explicit (.scalar kind)

/-- The fields of every table ascend by the bytes of their names. -/
inductive Ascending : Shape → Prop where
  | table {fields : Fields Shape}
      (ordered : fields.Pairwise fun first second => Text.bytes first.1 < Text.bytes second.1)
      (inner : ∀ entry ∈ fields, Ascending entry.2) : Ascending (.table fields)
  | scalar (kind : Kind) : Ascending (.scalar kind)
  | own : Ascending .own

mutual

/-- How deep tables are nested. -/
def depth : Shape → Nat
  | .table fields => fieldsDepth fields + 1
  | _ => 0

def fieldsDepth : List (String × Shape) → Nat
  | [] => 0
  | (_, shape) :: rest => max (depth shape) (fieldsDepth rest)

end

/-! ## Shapes as JSON -/

mutual

theorem depth_toJson : (shape : Shape) → shape.toJson.depth = shape.depth
  | .table fields => congrArg (· + 1) (membersDepth_membersOf fields)
  | .scalar _ => rfl
  | .own => rfl

theorem membersDepth_membersOf : (fields : List (String × Shape)) →
    Json.membersDepth (membersOf fields) = fieldsDepth fields
  | [] => rfl
  | (_, shape) :: rest => congrArg₂ max (depth_toJson shape) (membersDepth_membersOf rest)

end

theorem ofTypeName_name (kind : Kind) : ofTypeName kind.name = .scalar kind := by
  have noTable : kind.name ≠ "table" := by cases kind <;> decide
  rw [ofTypeName, if_neg noTable, Kind.ofTypeName?_name, Option.getD_some]

theorem fieldsOf_eq_map (members : List (String × Json)) :
    fieldsOf members = members.map fun member => (member.1, ofJson member.2) := by
  induction members with
  | nil => rfl
  | cons member rest ih => exact congrArg _ ih

theorem membersOf_eq_map (fields : Fields Shape) :
    membersOf fields = fields.map fun entry => (entry.1, toJson entry.2) := by
  induction fields with
  | nil => rfl
  | cons entry rest ih => exact congrArg _ ih

theorem distinct_fieldsOf {members : List (String × Json)}
    (ascending : members.Pairwise fun first second => first.1 < second.1) :
    Fields.Distinct (fieldsOf members) := by
  rw [fieldsOf_eq_map, Fields.Distinct, Fields.names, List.map_map]
  exact List.pairwise_map.mpr (ascending.imp fun less => ne_of_lt less)

/-- Members in order keep their places as fields. -/
theorem ofList_fieldsOf {members : List (String × Json)}
    (ascending : members.Pairwise fun first second => first.1 < second.1) :
    Fields.ofList (fieldsOf members) = fieldsOf members :=
  Fields.ofList_of_distinct (distinct_fieldsOf ascending)

/-- The members that are written for a table, in order. -/
def sortedMembers (fields : Fields Shape) : List (String × Json) :=
  Json.lastByName (Json.orderedMembers (membersOf fields))

theorem ascending_sortedMembers (fields : Fields Shape) :
    (sortedMembers fields).Pairwise fun first second => first.1 < second.1 :=
  Json.pairwise_lastByName _

theorem ofJson_ordered_scalar (kind : Kind) :
    ofJson (toJson (.scalar kind)).ordered = .scalar kind := ofTypeName_name kind

theorem ofJson_ordered_table (fields : Fields Shape) :
    ofJson (toJson (.table fields)).ordered = .table (fieldsOf (sortedMembers fields)) := by
  rw [toJson, Json.ordered, ofJson, ofList_fieldsOf (Json.pairwise_lastByName _)]
  rfl

/-- The fields that are read back, in whatever order. -/
theorem mem_fieldsOf_sortedMembers {fields : Fields Shape} (distinct : Fields.Distinct fields)
    (entry : String × Shape) :
    entry ∈ fieldsOf (sortedMembers fields) ↔
      ∃ field ∈ fields, entry = (field.1, ofJson (toJson field.2).ordered) := by
  have written : Json.orderedMembers (membersOf fields) =
      fields.map fun field => (field.1, (toJson field.2).ordered) := by
    rw [Json.orderedMembers_eq_map, membersOf_eq_map, List.map_map]
    rfl
  have apart : ((Json.orderedMembers (membersOf fields)).map Prod.fst).Nodup := by
    rw [written, List.map_map]
    exact distinct
  simp only [fieldsOf_eq_map, List.mem_map, sortedMembers, Json.mem_lastByName_iff apart]
  simp only [written, List.mem_map, exists_exists_and_eq_and]
  simp only [eq_comm]

theorem names_perm_sortedMembers {fields : Fields Shape} (distinct : Fields.Distinct fields) :
    (Fields.names fields).Perm (Fields.names (fieldsOf (sortedMembers fields))) := by
  rw [List.perm_ext_iff_of_nodup distinct (distinct_fieldsOf (ascending_sortedMembers fields))]
  intro name
  simp only [Fields.names, List.mem_map, mem_fieldsOf_sortedMembers distinct]
  constructor
  · rintro ⟨field, member, rfl⟩
    exact ⟨_, ⟨field, member, rfl⟩, rfl⟩
  · rintro ⟨_, ⟨field, member, rfl⟩, rfl⟩
    exact ⟨field, member, rfl⟩

theorem reordered_ofJson_ordered {shape : Shape} (explicit : shape.Explicit)
    (wellFormed : shape.WellFormed) : shape.Reordered (ofJson (toJson shape).ordered) := by
  induction explicit with
  | scalar kind =>
      rw [ofJson_ordered_scalar]
      exact .scalar kind
  | @table fields inner ih =>
      rw [ofJson_ordered_table]
      refine .table (names_perm_sortedMembers wellFormed.distinct) ?_
      intro name left right before after
      obtain ⟨⟨_, field⟩, member, same⟩ :=
        (mem_fieldsOf_sortedMembers wellFormed.distinct _).mp (Fields.mem_of_get?_eq_some after)
      cases same
      cases (Fields.get?_eq_some_of_mem wellFormed.distinct member).symm.trans before
      exact ih _ member (wellFormed.inner _ member)

theorem ascending_ofJson_ordered {shape : Shape} (wellFormed : shape.WellFormed) :
    (ofJson (toJson shape).ordered).Ascending := by
  induction wellFormed with
  | scalar kind =>
      rw [ofJson_ordered_scalar]
      exact .scalar kind
  | own => exact .scalar .any
  | @table fields distinct inner ih =>
      rw [ofJson_ordered_table]
      refine .table ?_ ?_
      · rw [fieldsOf_eq_map]
        exact List.pairwise_map.mpr
          ((ascending_sortedMembers fields).imp Text.bytes_lt_bytes_iff.mpr)
      · intro entry read
        obtain ⟨field, member, rfl⟩ := (mem_fieldsOf_sortedMembers distinct entry).mp read
        exact ih field member

end Shape

/-! ## Documents -/

/-- Strings, and objects of such values in which no name is twice. -/
inductive Json.Plain : Json → Prop where
  | string (text : String) : Plain (.string text)
  | object {members : List (String × Json)} (distinct : (members.map Prod.fst).Nodup)
      (each : ∀ member ∈ members, Plain member.2) : Plain (.object members)

theorem Json.Plain.readable {value : Json} (plain : value.Plain) : value.Readable := by
  induction plain with
  | string text => exact .string text
  | object _ _ ih => exact .object ih

theorem Shape.WellFormed.plain_toJson {shape : Shape} (wellFormed : shape.WellFormed) :
    shape.toJson.Plain := by
  induction wellFormed with
  | scalar kind => exact .string kind.name
  | own => exact .string "in-module"
  | @table fields distinct inner ih =>
      rw [toJson, membersOf_eq_map]
      refine .object ?_ ?_
      · rw [List.map_map]
        exact distinct
      · intro member written
        obtain ⟨field, listed, rfl⟩ := List.mem_map.mp written
        exact ih field listed

/-- What is printed is read back in order. -/
theorem Json.read?_render {value : Json} (plain : value.Plain) (shallow : value.depth ≤ depthLimit) :
    read? value.render = some value.ordered := by
  rw [read?, parse?_render plain.readable shallow, Option.map_some]

/-- Whatever writes strings and objects to some depth and reads them back with their members in order
keeps tables of this depth without own names: the text of such a table is a document, and the catalog
that it holds is the table with the fields at every depth in ascending order of the bytes of their
names. -/
theorem Catalog.ofDocument_write {write : Json → String} {read? : String → Option Json} {limit : Nat}
    (readsBack : ∀ value : Json, value.Plain → value.depth ≤ limit →
      read? (write value) = some value.ordered)
    {fields : Fields Shape} (wellFormed : (Shape.table fields).WellFormed)
    (explicit : (Shape.table fields).Explicit) (shallow : (Shape.table fields).depth ≤ limit) :
    ∃ sorted, ofDocument read? (write (Shape.table fields).toJson) = .ok ⟨sorted⟩ ∧
      (Shape.table fields).Reordered (.table sorted) ∧ (Shape.table sorted).Ascending := by
  have read := readsBack _ wellFormed.plain_toJson ((Shape.depth_toJson _).trans_le shallow)
  have reordered := Shape.reordered_ofJson_ordered explicit wellFormed
  have ascending := Shape.ascending_ofJson_ordered wellFormed
  rw [Shape.ofJson_ordered_table] at reordered ascending
  refine ⟨Shape.fieldsOf (Shape.sortedMembers fields), ?_, reordered, ascending⟩
  rw [Shape.toJson, Json.ordered] at read
  rw [ofDocument, Shape.toJson, read, ← Shape.ofList_fieldsOf (Shape.ascending_sortedMembers fields)]
  rfl

/-- The fields of a library whose names hold a letter outside ASCII and a quote. -/
def oddLibrary : Fields Shape := [("é", .scalar .function), ("\"", .scalar .userdata)]

/-- Names with a dot and a line break. -/
def oddTable : Fields Shape :=
  [("socket.http", .table oddLibrary), ("\n", .table []), ("A", .scalar .any)]

/-- The same table with its fields in order. -/
def sortedOddTable : Fields Shape :=
  [("\n", .table []), ("A", .scalar .any),
    ("socket.http", .table [("\"", .scalar .userdata), ("é", .scalar .function)])]

theorem ofDocument_write_oddTable :
    (∀ value : Json, value.Plain → value.depth ≤ Json.depthLimit →
      Json.read? value.render = some value.ordered) ∧
      (Shape.table oddTable).WellFormed ∧ (Shape.table oddTable).Explicit ∧
      (Shape.table oddTable).depth = 2 ∧
      Catalog.ofJsonText
          "\x7b\"socket.http\":\x7b\"é\":\"function\",\"\\\"\":\"userdata\"\x7d,\"\\n\":\x7b\x7d,\"A\":\"any\"\x7d" =
          .ok ⟨sortedOddTable⟩ ∧
        (Shape.table oddTable).Reordered (.table sortedOddTable) ∧
        (Shape.table sortedOddTable).Ascending := by
  have library : (Shape.table oddLibrary).WellFormed :=
    .table (by unfold Fields.Distinct; decide) (by simp [oddLibrary, Shape.WellFormed.scalar])
  have wellFormed : (Shape.table oddTable).WellFormed :=
    .table (by unfold Fields.Distinct; decide)
      (by simp [oddTable, library, Shape.WellFormed.scalar, Shape.WellFormed.nil])
  have plainLibrary : (Shape.table oddLibrary).Explicit :=
    .table (by simp [oddLibrary, Shape.Explicit.scalar])
  have nothing : (Shape.table []).Explicit := .table (by simp)
  have explicit : (Shape.table oddTable).Explicit :=
    .table (by simp [oddTable, plainLibrary, nothing, Shape.Explicit.scalar])
  have ownReader : ∀ value : Json, value.Plain → value.depth ≤ Json.depthLimit →
      Json.read? value.render = some value.ordered := fun _ plain shallow =>
    Json.read?_render plain shallow
  obtain ⟨sorted, read, reordered, ascending⟩ :=
    Catalog.ofDocument_write ownReader wellFormed explicit (by decide)
  have members : Json.read? (Shape.table oddTable).toJson.render =
      some (.object (Shape.membersOf sortedOddTable)) :=
    ownReader _ wellFormed.plain_toJson (by decide)
  have evaluated : Catalog.ofDocument Json.read? (Shape.table oddTable).toJson.render =
      .ok ⟨sortedOddTable⟩ := by
    rw [Catalog.ofDocument, members]
    simp [sortedOddTable, Shape.membersOf, Shape.toJson, Shape.fieldsOf, Shape.ofJson,
      Shape.ofTypeName_name, Fields.ofList, Fields.put]
  cases evaluated.symm.trans read
  exact ⟨ownReader, wellFormed, explicit, rfl, evaluated, reordered, ascending⟩

end GlobalAudit
