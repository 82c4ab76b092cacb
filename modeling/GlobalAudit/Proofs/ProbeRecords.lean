import GlobalAudit.Module.Probe
import GlobalAudit.Proofs.NameList
import GlobalAudit.Proofs.Text
import Mathlib.Data.List.Induction
import Mathlib.Data.List.Nodup

/-! Records of an exported tree. A tree is printed with one record for each of its nodes, every table
before its fields, and is read back from them with the fields of each table in the order of their
records. Records of new globals in between are collected in order, and lines with another tag change
nothing. -/
namespace GlobalAudit

theorem Shape.SameKind.trans_symm {first second third : Option Shape}
    (left : SameKind first second) (right : SameKind third second) : SameKind first third := by
  cases left with
  | absent =>
      cases right
      exact .absent
  | table =>
      cases right with
      | table => exact .table _ _
      | equal => exact .table _ _
  | equal shape =>
      cases right with
      | table => exact .table _ _
      | equal => exact .equal _

namespace Probe

/-! ## Trees -/

/-- What a module exports: tables of named fields, with names of types at the leaves. -/
inductive Export where
  | leaf (type : String)
  | table (fields : List (String × Export))

namespace Export

/-- The type in the record of a node. -/
def typeName : Export → String
  | leaf type => type
  | table _ => "table"

mutual

def shape : Export → Shape
  | leaf type => .ofTypeName type
  | table fields => .table (shapes fields)

def shapes : List (String × Export) → Fields Shape
  | [] => []
  | (name, field) :: rest => (name, field.shape) :: shapes rest

end

/-- A path leads from a tree to one of its nodes. -/
inductive At : Export → List String → Export → Prop where
  | here (tree : Export) : At tree [] tree
  | field {fields : List (String × Export)} {name : String} {inner node : Export}
      {path : List String} (member : (name, inner) ∈ fields) (deeper : At inner path node) :
      At (.table fields) (name :: path) node

/-- No table has a field twice, and neither names nor types break a record apart. -/
inductive Printable : Export → Prop where
  | leaf {type : String}
      (plain : '\t' ∉ type.toList ∧ '\n' ∉ type.toList ∧ '\r' ∉ type.toList) :
      Printable (.leaf type)
  | table {fields : List (String × Export)} (distinct : Fields.Distinct fields)
      (plain : ∀ entry ∈ fields,
        '.' ∉ entry.1.toList ∧ '\t' ∉ entry.1.toList ∧ '\n' ∉ entry.1.toList)
      (inner : ∀ entry ∈ fields, Printable entry.2) : Printable (.table fields)

theorem shapes_eq_map (fields : List (String × Export)) :
    shapes fields = fields.map fun entry => (entry.1, entry.2.shape) := by
  induction fields with
  | nil => rfl
  | cons entry rest ih => exact congrArg (_ :: ·) ih

theorem names_shapes (fields : List (String × Export)) :
    Fields.names (shapes fields) = Fields.names fields := by
  rw [shapes_eq_map, Fields.names, Fields.names, List.map_map]
  rfl

theorem sameKind_shape (node : Export) :
    Shape.SameKind (some node.shape) (some (.ofTypeName node.typeName)) := by
  cases node with
  | leaf type => exact .equal _
  | table fields => exact .table _ _

theorem Printable.wellFormed_shape {tree : Export} (printable : tree.Printable) :
    tree.shape.WellFormed := by
  induction printable with
  | @leaf type plain => exact Shape.wellFormed_ofTypeName type
  | @table fields distinct plain inner ih =>
      refine .table ?_ ?_
      · rwa [Fields.Distinct, names_shapes]
      · intro entry member
        rw [shapes_eq_map] at member
        obtain ⟨field, listed, rfl⟩ := List.mem_map.mp member
        exact ih field listed

variable {tree node : Export} {path : List String}

/-- What a path goes on from is a table. -/
theorem At.above {front rest : List String} {next : String}
    (leads : tree.At (front ++ next :: rest) node) : ∃ fields, tree.At front (.table fields) := by
  induction front generalizing tree with
  | nil =>
      cases leads with
      | @field fields _ _ _ _ member deeper => exact ⟨fields, .here _⟩
  | cons name front ih =>
      cases leads with
      | field member deeper =>
          obtain ⟨fields, found⟩ := ih deeper
          exact ⟨fields, .field member found⟩

theorem At.printable (leads : tree.At path node) (printable : tree.Printable) : node.Printable := by
  induction leads with
  | here tree => exact printable
  | field member deeper ih =>
      cases printable with
      | table distinct plain inner => exact ih (inner _ member)

theorem Printable.plain_typeName (printable : node.Printable) :
    '\t' ∉ node.typeName.toList ∧ '\n' ∉ node.typeName.toList ∧ '\r' ∉ node.typeName.toList := by
  cases printable with
  | leaf plain => exact plain
  | table distinct plain inner =>
      change '\t' ∉ "table".toList ∧ '\n' ∉ "table".toList ∧ '\r' ∉ "table".toList
      decide

theorem At.plain (leads : tree.At path node) (printable : tree.Printable) :
    ∀ name ∈ path, '.' ∉ name.toList ∧ '\t' ∉ name.toList ∧ '\n' ∉ name.toList := by
  induction leads with
  | here tree => exact fun _ member => absurd member List.not_mem_nil
  | field member deeper ih =>
      cases printable with
      | table distinct plain inner =>
          exact List.forall_mem_cons.mpr ⟨plain _ member, ih (inner _ member)⟩

theorem At.follow? (leads : tree.At path node) (printable : tree.Printable) :
    tree.shape.follow? path = some node.shape := by
  induction leads with
  | here tree => rfl
  | @field fields name inner node path member deeper ih =>
      cases printable with
      | table distinct plain inside =>
          have listed : (name, inner.shape) ∈ shapes fields := by
            rw [shapes_eq_map]
            exact List.mem_map_of_mem member
          have distinctShapes : Fields.Distinct (shapes fields) := by
            rwa [Fields.Distinct, names_shapes]
          rw [shape, Shape.follow?, Shape.field?,
            Fields.get?_eq_some_of_mem distinctShapes listed, Option.bind_some]
          exact ih (inside _ member)

theorem exists_at_of_follow? {found : Shape} (reached : tree.shape.follow? path = some found) :
    ∃ node, tree.At path node := by
  induction path generalizing tree with
  | nil => exact ⟨tree, .here tree⟩
  | cons name path ih =>
      rw [Shape.follow?] at reached
      obtain ⟨inner, field, deeper⟩ := Option.bind_eq_some_iff.mp reached
      cases tree with
      | leaf type =>
          rw [shape, Shape.ofTypeName] at field
          split at field <;> cases field
      | table fields =>
          have listed := Fields.mem_of_get?_eq_some field
          rw [shapes_eq_map] at listed
          obtain ⟨entry, member, same⟩ := List.mem_map.mp listed
          cases same
          obtain ⟨node, found⟩ := ih deeper
          exact ⟨node, .field member found⟩

end Export

/-! ## Orders of nodes -/

/-- A node as it is printed: the path to it and its type. -/
structure Node where
  path : List String
  type : String

/-- The names of the fields of a table, in the order of their nodes. -/
def fieldsIn (path : List String) (nodes : List Node) : List String :=
  nodes.filterMap fun node => if node.path.dropLast = path then node.path.getLast? else none

theorem mem_fieldsIn {path : List String} {nodes : List Node} {name : String} :
    name ∈ fieldsIn path nodes ↔ ∃ node ∈ nodes, node.path = path ++ [name] := by
  rw [fieldsIn, List.mem_filterMap]
  refine exists_congr fun node => and_congr_right fun _ => ?_
  constructor
  · intro last
    split at last
    · next parent =>
        obtain ⟨front, split⟩ := List.getLast?_eq_some_iff.mp last
        rw [split, List.dropLast_concat] at parent
        rw [split, parent]
    · cases last
  · intro split
    rw [split, List.dropLast_concat, if_pos rfl, List.getLast?_concat]

theorem fieldsIn_concat (path : List String) (nodes : List Node) (above : List String)
    (name type : String) :
    fieldsIn path (nodes ++ [⟨above ++ [name], type⟩]) =
      if above = path then fieldsIn path nodes ++ [name] else fieldsIn path nodes := by
  rw [fieldsIn, List.filterMap_append, ← fieldsIn]
  by_cases same : above = path
  · simp [same]
  · simp [same]

/-- Every node of a tree but its root is listed once, and none behind one of its fields. -/
structure Export.Lists (tree : Export) (nodes : List Node) : Prop where
  each : ∀ path type, ⟨path, type⟩ ∈ nodes ↔
    path ≠ [] ∧ ∃ node, tree.At path node ∧ node.typeName = type
  once : (nodes.map Node.path).Nodup
  tableFirst : nodes.Pairwise fun first second => first.path.dropLast ≠ second.path

/-- A node may stand behind others: these have the tables that it is in, and nothing of what is below
it. -/
structure Node.Follows (nodes : List Node) (node : Node) : Prop where
  proper : node.path ≠ []
  fresh : ∀ old ∈ nodes, ¬ node.path <+: old.path
  above : ∀ front next rest, node.path = front ++ next :: rest → rest ≠ [] →
    ∃ old ∈ nodes, old.path = front ++ [next]
  tables : ∀ old ∈ nodes, old.path <+: node.path → old.type = "table"

namespace Node.Follows

variable {nodes : List Node} {node : Node}

theorem fieldsIn_below (follows : node.Follows nodes) (rest : List String) :
    fieldsIn (node.path ++ rest) nodes = [] := by
  rw [List.eq_nil_iff_forall_not_mem]
  intro label member
  obtain ⟨old, listed, split⟩ := Probe.mem_fieldsIn.mp member
  exact follows.fresh old listed ⟨rest ++ [label], by rw [split, List.append_assoc]⟩

theorem not_mem_fieldsIn (follows : node.Follows nodes) {above : List String} {name : String}
    (ends : node.path = above ++ [name]) : name ∉ fieldsIn above nodes := by
  intro member
  obtain ⟨old, listed, same⟩ := Probe.mem_fieldsIn.mp member
  exact follows.fresh old listed ((ends.trans same.symm) ▸ List.prefix_rfl)

theorem mem_fieldsIn (follows : node.Follows nodes) {front rest : List String} {next : String}
    (split : node.path = front ++ next :: rest) (longer : rest ≠ []) :
    next ∈ fieldsIn front nodes :=
  Probe.mem_fieldsIn.mpr (follows.above front next rest split longer)

end Node.Follows

namespace Export.Lists

variable {tree : Export} {nodes early late : List Node}

theorem exists_at (lists : tree.Lists nodes) {node : Node} (member : node ∈ nodes) :
    node.path ≠ [] ∧ ∃ inner, tree.At node.path inner ∧ inner.typeName = node.type :=
  (lists.each node.path node.type).mp member

theorem mem_of_above (lists : tree.Lists nodes) {node : Node} (member : node ∈ nodes)
    {front rest : List String} {next : String} (split : node.path = front ++ next :: rest)
    (proper : front ≠ []) : ⟨front, "table"⟩ ∈ nodes := by
  obtain ⟨_, inner, found, _⟩ := lists.exists_at member
  rw [split] at found
  obtain ⟨fields, above⟩ := found.above
  exact (lists.each front "table").mpr ⟨proper, .table fields, above, rfl⟩

/-- The nodes listed up to some point have the tables that they are in among them. -/
theorem exists_above (lists : tree.Lists (early ++ late)) {node : Node} (member : node ∈ early)
    {front rest : List String} {next : String} (split : node.path = front ++ next :: rest) :
    ∃ old ∈ early, old.path = front ++ [next] := by
  induction rest using List.reverseRecOn generalizing node with
  | nil => exact ⟨node, member, split⟩
  | append_singleton rest last ih =>
      have level : node.path = (front ++ next :: rest) ++ last :: [] := by
        rw [split]
        simp
      have listed := lists.mem_of_above (List.mem_append_left late member) level (by simp)
      rcases List.mem_append.mp listed with before | behind
      · exact ih before rfl
      · have apart := (List.pairwise_append.mp lists.tableFirst).2.2 node member _ behind
        exact absurd (by rw [level, List.dropLast_concat]) apart

theorem eq_of_path (lists : tree.Lists nodes) {first second : Node} (firstMem : first ∈ nodes)
    (secondMem : second ∈ nodes) (same : first.path = second.path) : first = second :=
  List.inj_on_of_nodup_map lists.once firstMem secondMem same

theorem follows {node : Node} (lists : tree.Lists (early ++ node :: late)) :
    node.Follows early := by
  have here : node ∈ early ++ node :: late := List.mem_append_right _ List.mem_cons_self
  have absent : ∀ old ∈ early, old.path ≠ node.path := by
    intro old member same
    have once := lists.once
    rw [List.map_append, List.map_cons] at once
    exact (List.nodup_append.mp once).2.2 _ (List.mem_map_of_mem member) _ List.mem_cons_self same
  have proper := (lists.exists_at here).1
  refine ⟨proper, ?_, ?_, ?_⟩
  · rintro old member ⟨rest, split⟩
    obtain ⟨front, last, ends⟩ := (List.eq_nil_or_concat node.path).resolve_left proper
    have level : old.path = front ++ last :: rest := by
      rw [← split, ends]
      simp
    obtain ⟨same, listed, path⟩ := lists.exists_above member level
    exact absent same listed (by rw [path, ends, List.concat_eq_append])
  · intro front next rest split longer
    have whole : tree.Lists ((early ++ [node]) ++ late) := by
      rwa [List.append_assoc, List.singleton_append]
    obtain ⟨old, listed, path⟩ :=
      whole.exists_above (List.mem_append_right _ List.mem_cons_self) split
    rcases List.mem_append.mp listed with before | last
    · exact ⟨old, before, path⟩
    · rw [List.mem_singleton.mp last, split] at path
      exact absurd (by simpa using path) longer
  · rintro old member ⟨rest, split⟩
    have listed : old ∈ early ++ node :: late := List.mem_append_left _ member
    cases rest with
    | nil => exact absurd (by simpa using split) (absent old member)
    | cons next rest =>
        have table := lists.mem_of_above here split.symm (lists.exists_at listed).1
        exact congrArg Node.type (lists.eq_of_path listed table rfl)

end Export.Lists

/-! ## Fields grown from nodes -/

def Node.putIn (fields : Fields Shape) (node : Node) : Fields Shape :=
  Shape.putAt (.ofTypeName node.type) node.path fields

/-- Fields that hold what a list of nodes says, each table in the order of the list. -/
structure Grown (nodes : List Node) (fields : Fields Shape) : Prop where
  wellFormed : (Shape.table fields).WellFormed
  order : ∀ path, Fields.names ((Shape.table fields).fieldsAt path) = fieldsIn path nodes
  types : ∀ node ∈ nodes,
    Shape.SameKind ((Shape.table fields).follow? node.path) (some (.ofTypeName node.type))

namespace Grown

theorem nil : Grown [] [] := by
  refine ⟨.nil, ?_, fun _ member => absurd member List.not_mem_nil⟩
  intro path
  cases path <;> rfl

/-- A type has no fields of its own. -/
theorem fieldsAt_ofTypeName (type : String) (path : List String) :
    (Shape.ofTypeName type).fieldsAt path = [] := by
  rw [Shape.ofTypeName]
  split <;> cases path <;> rfl

variable {nodes : List Node} {fields : Fields Shape}

theorem names_putIn (grown : Grown nodes fields) {above : List String} {name type : String}
    (follows : Node.Follows nodes ⟨above ++ [name], type⟩) (path : List String) :
    Fields.names ((Shape.table (Node.putIn fields ⟨above ++ [name], type⟩)).fieldsAt path) =
      fieldsIn path (nodes ++ [⟨above ++ [name], type⟩]) := by
  rw [fieldsIn_concat, Node.putIn]
  by_cases inside : above ++ [name] <+: path
  · -- At the node and below it there is nothing before, and a type brings no fields.
    obtain ⟨rest, rfl⟩ := inside
    have elsewhere : above ≠ above ++ [name] ++ rest := by
      intro same
      simpa using congrArg List.length same
    rw [if_neg elsewhere, follows.fieldsIn_below rest, Shape.fieldsAt,
      Shape.follow?_putAt_below _ follows.proper, ← Shape.fieldsAt, fieldsAt_ofTypeName]
    rfl
  by_cases outside : path <+: above ++ [name]
  · obtain ⟨rest, split⟩ := outside
    cases rest with
    | nil => exact absurd ⟨[], by simpa using split.symm⟩ inside
    | cons next rest =>
        rw [← split, Shape.names_putAt_above, grown.order]
        by_cases last : rest = []
        · -- The table of the node gets its name, which it did not have.
          subst last
          obtain ⟨rfl, same⟩ := List.append_inj' split rfl
          cases same
          rw [if_neg (follows.not_mem_fieldsIn rfl), if_pos rfl]
        · -- A table further up has the next name on the path already.
          have elsewhere : above ≠ path := by
            rintro rfl
            exact last (List.cons.inj (List.append_cancel_left split)).2
          rw [if_pos (follows.mem_fieldsIn split.symm last), if_neg elsewhere]
  · have elsewhere : above ≠ path := by
      rintro rfl
      exact outside (List.prefix_append _ _)
    rw [if_neg elsewhere, Shape.fieldsAt, Shape.follow?_putAt_of_fork _ inside outside,
      ← Shape.fieldsAt, grown.order]

theorem types_putIn (grown : Grown nodes fields) {node : Node} (follows : node.Follows nodes) :
    ∀ old ∈ nodes ++ [node], Shape.SameKind ((Shape.table (node.putIn fields)).follow? old.path)
      (some (.ofTypeName old.type)) := by
  intro old member
  rcases List.mem_append.mp member with listed | last
  · have inside := follows.fresh old listed
    by_cases outside : old.path <+: node.path
    · obtain ⟨rest, split⟩ := id outside
      cases rest with
      | nil => exact absurd ⟨[], by simpa using split.symm⟩ inside
      | cons next rest =>
          rw [follows.tables old listed outside, Node.putIn, ← split, Shape.follow?_putAt_above]
          exact .table _ _
    · rw [Node.putIn, Shape.follow?_putAt_of_fork _ inside outside]
      exact grown.types old listed
  · rw [List.mem_singleton.mp last]
    have reached := Shape.follow?_putAt_below (.ofTypeName node.type) follows.proper [] fields
    rw [List.append_nil] at reached
    rw [Node.putIn, reached]
    exact .equal _

theorem putIn (grown : Grown nodes fields) {node : Node} (follows : node.Follows nodes) :
    Grown (nodes ++ [node]) (node.putIn fields) := by
  refine ⟨.putAt (Shape.wellFormed_ofTypeName _) _ grown.wellFormed, ?_, grown.types_putIn follows⟩
  obtain ⟨path, type⟩ := node
  obtain ⟨above, name, rfl⟩ := (List.eq_nil_or_concat path).resolve_left follows.proper
  rw [List.concat_eq_append] at follows ⊢
  exact grown.names_putIn follows

theorem foldl_putIn {tree : Export} {early late : List Node} (lists : tree.Lists (early ++ late))
    (grown : Grown early fields) : Grown (early ++ late) (late.foldl Node.putIn fields) := by
  induction late generalizing early fields with
  | nil => rwa [List.append_nil]
  | cons node late ih =>
      have whole : tree.Lists ((early ++ [node]) ++ late) := by
        rwa [List.append_assoc, List.singleton_append]
      have result := ih whole (grown.putIn lists.follows)
      rwa [List.append_assoc, List.singleton_append] at result

/-- What is grown from all nodes of a tree is the tree, up to the order of fields. -/
theorem reordered {inside : List (String × Export)} (grown : Grown nodes fields)
    (printable : (Export.table inside).Printable) (lists : (Export.table inside).Lists nodes) :
    Shape.Reordered (.table fields) (Export.table inside).shape := by
  refine Shape.reordered_of_sameKind grown.wellFormed printable.wellFormed_shape ?_
  intro path
  rcases List.eq_nil_or_concat path with rfl | ⟨above, name, rfl⟩
  · exact .table _ _
  rw [List.concat_eq_append]
  by_cases listed : ∃ node ∈ nodes, node.path = above ++ [name]
  · obtain ⟨⟨_, type⟩, member, rfl⟩ := listed
    obtain ⟨_, node, found, typed⟩ := lists.exists_at member
    have kind := node.sameKind_shape
    rw [typed, ← found.follow? printable] at kind
    exact (grown.types _ member).trans_symm kind
  · have lost : (Shape.table fields).follow? (above ++ [name]) = none := by
      rw [Shape.follow?_append_cons, Shape.follow?, Shape.field?,
        (Fields.get?_eq_none_iff name _).mpr]
      · rfl
      · rwa [grown.order, mem_fieldsIn]
    have missing : (Export.table inside).shape.follow? (above ++ [name]) = none := by
      rw [Option.eq_none_iff_forall_ne_some]
      intro found reached
      obtain ⟨node, leads⟩ := Export.exists_at_of_follow? reached
      exact listed ⟨⟨above ++ [name], node.typeName⟩,
        (lists.each _ _).mpr ⟨by simp, node, leads, rfl⟩, rfl⟩
    rw [lost, missing]
    exact .absent

end Grown

/-! ## Records -/

/-- A line that is printed about a loaded module. -/
inductive Record where
  | field (node : Node)
  | appeared (name flag : String)
  | foreign (text : String)

namespace Record

def text : Record → String
  | field node => "\t".intercalate ["F", ".".intercalate node.path, node.type]
  | appeared name flag => "\t".intercalate ["G", name, flag]
  | foreign text => text

/-- The parts of the record. -/
def line : Record → Line
  | field node => .field (".".intercalate node.path) node.type
  | appeared name flag => .newGlobal name flag
  | foreign _ => .other

def node? : Record → Option Node
  | field node => some node
  | appeared _ _ => none
  | foreign _ => none

def newGlobal? : Record → Option NewGlobal
  | field _ => none
  | appeared name flag => some ⟨name, flag == "1"⟩
  | foreign _ => none

/-- What stands before the first tab. -/
def tag (text : String) : String := String.ofList (text.toList.takeWhile (· ≠ '\t'))

/-- A record that is not of a node keeps to its line. The name and the flag of a global keep to their
places in it, and the tag of a foreign line is none of those that are read. -/
def Legible : Record → Prop
  | field _ => True
  | appeared name flag => ('\t' ∉ name.toList ∧ '\n' ∉ name.toList) ∧
      '\t' ∉ flag.toList ∧ '\n' ∉ flag.toList ∧ flag.toList.getLast? ≠ some '\r'
  | foreign text => '\n' ∉ text.toList ∧ tag text ∉ ["E", "F", "G", "V"]

/-- The record is on one line from which its parts are read, and the path of a node is read from the
part for it. -/
structure Readable (record : Record) : Prop where
  single : '\n' ∉ record.text.toList
  parts : lineOf (Text.dropReturn record.text.toList) = record.line
  path : ∀ node, record.node? = some node →
    Dotted.segments (".".intercalate node.path) = node.path

end Record

theorem not_mem_joined {c : Char} {between : String} {parts : List String}
    (other : c ∉ between.toList) (absent : ∀ part ∈ parts, c ∉ part.toList) :
    c ∉ (between.intercalate parts).toList := by
  induction parts with
  | nil => simp
  | cons first rest ih =>
      obtain ⟨absentFirst, absentRest⟩ := List.forall_mem_cons.mp absent
      cases rest with
      | nil => rwa [String.intercalate_singleton]
      | cons second rest =>
          rw [String.intercalate_cons_cons, String.toList_append, String.toList_append,
            List.mem_append, List.mem_append]
          rintro ((inFirst | inBetween) | inRest)
          · exact absentFirst inFirst
          · exact other inBetween
          · exact ih absentRest inRest

/-- Three parts are read back from their line, if the last does not lose a carriage return. -/
theorem pieces_joined {first second third : String}
    (plainFirst : '\t' ∉ first.toList ∧ '\n' ∉ first.toList)
    (plainSecond : '\t' ∉ second.toList ∧ '\n' ∉ second.toList)
    (plainThird : '\t' ∉ third.toList ∧ '\n' ∉ third.toList)
    (kept : third.toList.getLast? ≠ some '\r') :
    '\n' ∉ ("\t".intercalate [first, second, third]).toList ∧
      ((Text.dropReturn ("\t".intercalate [first, second, third]).toList).splitOn '\t').map
        String.ofList = [first, second, third] := by
  have chars : ("\t".intercalate [first, second, third]).toList =
      first.toList ++ '\t' :: (second.toList ++ '\t' :: third.toList) := by
    simp [String.intercalate_cons_cons]
  have whole : (first.toList ++ '\t' :: (second.toList ++ '\t' :: third.toList)).getLast? ≠
      some '\r' := by
    rw [← List.cons_append, ← List.append_assoc, List.getLast?_append, List.getLast?_cons,
      Option.some_or]
    cases final : third.toList.getLast? with
    | none => decide
    | some c => rwa [final] at kept
  refine ⟨?_, ?_⟩
  · rw [chars]
    simp [plainFirst.2, plainSecond.2, plainThird.2]
  · rw [chars, Text.dropReturn, if_neg whole, Text.splitOn_append_cons plainFirst.1,
      Text.splitOn_append_cons plainSecond.1, Text.splitOn_of_not_mem plainThird.1]
    simp

theorem lineOf_of_single {text piece : List Char} (pieces : text.splitOn '\t' = [piece]) :
    lineOf text = .other := by
  simp [lineOf, pieces]

theorem lineOf_of_foreign {text first : List Char} {rest : List (List Char)}
    (pieces : text.splitOn '\t' = first :: rest)
    (unread : String.ofList first ∉ ["E", "F", "G", "V"]) : lineOf text = .other := by
  rw [lineOf, pieces, List.map_cons]
  generalize String.ofList first = tag at unread
  split
  all_goals first
    | rfl
    | next read => exact absurd (List.cons.inj read).1 (by rintro rfl; simp at unread)

namespace Record

theorem readable_field {node : Node} (proper : node.path ≠ [])
    (path : ∀ name ∈ node.path, '.' ∉ name.toList ∧ '\t' ∉ name.toList ∧ '\n' ∉ name.toList)
    (type : '\t' ∉ node.type.toList ∧ '\n' ∉ node.type.toList ∧ '\r' ∉ node.type.toList) :
    (field node).Readable := by
  have noTab : '\t' ∉ (".".intercalate node.path).toList :=
    not_mem_joined (by decide) fun name member => (path name member).2.1
  have noFeed : '\n' ∉ (".".intercalate node.path).toList :=
    not_mem_joined (by decide) fun name member => (path name member).2.2
  have kept : node.type.toList.getLast? ≠ some '\r' :=
    fun last => type.2.2 (List.mem_of_getLast? last)
  have tag : '\t' ∉ "F".toList ∧ '\n' ∉ "F".toList := by decide
  obtain ⟨single, pieces⟩ := pieces_joined tag ⟨noTab, noFeed⟩ ⟨type.1, type.2.1⟩ kept
  refine ⟨single, ?_, ?_⟩
  · rw [lineOf, text, pieces]
    rfl
  · intro same found
    cases found
    refine Dotted.segments_intercalate proper fun name member => ?_
    exact (Dotted.isDotted_eq_false_iff name).mpr (path name member).1

theorem readable_appeared {name flag : String} (legible : (appeared name flag).Legible) :
    (appeared name flag).Readable := by
  obtain ⟨plainName, noTab, noFeed, kept⟩ := legible
  have tag : '\t' ∉ "G".toList ∧ '\n' ∉ "G".toList := by decide
  obtain ⟨single, pieces⟩ := pieces_joined tag plainName ⟨noTab, noFeed⟩ kept
  refine ⟨single, ?_, fun _ found => nomatch found⟩
  rw [lineOf, text, pieces]
  rfl

/-- A foreign line may lose a carriage return at its end, but not its tag. -/
theorem readable_foreign {text : String} (legible : (foreign text).Legible) :
    (foreign text).Readable := by
  obtain ⟨single, unread⟩ := legible
  refine ⟨single, ?_, fun _ found => nomatch found⟩
  change lineOf (Text.dropReturn text.toList) = .other
  rw [tag] at unread
  have whole : text.toList.takeWhile (· ≠ '\t') ++ text.toList.dropWhile (· ≠ '\t') =
      text.toList := List.takeWhile_append_dropWhile
  have plain : '\t' ∉ text.toList.takeWhile (· ≠ '\t') :=
    fun member => by simpa using List.mem_takeWhile_imp member
  generalize text.toList.takeWhile (· ≠ '\t') = first at whole plain unread
  cases behind : text.toList.dropWhile (· ≠ '\t') with
  | nil =>
      rw [behind, List.append_nil] at whole
      have absent : '\t' ∉ Text.dropReturn text.toList :=
        Text.not_mem_dropReturn (whole ▸ plain)
      exact lineOf_of_single (Text.splitOn_of_not_mem absent)
  | cons c rest =>
      have mark : c = '\t' := by
        have stop := List.head?_dropWhile_not (· ≠ '\t') text.toList
        rw [behind] at stop
        simpa using stop
      rw [behind, mark] at whole
      have kept : ∃ rest, Text.dropReturn text.toList = first ++ '\t' :: rest := by
        rw [← whole, Text.dropReturn_append _ (List.cons_ne_nil _ _)]
        cases rest with
        | nil => exact ⟨[], rfl⟩
        | cons d rest => exact ⟨_, congrArg (first ++ ·)
            (Text.dropReturn_append ['\t'] (List.cons_ne_nil d rest))⟩
      obtain ⟨rest, kept⟩ := kept
      have pieces : (Text.dropReturn text.toList).splitOn '\t' = first :: rest.splitOn '\t' := by
        rw [kept, Text.splitOn_append_cons plain]
      exact lineOf_of_foreign pieces unread

/-- One record after the other: nodes are put in, and globals are added behind. -/
theorem foldlM_addLine (required : String) {records : List Record}
    (readable : ∀ record ∈ records, record.Readable)
    (fields : Fields Shape) (globals : List NewGlobal) :
    (records.map line).foldlM (addLine required) ⟨.table fields, globals⟩ =
      .ok ⟨.table ((records.filterMap node?).foldl Node.putIn fields),
        globals ++ records.filterMap newGlobal?⟩ := by
  induction records generalizing fields globals with
  | nil =>
      simp only [List.filterMap_nil, List.append_nil]
      rfl
  | cons record rest ih =>
      obtain ⟨first, others⟩ := List.forall_mem_cons.mp readable
      have later := ih others
      rw [List.map_cons, List.foldlM_cons]
      cases record with
      | field node =>
          change List.foldlM _ (⟨.table (Shape.putAt _ (Dotted.segments _) fields), globals⟩ :
            LoadedModule) _ = _
          rw [first.path node rfl, later]
          rfl
      | appeared name flag =>
          change List.foldlM _ (⟨.table fields, globals ++ [⟨name, flag == "1"⟩]⟩ :
            LoadedModule) _ = _
          rw [later, List.append_assoc]
          rfl
      | foreign text => exact later fields globals

theorem decode_text (required : String) {records : List Record}
    (readable : ∀ record ∈ records, record.Readable) :
    decode required (Text.unlines (records.map text)) =
      .ok ⟨.table ((records.filterMap node?).foldl Node.putIn []),
        records.filterMap newGlobal?⟩ := by
  have lines : (Text.lines (Text.unlines (records.map text)).toList).map lineOf =
      records.map line := by
    rw [Text.lines_unlines, List.map_map, List.map_map]
    · exact List.map_congr_left fun record member => (readable record member).parts
    · intro printed member
      obtain ⟨record, listed, rfl⟩ := List.mem_map.mp member
      exact (readable record listed).single
  rw [decode, lines, foldlM_addLine required readable, List.nil_append]

end Record

/-- The records of all nodes of a tree, with others between them, give the tree back. The fields of
each table are in the order of their records, and the globals are those of the other records in
order. The nodes alone give the same exports. -/
theorem decode_printed (required : String) {fields : List (String × Export)}
    {records : List Record} (printable : (Export.table fields).Printable)
    (lists : (Export.table fields).Lists (records.filterMap Record.node?))
    (legible : ∀ record ∈ records, record.Legible) :
    ∃ exports, decode required (Text.unlines (records.map Record.text)) =
        .ok ⟨.table exports, records.filterMap Record.newGlobal?⟩ ∧
      Shape.Reordered (.table exports) (Export.table fields).shape ∧
      (∀ path, Fields.names ((Shape.table exports).fieldsAt path) =
        fieldsIn path (records.filterMap Record.node?)) ∧
      decode required (Text.unlines
          ((records.filterMap Record.node?).map fun node => (Record.field node).text)) =
        .ok ⟨.table exports, []⟩ := by
  have grown : Grown (records.filterMap Record.node?)
      ((records.filterMap Record.node?).foldl Node.putIn []) := Grown.nil.foldl_putIn lists
  have readable : ∀ node ∈ records.filterMap Record.node?, (Record.field node).Readable := by
    intro node member
    obtain ⟨proper, inner, found, typed⟩ := lists.exists_at member
    exact Record.readable_field proper (found.plain printable)
      (typed ▸ (found.printable printable).plain_typeName)
  refine ⟨_, Record.decode_text required ?_, grown.reordered printable lists, grown.order, ?_⟩
  · intro record member
    cases record with
    | field node => exact readable node (List.mem_filterMap.mpr ⟨_, member, rfl⟩)
    | appeared name flag => exact Record.readable_appeared (legible _ member)
    | foreign text => exact Record.readable_foreign (legible _ member)
  · generalize records.filterMap Record.node? = nodes at readable
    have alone : (nodes.map Record.field).filterMap Record.node? = nodes ∧
        (nodes.map Record.field).filterMap Record.newGlobal? = [] := by
      rw [List.filterMap_map, List.filterMap_map]
      exact ⟨List.filterMap_some, List.filterMap_eq_nil_iff.mpr fun _ _ => rfl⟩
    have decoded := Record.decode_text required (List.forall_mem_map.mpr readable)
    rwa [alone.1, alone.2, List.map_map] at decoded

/-- Settings of a server. -/
def settings : List (String × Export) := [("port", .leaf "number"), ("log", .leaf "logger")]

/-- A server with its settings and an empty table. -/
def serverFields : List (String × Export) :=
  [("start", .leaf "function"), ("config", .table settings), ("cache", .leaf "table")]

/-- Its records in another order, with two globals and a line of another kind. -/
def serverRecords : List Record :=
  [.field ⟨["config"], "table"⟩, .foreign "D\tloading", .field ⟨["config", "log"], "logger"⟩,
    .appeared "server" "1", .field ⟨["cache"], "table"⟩, .field ⟨["start"], "function"⟩,
    .appeared "level" "0", .field ⟨["config", "port"], "number"⟩]

theorem printable_server : (Export.table serverFields).Printable := by
  have leaf (type : String)
      (plain : '\t' ∉ type.toList ∧ '\n' ∉ type.toList ∧ '\r' ∉ type.toList) :
      (Export.leaf type).Printable := .leaf plain
  have config : (Export.table settings).Printable := by
    refine .table (by unfold Fields.Distinct; decide) (by decide) ?_
    simp [settings, leaf "number" (by decide), leaf "logger" (by decide)]
  refine .table (by unfold Fields.Distinct; decide) (by decide) ?_
  simp [serverFields, leaf "function" (by decide), config, leaf "table" (by decide)]

theorem lists_server :
    (Export.table serverFields).Lists (serverRecords.filterMap Record.node?) := by
  have nodes : serverRecords.filterMap Record.node? =
      [⟨["config"], "table"⟩, ⟨["config", "log"], "logger"⟩, ⟨["cache"], "table"⟩,
        ⟨["start"], "function"⟩, ⟨["config", "port"], "number"⟩] := rfl
  refine ⟨?_, by decide, by decide⟩
  intro path type
  rw [nodes]
  constructor
  · intro member
    have inServer {name : String} {inner : Export} (listed : (name, inner) ∈ serverFields) :
        (Export.table serverFields).At [name] inner := .field listed (.here inner)
    have inSettings {name : String} {inner : Export} (listed : (name, inner) ∈ settings) :
        (Export.table serverFields).At ["config", name] inner :=
      .field (by simp [serverFields]) (.field listed (.here inner))
    simp only [List.mem_cons, List.not_mem_nil, or_false] at member
    rcases member with config | log | cache | start | port
    · cases config
      exact ⟨by simp, .table settings, inServer (by simp [serverFields]), rfl⟩
    · cases log
      exact ⟨by simp, .leaf "logger", inSettings (by simp [settings]), rfl⟩
    · cases cache
      exact ⟨by simp, .leaf "table", inServer (by simp [serverFields]), rfl⟩
    · cases start
      exact ⟨by simp, .leaf "function", inServer (by simp [serverFields]), rfl⟩
    · cases port
      exact ⟨by simp, .leaf "number", inSettings (by simp [settings]), rfl⟩
  · rintro ⟨proper, node, found, rfl⟩
    cases found with
    | here => exact absurd rfl proper
    | field listed deeper =>
        simp only [serverFields, List.mem_cons, List.not_mem_nil, or_false] at listed
        rcases listed with start | config | cache
        · cases start
          cases deeper
          simp [Export.typeName]
        · cases config
          cases deeper with
          | here => simp [Export.typeName]
          | field listed deeper =>
              simp only [settings, List.mem_cons, List.not_mem_nil, or_false] at listed
              rcases listed with port | log
              · cases port
                cases deeper
                simp [Export.typeName]
              · cases log
                cases deeper
                simp [Export.typeName]
        · cases cache
          cases deeper
          simp [Export.typeName]

/-- The settings are read in the order of their records, a type that is not known as anything. -/
theorem decode_printed_server :
    ∃ exports, decode "server" (Text.unlines (serverRecords.map Record.text)) =
        .ok ⟨.table exports, [⟨"server", true⟩, ⟨"level", false⟩]⟩ ∧
      Shape.Reordered (.table exports)
        (.table [("start", .scalar .function),
          ("config", .table [("port", .scalar .number), ("log", .scalar .any)]),
          ("cache", .table [])]) ∧
      Fields.names exports = ["config", "cache", "start"] ∧
      Fields.names ((Shape.table exports).fieldsAt ["config"]) = ["log", "port"] := by
  have legible : ∀ record ∈ serverRecords, record.Legible := by
    simp [serverRecords, Record.Legible, Record.tag]
  obtain ⟨exports, decoded, reordered, order, _⟩ :=
    decode_printed "server" printable_server lists_server legible
  exact ⟨exports, decoded, reordered, order [], order ["config"]⟩

end Probe

end GlobalAudit
