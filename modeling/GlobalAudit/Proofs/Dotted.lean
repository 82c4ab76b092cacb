import GlobalAudit.Fields
import GlobalAudit.Proofs.Text
import Mathlib.Data.List.TakeWhile

/-! Dotted names and their segments. A name has no dot, or it is a field of something that has none;
adding a field adds the segments of the field at the end and keeps the root. -/
namespace GlobalAudit.Dotted

theorem toList_extend (name field : String) :
    (extend name field).toList = name.toList ++ '.' :: field.toList := by
  simp [extend]

theorem extend_assoc (name field deeper : String) :
    extend (extend name field) deeper = extend name (extend field deeper) := by
  simp [extend, String.append_assoc]

theorem isDotted_eq_false_iff (name : String) : isDotted name = false ↔ '.' ∉ name.toList := by
  simp [isDotted]

/-- A name with a dot is a field of the text before its first dot. -/
theorem exists_extend {name : String} (dotted : isDotted name = true) :
    ∃ first field, isDotted first = false ∧ name = extend first field := by
  cases cut : Text.cut? '.' name.toList with
  | none =>
      have absent := Text.cut?_eq_none_iff.mp cut
      rw [← isDotted_eq_false_iff, dotted] at absent
      cases absent
  | some parts =>
      obtain ⟨before, after⟩ := parts
      obtain ⟨text, absent⟩ := Text.cut?_eq_some cut
      refine ⟨String.ofList before, String.ofList after, ?_, ?_⟩
      · rwa [isDotted_eq_false_iff, String.toList_ofList]
      · rw [← String.toList_inj, toList_extend, String.toList_ofList, String.toList_ofList]
        exact text

/-! ## Segments -/

/-- A name without a dot is its only segment. -/
theorem segments_of_not_dotted {name : String} (plain : isDotted name = false) :
    segments name = [name] := by
  rw [segments, Text.splitOn_of_not_mem ((isDotted_eq_false_iff name).mp plain)]
  simp

theorem segments_extend (name field : String) :
    segments (extend name field) = segments name ++ segments field := by
  rw [segments, toList_extend, List.splitOn_eq_splitOnP, List.splitOnP_append_cons _ _ (by simp),
    List.map_append, ← List.splitOn_eq_splitOnP, ← List.splitOn_eq_splitOnP]
  rfl

/-- Two segments or more are those of a field of the first. -/
theorem eq_extend_of_segments {name first second : String} {rest : List String}
    (path : segments name = first :: second :: rest) :
    isDotted first = false ∧ ∃ field, name = extend first field ∧ segments field = second :: rest := by
  cases dotted : isDotted name with
  | false =>
      rw [segments_of_not_dotted dotted] at path
      cases path
  | true =>
      obtain ⟨start, field, plain, rfl⟩ := exists_extend dotted
      rw [segments_extend, segments_of_not_dotted plain] at path
      obtain ⟨rfl, deeper⟩ := List.cons.inj path
      exact ⟨plain, field, rfl, deeper⟩

/-! ## Roots -/

theorem root_of_not_dotted {name : String} (plain : isDotted name = false) : root name = name := by
  have whole : name.toList.takeWhile (· != '.') = name.toList := by
    rw [List.takeWhile_eq_self_iff]
    intro c member
    simpa using fun same : c = '.' => (isDotted_eq_false_iff name).mp plain (same ▸ member)
  rw [root, whole, String.ofList_toList]

theorem isDotted_root (name : String) : isDotted (root name) = false := by
  rw [isDotted_eq_false_iff, root, String.toList_ofList]
  intro dot
  simpa using List.mem_takeWhile_imp dot

theorem root_extend_of_not_dotted {first : String} (plain : isDotted first = false)
    (field : String) : root (extend first field) = first := by
  have before : ∀ c ∈ first.toList, (c != '.') = true := by
    intro c member
    simpa using fun same : c = '.' => (isDotted_eq_false_iff first).mp plain (same ▸ member)
  rw [root, toList_extend, List.takeWhile_append_of_pos before]
  simp

/-- A field has the root of what it is a field of. -/
theorem root_extend (name field : String) : root (extend name field) = root name := by
  cases dotted : isDotted name with
  | false => rw [root_extend_of_not_dotted dotted, root_of_not_dotted dotted]
  | true =>
      obtain ⟨first, rest, plain, rfl⟩ := exists_extend dotted
      rw [extend_assoc, root_extend_of_not_dotted plain, root_extend_of_not_dotted plain]

/-- The root is the first segment. -/
theorem segments_eq_root_cons (name : String) : ∃ rest, segments name = root name :: rest := by
  cases dotted : isDotted name with
  | false => exact ⟨[], by rw [segments_of_not_dotted dotted, root_of_not_dotted dotted]⟩
  | true =>
      obtain ⟨first, field, plain, rfl⟩ := exists_extend dotted
      refine ⟨segments field, ?_⟩
      rw [segments_extend, segments_of_not_dotted plain, root_extend_of_not_dotted plain]
      rfl

theorem root_of_segments {name first : String} {rest : List String}
    (path : segments name = first :: rest) : root name = first := by
  obtain ⟨behind, split⟩ := segments_eq_root_cons name
  exact (List.cons.inj (split.symm.trans path)).1

/-- A dotted name has two segments at least. -/
theorem exists_segments_of_dotted {name : String} (dotted : isDotted name = true) :
    ∃ next rest, segments name = root name :: next :: rest := by
  obtain ⟨first, field, plain, rfl⟩ := exists_extend dotted
  obtain ⟨rest, split⟩ := segments_eq_root_cons field
  refine ⟨root field, rest, ?_⟩
  rw [segments_extend, segments_of_not_dotted plain, root_extend_of_not_dotted plain, split]
  rfl

theorem segments_ne_nil (name : String) : segments name ≠ [] := by
  obtain ⟨rest, split⟩ := segments_eq_root_cons name
  rw [split]
  exact List.cons_ne_nil _ _

/-- A single segment is the whole name. -/
theorem eq_of_segments {name first : String} (path : segments name = [first]) : name = first := by
  cases dotted : isDotted name with
  | false =>
      rw [segments_of_not_dotted dotted] at path
      exact (List.cons.inj path).1
  | true =>
      obtain ⟨start, field, plain, rfl⟩ := exists_extend dotted
      obtain ⟨rest, deeper⟩ := segments_eq_root_cons field
      rw [segments_extend, segments_of_not_dotted plain, deeper] at path
      cases (List.cons.inj path).2

theorem isDotted_extend (name field : String) : isDotted (extend name field) = true := by
  simp [isDotted, toList_extend]

/-! ## Joined segments -/

/-- Joining adds one field after the other. -/
theorem intercalate_cons (first : String) (rest : List String) :
    ".".intercalate (first :: rest) = rest.foldl extend first := by
  induction rest generalizing first with
  | nil => exact String.intercalate_singleton
  | cons second rest ih =>
      rw [List.foldl_cons, ← ih]
      cases rest with
      | nil => rfl
      | cons third rest =>
          rw [String.intercalate_cons_cons, String.intercalate_cons_cons,
            String.intercalate_cons_cons]
          simp [extend, String.append_assoc]

theorem intercalate_segments (name : String) : ".".intercalate (segments name) = name := by
  generalize split : segments name = path
  induction path generalizing name with
  | nil =>
      obtain ⟨rest, some⟩ := segments_eq_root_cons name
      cases split.symm.trans some
  | cons first rest ih =>
      cases rest with
      | nil => rw [String.intercalate_singleton, eq_of_segments split]
      | cons second rest =>
          obtain ⟨_, field, rfl, deeper⟩ := eq_extend_of_segments split
          rw [String.intercalate_cons_cons, ih field deeper]
          rfl

theorem segments_injective {first second : String} (same : segments first = segments second) :
    first = second := by
  rw [← intercalate_segments first, same, intercalate_segments]

theorem isDotted_of_mem_segments {name segment : String} (member : segment ∈ segments name) :
    isDotted segment = false := by
  generalize split : segments name = path at member
  induction path generalizing name with
  | nil => cases member
  | cons first rest ih =>
      cases rest with
      | nil =>
          obtain ⟨rest, start⟩ := segments_eq_root_cons name
          obtain ⟨rfl, _⟩ := List.cons.inj (split.symm.trans start)
          rw [List.mem_singleton.mp member]
          exact isDotted_root name
      | cons second rest =>
          obtain ⟨plain, field, _, deeper⟩ := eq_extend_of_segments split
          rcases List.mem_cons.mp member with rfl | later
          · exact plain
          · exact ih deeper later

/-- Texts without dots are the segments of what they are joined to. -/
theorem segments_intercalate {path : List String} (proper : path ≠ [])
    (plain : ∀ segment ∈ path, isDotted segment = false) :
    segments (".".intercalate path) = path := by
  induction path with
  | nil => exact absurd rfl proper
  | cons first rest ih =>
      obtain ⟨plainFirst, plainRest⟩ := List.forall_mem_cons.mp plain
      cases rest with
      | nil => rw [String.intercalate_singleton, segments_of_not_dotted plainFirst]
      | cons second rest =>
          have whole : ".".intercalate (first :: second :: rest) =
              extend first (".".intercalate (second :: rest)) := String.intercalate_cons_cons
          rw [whole, segments_extend, segments_of_not_dotted plainFirst,
            ih (List.cons_ne_nil _ _) plainRest]
          rfl

/-- The first segments of a name are those of the part of it that they are joined to. -/
theorem segments_intercalate_of_split {name : String} (taken behind : List String)
    (split : segments name = taken ++ behind) (proper : taken ≠ []) :
    segments (".".intercalate taken) = taken := by
  apply segments_intercalate proper
  intro segment member
  exact isDotted_of_mem_segments (split ▸ List.mem_append_left behind member)

end GlobalAudit.Dotted
