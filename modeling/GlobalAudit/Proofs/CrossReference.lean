import GlobalAudit.Audit.Judgement
import GlobalAudit.Output.CrossReference
import GlobalAudit.Proofs.ByteOrder
import GlobalAudit.Proofs.FirstOccurrences
import GlobalAudit.Proofs.Text
import Mathlib.Data.List.Destutter

/-!
# The cross reference

The cross reference of a file has each name once, in the order of bytes, and with a name the lines that
read it and the lines that write it. No accessed line is missing and no other line is listed. But equal
lines are dropped only next to each other, and references come function by function, so a line to
which they come back after another line is listed again.
-/
namespace GlobalAudit

namespace Usage

/-! ## Lines -/

theorem collapse_eq_destutter (lines : List Nat) : collapse lines = lines.destutter (· ≠ ·) := by
  fun_induction collapse lines with
  | case1 => rfl
  | case2 line => rfl
  | case3 line rest ih =>
      rw [ih, List.destutter_cons_cons, if_neg (not_not.mpr rfl)]
      rfl
  | case4 line next rest differ ih =>
      rw [ih, List.destutter_cons_cons, if_pos differ]
      rfl

theorem mem_collapse {line : Nat} {lines : List Nat} : line ∈ collapse lines ↔ line ∈ lines := by
  fun_induction collapse lines with
  | case1 => rfl
  | case2 line => rfl
  | case3 line rest ih => simp [ih]
  | case4 line next rest differ ih => rw [List.mem_cons, ih, ← List.mem_cons]

/-- Of lines that change at each step, none gets lost. -/
theorem sublist_collapse {part lines : List Nat} (changing : part.IsChain (· ≠ ·))
    (sub : part.Sublist lines) : part.Sublist (collapse lines) := by
  fun_induction collapse lines generalizing part with
  | case1 => exact sub
  | case2 line => exact sub
  | case3 line rest ih =>
      apply ih changing
      cases sub with
      | cons _ later => exact later
      | cons_cons _ later =>
          cases later with
          | cons _ later => exact later.cons_cons line
          | cons_cons _ later => exact absurd rfl (List.isChain_cons_cons.mp changing).1
  | case4 line next rest differ ih =>
      cases sub with
      | cons _ later => exact (ih changing later).cons line
      | cons_cons _ later => exact (ih changing.tail later).cons_cons line

/-- In lines that change at each step, between two equal ones there is another one. -/
theorem exists_between {line : Nat} {lines : List Nat} (changing : lines.IsChain (· ≠ ·))
    (twice : [line, line].Sublist lines) : ∃ other, other ≠ line ∧ [line, other, line].Sublist lines := by
  induction lines with
  | nil => cases twice
  | cons first rest ih =>
      cases twice with
      | cons _ later =>
          obtain ⟨other, differs, between⟩ := ih changing.tail later
          exact ⟨other, differs, between.cons first⟩
      | cons_cons _ later =>
          cases rest with
          | nil => cases later
          | cons second rest =>
              have differs : line ≠ second := (List.isChain_cons_cons.mp changing).1
              cases later with
              | cons _ later => exact ⟨second, differs.symm, (later.cons_cons second).cons_cons line⟩
              | cons_cons _ later => exact absurd rfl differs

/-- A line is listed twice exactly when the lines come back to it. -/
theorem two_le_count_collapse_iff {line : Nat} {lines : List Nat} :
    2 ≤ (collapse lines).count line ↔ ∃ other, other ≠ line ∧ [line, other, line].Sublist lines := by
  have changing : (collapse lines).IsChain (· ≠ ·) := by
    rw [collapse_eq_destutter]
    exact List.isChain_destutter _ lines
  have part : (collapse lines).Sublist lines := by
    rw [collapse_eq_destutter]
    exact List.destutter_sublist _ lines
  rw [← List.replicate_sublist_iff]
  constructor
  · intro twice
    obtain ⟨other, differs, between⟩ := exists_between changing twice
    exact ⟨other, differs, between.trans part⟩
  · rintro ⟨other, differs, between⟩
    have steps : [line, other, line].IsChain (· ≠ ·) := by
      simp [differs, differs.symm]
    exact List.Sublist.trans (by simp) (sublist_collapse steps between)

/-! ## Accesses -/

section Accesses

variable {name : String} {isWrite : Bool} {references : List Reference}

/-- The lines of the accesses to a name, one for each. -/
def accessLines (name : String) (isWrite : Bool) (references : List Reference) : List Nat :=
  (references.filter fun reference =>
    reference.name == name && reference.isWrite == isWrite).map Reference.line

theorem mk_accessLines :
    (accessLines name isWrite references).map (fun line => Reference.mk line name isWrite) =
      references.filter fun reference => reference.name == name && reference.isWrite == isWrite := by
  rw [accessLines, List.map_map]
  conv_rhs => rw [← List.map_id (references.filter _)]
  apply List.map_congr_left
  intro reference member
  obtain ⟨sameName, sameAccess⟩ := Bool.and_eq_true_iff.mp (List.mem_filter.mp member).2
  rw [Function.comp_apply, ← beq_iff_eq.mp sameName, ← beq_iff_eq.mp sameAccess]
  rfl

/-- Lines of accesses, and the accesses themselves. -/
theorem sublist_accessLines_iff {lines : List Nat} :
    lines.Sublist (accessLines name isWrite references) ↔
      (lines.map fun line => Reference.mk line name isWrite).Sublist references := by
  constructor
  · intro sub
    exact (mk_accessLines ▸ sub.map _).trans List.filter_sublist
  · intro sub
    have kept := (sub.filter fun reference =>
      reference.name == name && reference.isWrite == isWrite).map Reference.line
    rw [List.filter_map, List.map_map] at kept
    rw [accessLines]
    simpa [Function.comp_def] using kept

theorem mem_linesOf {line : Nat} :
    line ∈ linesOf name isWrite references ↔ ⟨line, name, isWrite⟩ ∈ references := by
  have single : [line].Sublist (accessLines name isWrite references) ↔
      [⟨line, name, isWrite⟩].Sublist references := sublist_accessLines_iff
  rw [List.singleton_sublist, List.singleton_sublist] at single
  exact mem_collapse.trans single

/-- References come back to the line of one of them: between two that are equal to it there is one on
another line to the same name and of the same kind. -/
def ComesBack (references : List Reference) (reference : Reference) : Prop :=
  ∃ other, other ≠ reference.line ∧
    [reference, { reference with line := other }, reference].Sublist references

theorem count_linesOf_eq_one_iff {line : Nat} :
    (linesOf name isWrite references).count line = 1 ↔
      ⟨line, name, isWrite⟩ ∈ references ∧ ¬ ComesBack references ⟨line, name, isWrite⟩ := by
  have twice : 2 ≤ (linesOf name isWrite references).count line ↔
      ComesBack references ⟨line, name, isWrite⟩ := by
    refine two_le_count_collapse_iff.trans (exists_congr fun other => and_congr_right fun _ => ?_)
    exact sublist_accessLines_iff
  rw [← twice, ← mem_linesOf, ← List.one_le_count_iff]
  omega

end Accesses

/-! ## Names -/

theorem mem_names {name : String} {references : List Reference} :
    name ∈ names references ↔ ∃ reference ∈ references, reference.name = name := by
  rw [names, List.mem_eraseDups, List.mem_mergeSort, List.mem_map]

theorem names_ascending (references : List Reference) : (names references).Pairwise (· < ·) := by
  have ascending : (names references).Pairwise (· ≤ ·) :=
    (pairwise_mergeSort_key id (references.map Reference.name)).sublist
      (FirstOccurrences.eraseDups_sublist _)
  have distinct : (names references).Nodup := FirstOccurrences.nodup_eraseDups _
  exact (ascending.and distinct).imp fun both => lt_of_le_of_ne both.1 both.2

theorem map_name_ofReferences (references : List Reference) :
    (ofReferences references).map name = names references := by
  rw [ofReferences, List.map_map]
  exact List.map_id _

/-! ## Printed entries -/

/-- The lines of one kind of access in print: nothing where there are none, and otherwise a word and
the numerals of the lines with commas between them. -/
inductive Printed (word : String) : List Nat → String → Prop where
  | nothing : Printed word [] ""
  | listed {lines : List Nat} {numerals : List String} (nonempty : lines ≠ [])
      (spelled : List.Forall₂ (fun line numeral => Text.digitsValue? numeral.toList = some line)
        lines numerals) :
      Printed word lines ("  " ++ word ++ " " ++ ",".intercalate numerals)

/-- The row of an entry: the name, blanks behind it, and the lines that read and write it. -/
inductive Row (usage : Usage) : String → Prop where
  | of (blanks : Nat) {reads writes : String} (gets : Printed "get" usage.reads reads)
      (sets : Printed "set" usage.writes writes) :
      Row usage ("  " ++ (usage.name ++ String.ofList (List.replicate blanks ' ')) ++ reads ++ writes)

theorem forall₂_numerals (lines : List Nat) :
    List.Forall₂ (fun line (numeral : String) => Text.digitsValue? numeral.toList = some line) lines
      (lines.map fun line => toString line) := by
  rw [List.forall₂_map_right_iff, List.forall₂_same]
  intro line _
  have chars : (toString line).toList = Nat.toDigits 10 line := Nat.toList_repr
  rw [chars, Text.digitsValue?_toDigits]

theorem printed_lineList (word : String) (lines : List Nat) :
    Printed word lines (if lines.isEmpty then "" else "  " ++ word ++ " " ++ lineList lines) := by
  cases lines with
  | nil => exact .nothing
  | cons line rest => exact .listed (List.cons_ne_nil line rest) (forall₂_numerals (line :: rest))

theorem row_text (width : Nat) (usage : Usage) : Row usage (usage.text width) :=
  .of (width - usage.name.length) (printed_lineList "get" usage.reads)
    (printed_lineList "set" usage.writes)

theorem ordered_toJson (usage : Usage) : usage.toJson.ordered = usage.toJson := by
  have numbers (lines : List Nat) :
      (Json.array (lines.map .ofNat)).ordered = .array (lines.map .ofNat) := by
    rw [Json.ordered, Json.orderedItems_of_ordered]
    intro item member
    obtain ⟨line, _, rfl⟩ := List.mem_map.mp member
    rfl
  apply Json.ordered_object
  · exact List.pairwise_pair.mpr (show "get" < "set" by decide)
  · refine List.forall_mem_cons.mpr ⟨numbers usage.reads, ?_⟩
    exact List.forall_mem_singleton.mpr (numbers usage.writes)

/-- The lines of one kind of access. -/
def lines (usage : Usage) (isWrite : Bool) : List Nat := if isWrite then usage.writes else usage.reads

theorem lines_of_mem {references : List Reference} {usage : Usage}
    (member : usage ∈ ofReferences references) (isWrite : Bool) :
    usage.lines isWrite = linesOf usage.name isWrite references := by
  obtain ⟨name, _, rfl⟩ := List.mem_map.mp member
  cases isWrite <;> rfl

end Usage

namespace Verdict

open Usage

theorem ordered_xrefJson (path : String) (verdict : Verdict) :
    (verdict.xrefJson path).ordered = verdict.xrefJson path := by
  have entries : (Json.object ((ofReferences verdict.facts.references).map fun usage =>
      (usage.name, usage.toJson))).ordered =
      .object ((ofReferences verdict.facts.references).map fun usage =>
        (usage.name, usage.toJson)) := by
    apply Json.ordered_object
    · rw [List.pairwise_map, ← List.pairwise_map (f := Usage.name), map_name_ofReferences]
      exact names_ascending _
    · intro member inEntries
      obtain ⟨usage, _, rfl⟩ := List.mem_map.mp inEntries
      exact ordered_toJson usage
  apply Json.ordered_object
  · exact List.pairwise_pair.mpr (show "file" < "xref" by decide)
  · exact List.forall_mem_cons.mpr ⟨rfl, List.forall_mem_singleton.mpr entries⟩

/-- The cross reference shows each name that is accessed once, in the order of bytes, as text and as
JSON alike. With a name go the lines that read it and the lines that write it, and no others. A line is
listed once unless the references come back to it. -/
theorem xref_lists_accesses (path : String) (verdict : Verdict) :
    ∃ usages : List Usage,
      (∃ rows, verdict.xrefText path = Text.unlines ((path ++ ":") :: rows) ∧
        List.Forall₂ Row usages rows) ∧
      (verdict.xrefJson path).line =
        (Json.object [("file", .string path), ("xref", .object (usages.map fun usage =>
          (usage.name, .object [("get", .array (usage.reads.map .ofNat)),
            ("set", .array (usage.writes.map .ofNat))])))]).render ++ "\n" ∧
      (usages.map Usage.name).Pairwise (fun first second => Text.bytes first < Text.bytes second) ∧
      (∀ name, name ∈ usages.map Usage.name ↔
        ∃ reference ∈ verdict.facts.references, reference.name = name) ∧
      ∀ usage ∈ usages, ∀ isWrite line,
        (line ∈ usage.lines isWrite ↔ ⟨line, usage.name, isWrite⟩ ∈ verdict.facts.references) ∧
        ((usage.lines isWrite).count line = 1 ↔
          ⟨line, usage.name, isWrite⟩ ∈ verdict.facts.references ∧
          ¬ ComesBack verdict.facts.references ⟨line, usage.name, isWrite⟩) := by
  refine ⟨ofReferences verdict.facts.references, ⟨_, rfl, ?_⟩, ?_, ?_, ?_, ?_⟩
  · rw [List.forall₂_map_right_iff, List.forall₂_same]
    exact fun usage _ => row_text _ usage
  · rw [Json.line, ordered_xrefJson]
    rfl
  · rw [map_name_ofReferences]
    exact (names_ascending _).imp Text.bytes_lt_bytes_iff.mpr
  · intro name
    rw [map_name_ofReferences, mem_names]
  · intro usage member isWrite line
    rw [lines_of_mem member isWrite]
    exact ⟨mem_linesOf, count_linesOf_eq_one_iff⟩

end Verdict

namespace Listing

/-- On the first line a global is read by the main function and by a function made there, on the second
by the main function again. -/
def readAroundFunction : Listing where
  dialect := .lua51
  functions := [{
    header := "main <t.lua:0,0>"
    instructions :=
      [⟨1, 1, .getGlobal, 0, some (-1), none, some "x"⟩,
       ⟨2, 1, .closure, 1, some 0, none, some "0x2"⟩,
       ⟨3, 2, .getGlobal, 2, some (-1), none, some "x"⟩,
       ⟨4, 2, .return, 0, some 1, none, none⟩]
    registers := ((Registers.empty.addLocal 0 "a" 3 5).addLocal 1 "f" 3 5).addLocal 2 "b" 4 5 }, {
    header := "function <t.lua:1,1>"
    instructions :=
      [⟨1, 1, .getGlobal, 0, some (-1), none, some "x"⟩,
       ⟨2, 1, .return, 0, some 2, none, none⟩,
       ⟨3, 1, .return, 0, some 1, none, none⟩]
    registers := Registers.empty }]

/-- The first line is listed twice. -/
theorem readAroundFunction_line_twice :
    (readAroundFunction.audit .empty ⟨false, false⟩ ([] : List Source)).1.xrefText "t.lua" =
        "t.lua:\n  x  get 1,2,1\n" ∧
      ¬ ∀ verdict : Verdict, ∀ usage ∈ Usage.ofReferences verdict.facts.references,
        ∀ isWrite line, line ∈ usage.lines isWrite → (usage.lines isWrite).count line = 1 := by
  have referenced :
      (readAroundFunction.audit .empty ⟨false, false⟩ ([] : List Source)).1.facts.references =
        [⟨1, "x", false⟩, ⟨2, "x", false⟩, ⟨1, "x", false⟩] := by decide
  have listed : Usage.ofReferences
      (readAroundFunction.audit .empty ⟨false, false⟩ ([] : List Source)).1.facts.references =
      [⟨"x", [1, 2, 1], []⟩] := by
    rw [referenced, Usage.ofReferences, Usage.names, List.mergeSort_of_pairwise (by decide)]
    decide
  refine ⟨?_, ?_⟩
  · rw [Verdict.xrefText, listed]
    decide
  · intro once
    have count := once (readAroundFunction.audit .empty ⟨false, false⟩ ([] : List Source)).1
      ⟨"x", [1, 2, 1], []⟩ (listed ▸ List.mem_cons_self) false 1 (by decide)
    exact absurd count (by decide)

end Listing

end GlobalAudit
