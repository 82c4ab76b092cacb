import GlobalAudit.Proofs.PathUpdate
import GlobalAudit.Proofs.Visibility
import GlobalAudit.Proofs.WellFormed

/-! Catalogs written as lists of names. What such a text says about a path depends only on which names
are listed: a path leads to a table if a listed name goes on behind it, and to something unknown if it
is listed and no name goes on. Order and repetition decide at most the order of fields. -/
namespace GlobalAudit

namespace Shape

/-! ## Order of fields -/

/-- Shapes that differ at most in the order of fields, at any depth. -/
inductive Reordered : Shape → Shape → Prop where
  | scalar (kind : Kind) : Reordered (.scalar kind) (.scalar kind)
  | own : Reordered .own .own
  | table {first second : Fields Shape}
      (names : (Fields.names first).Perm (Fields.names second))
      (inner : ∀ name left right, Fields.get? name first = some left →
        Fields.get? name second = some right → Reordered left right) :
      Reordered (.table first) (.table second)

/-- Two ends of a path that are both nothing, both tables, or the same shape. -/
inductive SameKind : Option Shape → Option Shape → Prop where
  | absent : SameKind none none
  | table (first second : Fields Shape) : SameKind (some (.table first)) (some (.table second))
  | equal (shape : Shape) : SameKind (some shape) (some shape)

theorem SameKind.isSome_iff {first second : Option Shape} (alike : SameKind first second) :
    first.isSome = true ↔ second.isSome = true := by
  cases alike <;> simp

/-- Shapes in which every path leads to the same kind differ in order only. -/
theorem reordered_of_sameKind {first second : Shape} (firstWell : first.WellFormed)
    (secondWell : second.WellFormed)
    (alike : ∀ path, SameKind (first.follow? path) (second.follow? path)) :
    Reordered first second := by
  induction firstWell generalizing second with
  | scalar kind =>
      cases alike []
      exact .scalar kind
  | own =>
      cases alike []
      exact .own
  | @table fields distinct inner ih =>
      obtain ⟨others, rfl⟩ : ∃ others, second = .table others := by
        cases alike [] with
        | table first others => exact ⟨others, rfl⟩
        | equal shape => exact ⟨fields, rfl⟩
      refine .table ?_ ?_
      · rw [List.perm_ext_iff_of_nodup distinct secondWell.distinct]
        intro name
        have level := (alike [name]).isSome_iff
        simpa [follow?, field?, Fields.isSome_get?_iff] using level
      · intro name left right inFields inOthers
        apply ih _ (Fields.mem_of_get?_eq_some inFields) (secondWell.get? inOthers)
        intro path
        have below := alike (name :: path)
        simpa [follow?, field?, inFields, inOthers] using below

end Shape

namespace Catalog

/-! ## Names on lines -/

/-- Identifiers with dots between them. -/
def IsPathName (name : String) : Prop :=
  ∃ path, path ≠ [] ∧ (∀ segment ∈ path, isIdentifier segment = true) ∧
    name = ".".intercalate path

theorem isDotted_of_isIdentifier {segment : String} (identifier : isIdentifier segment = true) :
    Dotted.isDotted segment = false := by
  rw [Dotted.isDotted_eq_false_iff]
  intro dot
  rw [isIdentifier] at identifier
  split at identifier
  · cases identifier
  · rename_i first rest chars
    obtain ⟨start, later⟩ := Bool.and_eq_true_iff.mp identifier
    rw [chars] at dot
    rcases List.mem_cons.mp dot with rfl | member
    · exact absurd start (by decide)
    · exact absurd (List.all_eq_true.mp later '.' member) (by decide)

theorem isPathName_iff (name : String) :
    IsPathName name ↔ (Dotted.segments name).all isIdentifier = true := by
  rw [List.all_eq_true]
  constructor
  · rintro ⟨path, proper, identifiers, rfl⟩
    rwa [Dotted.segments_intercalate proper fun segment member =>
      isDotted_of_isIdentifier (identifiers segment member)]
  · intro identifiers
    exact ⟨Dotted.segments name, Dotted.segments_ne_nil name, identifiers,
      (Dotted.intercalate_segments name).symm⟩

/-- The names on lines, of which those that hold none are left out. -/
def namesOn (lines : List (List Char)) : List String :=
  (lines.map nameOnLine).filter fun name => !name.isEmpty

theorem mem_namesOn {lines : List (List Char)} {name : String} :
    name ∈ namesOn lines ↔ name.isEmpty = false ∧ ∃ line ∈ lines, nameOnLine line = name := by
  rw [namesOn, List.mem_filter, List.mem_map, Bool.not_eq_true', and_comm]

theorem namesOn_append (early late : List (List Char)) :
    namesOn (early ++ late) = namesOn early ++ namesOn late := by
  rw [namesOn, List.map_append, List.filter_append]
  rfl

/-- The names that a text lists. -/
def listedNames (text : String) : List String := namesOn (Text.lines text.toList)

/-- A catalog with one more name, which may be there already. -/
def addName (catalog : Catalog) (name : String) : Catalog :=
  if (catalog.find? name).isSome then catalog else catalog.insertPath name (.scalar .any)

section Lines

variable (catalog : Catalog) {line : List Char} (number : Nat)

theorem addLine_of_blank (blank : (nameOnLine line).isEmpty = true) :
    catalog.addLine (line, number) = .ok catalog := by
  simp only [addLine, blank, if_true]

theorem addLine_of_pathName (named : (nameOnLine line).isEmpty = false)
    (sound : IsPathName (nameOnLine line)) :
    catalog.addLine (line, number) = .ok (catalog.addName (nameOnLine line)) := by
  have segments := (isPathName_iff _).mp sound
  simp only [addLine, named, Bool.false_eq_true, if_false, segments, if_true, addName]
  split <;> rfl

theorem addLine_of_bad (named : (nameOnLine line).isEmpty = false)
    (bad : ¬ IsPathName (nameOnLine line)) :
    catalog.addLine (line, number) = .error (.badName number (nameOnLine line)) := by
  rw [isPathName_iff] at bad
  simp only [addLine, named, Bool.false_eq_true, if_false, if_neg bad]

end Lines

/-- Lines with sound names are all read, and what they add is the names on them. -/
theorem foldlM_addLine_of_sound {lines : List (List Char)}
    (sound : ∀ name ∈ namesOn lines, IsPathName name) (catalog : Catalog) (number : Nat) :
    (lines.zipIdx number).foldlM addLine catalog = .ok ((namesOn lines).foldl addName catalog) := by
  induction lines generalizing catalog number with
  | nil => rfl
  | cons line rest ih =>
      have split : namesOn (line :: rest) = namesOn [line] ++ namesOn rest :=
        namesOn_append [line] rest
      rw [split] at sound ⊢
      obtain ⟨first, later⟩ := List.forall_mem_append.mp sound
      rw [List.zipIdx_cons, List.foldlM_cons, List.foldl_append]
      cases blank : (nameOnLine line).isEmpty with
      | true =>
          have nothing : namesOn [line] = [] := by simp [namesOn, blank]
          rw [addLine_of_blank catalog number blank, nothing, List.foldl_nil]
          exact ih later catalog (number + 1)
      | false =>
          have one : namesOn [line] = [nameOnLine line] := by simp [namesOn, blank]
          rw [one] at first ⊢
          rw [addLine_of_pathName catalog number blank (first _ List.mem_cons_self),
            List.foldl_cons, List.foldl_nil]
          exact ih later _ (number + 1)

/-- A line with another name ends the reading, whatever follows. -/
theorem foldlM_addLine_of_bad {early : List (List Char)} {bad : List Char}
    (sound : ∀ name ∈ namesOn early, IsPathName name) (named : (nameOnLine bad).isEmpty = false)
    (unsound : ¬ IsPathName (nameOnLine bad)) (late : List (List Char)) (catalog : Catalog)
    (number : Nat) :
    ((early ++ bad :: late).zipIdx number).foldlM addLine catalog =
      .error (.badName (number + early.length) (nameOnLine bad)) := by
  rw [List.zipIdx_append, List.foldlM_append, foldlM_addLine_of_sound sound, List.zipIdx_cons]
  change List.foldlM addLine ((namesOn early).foldl addName catalog)
    ((bad, number + early.length) :: late.zipIdx (number + early.length + 1)) = _
  rw [List.foldlM_cons, addLine_of_bad _ _ named unsound]
  rfl

/-! ## What names say -/

/-- What names say about a path: it leads to a table if a name goes on behind it, to something
unknown if it is a name and none goes on, and nowhere if no name starts with it. -/
inductive Means (names : List String) (path : List String) : Option Shape → Prop where
  | inside {name : String} (listed : name ∈ names) (above : path <+: Dotted.segments name)
      (proper : path ≠ Dotted.segments name) (fields : Fields Shape) :
      Means names path (some (.table fields))
  | named {name : String} (listed : name ∈ names) (whole : path = Dotted.segments name)
      (last : ∀ other ∈ names, path <+: Dotted.segments other → path = Dotted.segments other) :
      Means names path (some (.scalar .any))
  | silent (absent : ∀ name ∈ names, ¬ path <+: Dotted.segments name) : Means names path none

namespace Means

variable {names : List String} {path : List String} {found : Option Shape}

/-- A further name changes nothing for a path that it does not start with, or that a longer name
starts with already. -/
theorem concat (meant : Means names path found) {name : String}
    (covered : path <+: Dotted.segments name → ∃ other ∈ names, path <+: Dotted.segments other ∧
      (path = Dotted.segments other → path = Dotted.segments name)) :
    Means (names ++ [name]) path found := by
  cases meant with
  | inside listed above proper fields =>
      exact .inside (List.mem_append_left _ listed) above proper fields
  | named listed whole last =>
      refine .named (List.mem_append_left _ listed) whole ?_
      refine List.forall_mem_append.mpr ⟨last, List.forall_mem_singleton.mpr ?_⟩
      intro start
      obtain ⟨other, member, above, same⟩ := covered start
      exact same (last other member above)
  | silent absent =>
      refine .silent (List.forall_mem_append.mpr ⟨absent, List.forall_mem_singleton.mpr ?_⟩)
      intro start
      obtain ⟨other, member, above, _⟩ := covered start
      exact absent other member above

theorem isSome_iff (meant : Means names path found) :
    found.isSome = true ↔ ∃ name ∈ names, path <+: Dotted.segments name := by
  cases meant with
  | inside listed above proper fields => exact iff_of_true rfl ⟨_, listed, above⟩
  | named listed whole last => exact iff_of_true rfl ⟨_, listed, whole ▸ List.prefix_rfl⟩
  | silent absent => exact iff_of_false nofun fun ⟨name, listed, above⟩ => absent name listed above

theorem exists_table_iff (meant : Means names path found) :
    (∃ fields, found = some (.table fields)) ↔
      ∃ name ∈ names, path <+: Dotted.segments name ∧ path ≠ Dotted.segments name := by
  cases meant with
  | inside listed above proper fields => exact iff_of_true ⟨fields, rfl⟩ ⟨_, listed, above, proper⟩
  | named listed whole last =>
      exact iff_of_false nofun fun ⟨name, listed, above, proper⟩ => proper (last name listed above)
  | silent absent =>
      exact iff_of_false nofun fun ⟨name, listed, above, _⟩ => absent name listed above

theorem eq_any_iff (meant : Means names path found) :
    found = some (.scalar .any) ↔ (∃ name ∈ names, path = Dotted.segments name) ∧
      ¬ ∃ name ∈ names, path <+: Dotted.segments name ∧ path ≠ Dotted.segments name := by
  cases meant with
  | inside listed above proper fields =>
      exact iff_of_false nofun fun ⟨_, alone⟩ => alone ⟨_, listed, above, proper⟩
  | named listed whole last =>
      refine iff_of_true rfl ⟨⟨_, listed, whole⟩, ?_⟩
      rintro ⟨other, member, above, proper⟩
      exact proper (last other member above)
  | silent absent =>
      refine iff_of_false nofun ?_
      rintro ⟨⟨name, listed, whole⟩, _⟩
      exact absent name listed (whole ▸ List.prefix_rfl)

/-- Names of which each list has those of the other say the same. -/
theorem sameKind {others : List String} {second : Option Shape}
    (same : ∀ name, name ∈ names ↔ name ∈ others) (meant : Means names path found)
    (meantAgain : Means others path second) : Shape.SameKind found second := by
  have seen := meant.isSome_iff
  have table := meant.exists_table_iff
  have plain := meant.eq_any_iff
  simp only [same] at seen table plain
  rw [← meantAgain.isSome_iff] at seen
  rw [← meantAgain.exists_table_iff] at table
  rw [← meantAgain.eq_any_iff] at plain
  cases meantAgain with
  | inside listed above proper fields =>
      obtain ⟨others, rfl⟩ := table.mpr ⟨fields, rfl⟩
      exact .table others fields
  | named listed whole last =>
      rw [plain.mpr rfl]
      exact .equal (.scalar .any)
  | silent absent =>
      have nothing : found = none := by simpa using seen
      rw [nothing]
      exact .absent

/-- At a name with which no listed one starts is something unknown, and below it is nothing. -/
theorem ofFresh {name : String}
    (fresh : ∀ other ∈ names, ¬ Dotted.segments name <+: Dotted.segments other)
    (rest : List String) :
    Means (names ++ [name]) (Dotted.segments name ++ rest) ((Shape.scalar .any).follow? rest) := by
  cases rest with
  | nil =>
      rw [List.append_nil]
      refine .named (List.mem_append_right _ List.mem_cons_self) rfl ?_
      refine List.forall_mem_append.mpr ⟨?_, List.forall_mem_singleton.mpr fun _ => rfl⟩
      intro other member start
      exact absurd start (fresh other member)
  | cons next more =>
      refine .silent (List.forall_mem_append.mpr ⟨?_, List.forall_mem_singleton.mpr ?_⟩)
      · intro other member start
        exact fresh other member ((List.prefix_append _ _).trans start)
      · intro start
        have longer := start.length_le
        rw [List.length_append, List.length_cons] at longer
        omega

end Means

/-- A catalog leads where the names say, along every path. -/
def Describes (names : List String) (catalog : Catalog) : Prop :=
  ∀ path, path ≠ [] → Means names path ((Shape.table catalog.globals).follow? path)

theorem describes_empty : Describes [] empty := by
  intro path proper
  obtain ⟨name, rest, rfl⟩ := List.exists_cons_of_ne_nil proper
  exact .silent (List.forall_mem_nil _)

/-- One more name. What is put at its end hides nothing, since no listed name starts with it, and the
tables on the way take the place of names that were listed on their own at most. -/
theorem Describes.addName {names : List String} {catalog : Catalog}
    (described : Describes names catalog) (name : String) :
    Describes (names ++ [name]) (catalog.addName name) := by
  have here : Means names (Dotted.segments name) (catalog.find? name) :=
    described _ (Dotted.segments_ne_nil name)
  intro path proper
  rw [Catalog.addName]
  split
  · rename_i known
    obtain ⟨other, member, longer⟩ := here.isSome_iff.mp known
    refine (described path proper).concat fun start => ⟨other, member, start.trans longer, ?_⟩
    intro whole
    exact start.eq_of_length (Nat.le_antisymm start.length_le (whole ▸ longer).length_le)
  · rename_i unknown
    have fresh : ∀ other ∈ names, ¬ Dotted.segments name <+: Dotted.segments other :=
      fun other member start => unknown (here.isSome_iff.mpr ⟨other, member, start⟩)
    rw [insertPath, Shape.putPath]
    by_cases below : Dotted.segments name <+: path
    · obtain ⟨rest, rfl⟩ := below
      rw [Shape.follow?_putAt_below (.scalar .any) (Dotted.segments_ne_nil name) rest]
      exact .ofFresh fresh rest
    · by_cases above : path <+: Dotted.segments name
      · have differs : path ≠ Dotted.segments name := fun same => below (same ▸ List.prefix_rfl)
        obtain ⟨rest, split⟩ := above
        obtain ⟨next, more, rfl⟩ : ∃ next more, rest = next :: more := by
          apply List.exists_cons_of_ne_nil
          rintro rfl
          exact differs ((List.append_nil path).symm.trans split)
        have reached := Shape.follow?_putAt_above (.scalar .any) path next more catalog.globals
        rw [split] at reached
        rw [reached]
        exact .inside (List.mem_append_right _ List.mem_cons_self) ⟨_, split⟩ differs _
      · rw [Shape.follow?_putAt_of_fork (.scalar .any) below above]
        exact (described path proper).concat fun start => absurd start above

theorem Describes.foldl_addName {names : List String} {catalog : Catalog}
    (described : Describes names catalog) (added : List String) :
    Describes (names ++ added) (added.foldl Catalog.addName catalog) := by
  induction added generalizing names catalog with
  | nil => rwa [List.append_nil]
  | cons name rest ih =>
      have next := ih (described.addName name)
      rwa [List.append_assoc, List.singleton_append] at next

theorem wellFormed_foldl_addName (names : List String) : (names.foldl addName empty).WellFormed := by
  suffices run : ∀ catalog : Catalog, catalog.WellFormed → (names.foldl addName catalog).WellFormed from
    run empty wellFormed_empty
  induction names with
  | nil => exact fun catalog wellFormed => wellFormed
  | cons name rest ih =>
      intro catalog wellFormed
      apply ih
      rw [addName]
      split
      · exact wellFormed
      · exact wellFormed.insertPath name (.scalar .any)

/-! ## Texts -/

theorem ofNameList_of_sound {text : String} (sound : ∀ name ∈ listedNames text, IsPathName name) :
    ofNameList text = .ok ((listedNames text).foldl addName empty) :=
  foldlM_addLine_of_sound sound empty 1

theorem describes_listed (names : List String) : Describes names (names.foldl addName empty) :=
  describes_empty.foldl_addName names

/-- Lists of the same names give the same catalog, up to the order of fields. -/
theorem reordered_of_same_names {first second : List String}
    (same : ∀ name, name ∈ first ↔ name ∈ second) :
    Shape.Reordered (.table (first.foldl addName empty).globals)
      (.table (second.foldl addName empty).globals) := by
  apply Shape.reordered_of_sameKind (wellFormed_foldl_addName first)
    (wellFormed_foldl_addName second)
  intro path
  by_cases whole : path = []
  · rw [whole]
    exact .table _ _
  · exact (describes_listed first path whole).sameKind same (describes_listed second path whole)

/-- Of lines that are not all sound, one is the first that is not. -/
theorem exists_first_bad {lines : List (List Char)}
    (unsound : ¬ ∀ name ∈ namesOn lines, IsPathName name) :
    ∃ early bad late, lines = early ++ bad :: late ∧ (∀ name ∈ namesOn early, IsPathName name) ∧
      (nameOnLine bad).isEmpty = false ∧ ¬ IsPathName (nameOnLine bad) := by
  induction lines with
  | nil => exact absurd (List.forall_mem_nil _) unsound
  | cons line rest ih =>
      have split (lines : List (List Char)) : namesOn (line :: lines) = namesOn [line] ++ namesOn lines :=
        namesOn_append [line] lines
      by_cases first : ∀ name ∈ namesOn [line], IsPathName name
      · have later : ¬ ∀ name ∈ namesOn rest, IsPathName name := by
          intro sound
          rw [split] at unsound
          exact unsound (List.forall_mem_append.mpr ⟨first, sound⟩)
        obtain ⟨early, bad, late, rfl, sound, named, wrong⟩ := ih later
        refine ⟨line :: early, bad, late, rfl, ?_, named, wrong⟩
        rw [split]
        exact List.forall_mem_append.mpr ⟨first, sound⟩
      · refine ⟨[], line, rest, rfl, List.forall_mem_nil _, ?_⟩
        cases blank : (nameOnLine line).isEmpty with
        | true => exact absurd (by simp [namesOn, blank]) first
        | false => exact ⟨rfl, by simpa [namesOn, blank] using first⟩

/-- The path is a part of the name, from its start up to one of its inner dots. -/
def IsAbove (path name : String) : Prop :=
  ∃ next rest, Dotted.segments name = Dotted.segments path ++ next :: rest

theorem isAbove_iff (path name : String) :
    IsAbove path name ↔ Dotted.segments path <+: Dotted.segments name ∧
      Dotted.segments path ≠ Dotted.segments name := by
  constructor
  · rintro ⟨next, rest, split⟩
    refine ⟨⟨_, split.symm⟩, ?_⟩
    intro same
    rw [same, List.self_eq_append_right] at split
    cases split
  · rintro ⟨⟨rest, split⟩, differs⟩
    cases rest with
    | nil => exact absurd ((List.append_nil _).symm.trans split) differs
    | cons next more => exact ⟨next, more, split.symm⟩

theorem mem_iff_exists_segments (names : List String) (path : String) :
    path ∈ names ↔ ∃ name ∈ names, Dotted.segments path = Dotted.segments name := by
  constructor
  · exact fun member => ⟨path, member, rfl⟩
  · rintro ⟨name, member, same⟩
    exact Dotted.segments_injective same ▸ member

theorem exists_prefix_iff (names : List String) (path : String) :
    (∃ name ∈ names, Dotted.segments path <+: Dotted.segments name) ↔
      path ∈ names ∨ ∃ name ∈ names, IsAbove path name := by
  rw [mem_iff_exists_segments, ← exists_or]
  refine exists_congr fun name => ?_
  rw [isAbove_iff, ← and_or_left]
  refine and_congr_right fun _ => ?_
  constructor
  · intro start
    exact (Decidable.em _).imp_right fun differs => ⟨start, differs⟩
  · rintro (same | above)
    · exact same ▸ List.prefix_rfl
    · exact above.1

/-- A text of names means the set of its names. If all of them are sound it is read. A path then leads
somewhere if it is listed or above a listed name, to a table in the second case and else to something
unknown; other orders and repetitions of the lines change the order of fields at most, and what some
lines have brought in is not lost through later ones. If not all are sound, the first that is not is
reported, whatever the lines behind it are. -/
theorem nameList_determined_by_names (text : String) :
    ((∀ name ∈ listedNames text, IsPathName name) →
      ∃ catalog, ofNameList text = .ok catalog ∧
        (∀ path,
          ((catalog.find? path).isSome = true ↔
            path ∈ listedNames text ∨ ∃ name ∈ listedNames text, IsAbove path name) ∧
          ((∃ fields, catalog.find? path = some (.table fields)) ↔
            ∃ name ∈ listedNames text, IsAbove path name) ∧
          (catalog.find? path = some (.scalar .any) ↔
            path ∈ listedNames text ∧ ¬ ∃ name ∈ listedNames text, IsAbove path name)) ∧
        (∀ other, (∀ line, line ∈ Text.lines other.toList ↔ line ∈ Text.lines text.toList) →
          ∃ again, ofNameList other = .ok again ∧
            Shape.Reordered (.table catalog.globals) (.table again.globals)) ∧
        ∀ early late, Text.lines text.toList = early ++ late →
          ∃ before, (early.zipIdx 1).foldlM addLine empty = .ok before ∧
            ∀ path, (before.find? path).isSome = true → (catalog.find? path).isSome = true) ∧
    ((¬ ∀ name ∈ listedNames text, IsPathName name) →
      ∃ early bad late, Text.lines text.toList = early ++ bad :: late ∧
        (∀ name ∈ namesOn early, IsPathName name) ∧ (nameOnLine bad).isEmpty = false ∧
        ¬ IsPathName (nameOnLine bad) ∧
        ofNameList text = .error (.badName (early.length + 1) (nameOnLine bad)) ∧
        ∀ other more, Text.lines other.toList = early ++ bad :: more →
          ofNameList other = ofNameList text) := by
  refine ⟨?_, ?_⟩
  · intro sound
    have described := describes_listed (listedNames text)
    refine ⟨_, ofNameList_of_sound sound, ?_, ?_, ?_⟩
    · intro path
      have meant := described _ (Dotted.segments_ne_nil path)
      refine ⟨?_, ?_, ?_⟩
      · exact meant.isSome_iff.trans (exists_prefix_iff _ path)
      · simp only [isAbove_iff]
        exact meant.exists_table_iff
      · simp only [isAbove_iff, mem_iff_exists_segments _ path]
        exact meant.eq_any_iff
    · intro other sameLines
      have same : ∀ name, name ∈ listedNames text ↔ name ∈ listedNames other := by
        intro name
        simp only [listedNames, mem_namesOn, sameLines]
      have soundAgain : ∀ name ∈ listedNames other, IsPathName name :=
        fun name member => sound name ((same name).mpr member)
      exact ⟨_, ofNameList_of_sound soundAgain, reordered_of_same_names same⟩
    · intro early late split
      have listed : listedNames text = namesOn early ++ namesOn late := by
        rw [listedNames, split, namesOn_append]
      have soundEarly : ∀ name ∈ namesOn early, IsPathName name := by
        intro name member
        exact sound name (listed ▸ List.mem_append_left _ member)
      refine ⟨_, foldlM_addLine_of_sound soundEarly empty 1, ?_⟩
      intro path known
      obtain ⟨name, member, start⟩ :=
        (describes_listed _ _ (Dotted.segments_ne_nil path)).isSome_iff.mp known
      exact (described _ (Dotted.segments_ne_nil path)).isSome_iff.mpr
        ⟨name, listed ▸ List.mem_append_left _ member, start⟩
  · intro unsound
    obtain ⟨early, bad, late, split, sound, named, wrong⟩ := exists_first_bad unsound
    have report (other : String) (more : List (List Char))
        (lines : Text.lines other.toList = early ++ bad :: more) :
        ofNameList other = .error (.badName (early.length + 1) (nameOnLine bad)) := by
      rw [ofNameList, lines, foldlM_addLine_of_bad sound named wrong, Nat.add_comm]
    refine ⟨early, bad, late, split, sound, named, wrong, report text late split, ?_⟩
    intro other more lines
    rw [report other more lines, report text late split]

/-- One table is listed before its field, the other one after it. -/
def bothOrders : String := "app # loaded first\n\nlog.level\napp.run\nlog\n"

/-- A name with an empty segment comes before one that starts with a digit. -/
def emptySegment : String := "app\napp..run\n9lives\n"

theorem nameList_of_bothOrders :
    (∀ name ∈ listedNames bothOrders, IsPathName name) ∧
      (∃ catalog, ofNameList bothOrders = .ok catalog ∧
        (∃ fields, catalog.find? "app" = some (.table fields)) ∧
        (∃ fields, catalog.find? "log" = some (.table fields)) ∧
        catalog.find? "app.run" = some (.scalar .any)) ∧
      (¬ ∀ name ∈ listedNames emptySegment, IsPathName name) ∧
      ∃ number name, ofNameList emptySegment = .error (.badName number name) := by
  have listed : listedNames bothOrders = ["app", "log.level", "app.run", "log"] := by decide
  have sound : ∀ name ∈ listedNames bothOrders, IsPathName name := by
    simp only [isPathName_iff, listed]
    decide
  have unsound : ¬ ∀ name ∈ listedNames emptySegment, IsPathName name := by
    simp only [isPathName_iff]
    decide
  obtain ⟨catalog, read, laws, _⟩ := (nameList_determined_by_names bothOrders).1 sound
  obtain ⟨_, _, _, _, _, _, _, reported, _⟩ := (nameList_determined_by_names emptySegment).2 unsound
  refine ⟨sound, ⟨catalog, read, (laws "app").2.1.mpr ?_, (laws "log").2.1.mpr ?_,
    (laws "app.run").2.2.mpr ?_⟩, unsound, _, _, reported⟩
  · exact ⟨"app.run", by simp [listed], "run", [], by decide⟩
  · exact ⟨"log.level", by simp [listed], "level", [], by decide⟩
  · simp only [isAbove_iff, listed]
    decide

end Catalog

end GlobalAudit
