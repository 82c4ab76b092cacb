import GlobalAudit.Proofs.PathComponents
import GlobalAudit.Proofs.WellFormed

/-!
# Walking a directory

A path that leads to a directory and is no pattern stands for the Lua files below the directory. Each
directory on the way is read in the order of its names, and this makes all files come in the order of
their components, whatever the names are.
-/
namespace GlobalAudit

namespace Tree

/-- Trees that can be on a disk: in each directory the names of the entries differ, and none has a slash
or leads elsewhere. -/
inductive WellFormed : Tree → Prop where
  | file (content : List UInt8) : WellFormed (.file content)
  | directory {entries : List (String × Tree)} (distinct : Fields.Distinct entries)
      (named : ∀ entry ∈ entries, Path.IsEntry entry.1)
      (inner : ∀ entry ∈ entries, WellFormed entry.2) : WellFormed (.directory entries)

/-- What is reached from a tree by going from entry to entry. -/
inductive Below : Tree → List String → Tree → Prop where
  | here (tree : Tree) : Below tree [] tree
  | entry {entries : List (String × Tree)} {name : String} {inner reached : Tree}
      {names : List String} (listed : (name, inner) ∈ entries) (below : Below inner names reached) :
      Below (.directory entries) (name :: names) reached

theorem Below.isEntry {tree reached : Tree} {names : List String} (below : Below tree names reached)
    (wellFormed : tree.WellFormed) : ∀ name ∈ names, Path.IsEntry name := by
  induction below with
  | here tree => exact List.forall_mem_nil _
  | entry listed _ ih =>
      cases wellFormed with
      | directory distinct named inner =>
          exact List.forall_mem_cons.mpr ⟨named _ listed, ih (inner _ listed)⟩

/-! ## Sorted entries -/

theorem mem_sorted {α : Type} {entries : List (String × α)} {entry : String × α} :
    entry ∈ sorted entries ↔ entry ∈ entries := List.mem_mergeSort

theorem sorted_ascending {α : Type} {entries : List (String × α)}
    (distinct : Fields.Distinct entries) :
    (sorted entries).Pairwise fun first second => first.1 < second.1 := by
  have apart : (sorted entries).Pairwise fun first second => first.1 ≠ second.1 :=
    List.pairwise_map.mp (((List.mergeSort_perm entries _).map Prod.fst).nodup_iff.mpr distinct)
  exact ((pairwise_mergeSort_key Prod.fst entries).and apart).imp fun both =>
    lt_of_le_of_ne both.1 both.2

/-! ## Files of a tree -/

variable {accept : String → Bool}

theorem filesIn_eq_map (path : String) (entries : List (String × Tree)) :
    filesIn accept path entries = entries.map fun entry =>
      (entry.1, filesAt accept (Path.join path entry.1) entry.1 entry.2) := by
  induction entries with
  | nil => rfl
  | cons entry rest ih => exact congrArg _ ih

theorem filesAt_file (path name : String) (content : List UInt8) :
    filesAt accept path name (.file content) = if accept name then [path] else [] := rfl

theorem filesAt_directory (path name : String) (entries : List (String × Tree)) :
    filesAt accept path name (.directory entries) = filesBelow accept path entries := rfl

theorem mem_filesBelow {path file : String} {entries : List (String × Tree)} :
    file ∈ filesBelow accept path entries ↔
      ∃ entry ∈ entries, file ∈ filesAt accept (Path.join path entry.1) entry.1 entry.2 := by
  rw [filesBelow, List.mem_flatMap]
  simp only [mem_sorted, filesIn_eq_map, List.mem_map, exists_exists_and_eq_and]

/-- A tree contributes the files in it, each by the way to it, if the last name on the way is
accepted. -/
theorem mem_filesAt {tree : Tree} (wellFormed : tree.WellFormed) {path name file : String} :
    file ∈ filesAt accept path name tree ↔
      ∃ names content, Below tree names (.file content) ∧
        accept (names.getLast?.getD name) = true ∧ file = names.foldl Path.join path := by
  induction wellFormed generalizing path name with
  | file content =>
      rw [filesAt_file]
      constructor
      · intro member
        split at member
        · rename_i accepted
          exact ⟨[], content, .here _, accepted, List.mem_singleton.mp member⟩
        · cases member
      · rintro ⟨names, content, below, accepted, rfl⟩
        cases below
        have taken : accept name = true := accepted
        rw [if_pos taken]
        exact List.mem_singleton.mpr rfl
  | directory distinct named inner ih =>
      rw [filesAt_directory, mem_filesBelow]
      constructor
      · rintro ⟨entry, listed, member⟩
        obtain ⟨names, content, below, accepted, rfl⟩ := (ih entry listed).mp member
        refine ⟨entry.1 :: names, content, .entry listed below, ?_, rfl⟩
        rwa [List.getLast?_cons, Option.getD_some]
      · rintro ⟨names, content, below, accepted, rfl⟩
        cases below with
        | @entry _ first _ _ rest listed below =>
            refine ⟨_, listed, (ih _ listed).mpr ⟨rest, content, below, ?_, rfl⟩⟩
            rwa [List.getLast?_cons, Option.getD_some] at accepted

/-- The components of a file that a tree contributes are those of the path to the tree and the names on
the way. -/
theorem exists_components_of_mem_filesAt {tree : Tree} (wellFormed : tree.WellFormed)
    {path name file : String} (proper : path ≠ "") (member : file ∈ filesAt accept path name tree) :
    ∃ names : List String, Path.components file = Path.components path ++ names.map .name := by
  obtain ⟨names, content, below, _, rfl⟩ := (mem_filesAt wellFormed).mp member
  exact ⟨names, Path.components_foldl_join proper (below.isEntry wellFormed)⟩

/-- Files come in the order of their components. Those of one entry are in order by themselves; those of
two entries differ where the names of the entries are, which are in order. -/
theorem filesAt_ascending {tree : Tree} (wellFormed : tree.WellFormed) {path : String}
    (proper : path ≠ "") (name : String) :
    (filesAt accept path name tree).Pairwise Path.Precedes := by
  induction wellFormed generalizing path name with
  | file content =>
      rw [filesAt_file]
      split
      · exact List.pairwise_singleton _ _
      · exact .nil
  | @directory entries distinct named inner ih =>
      have distinctToo : Fields.Distinct (filesIn accept path entries) := by
        rw [filesIn_eq_map, Fields.Distinct, Fields.names, List.map_map]
        exact distinct
      rw [filesAt_directory, filesBelow, List.pairwise_flatMap]
      refine ⟨?_, (sorted_ascending distinctToo).imp_of_mem ?_⟩
      · intro block listed
        rw [mem_sorted, filesIn_eq_map] at listed
        obtain ⟨entry, member, rfl⟩ := List.mem_map.mp listed
        exact ih entry member (Path.join_ne_empty proper _) entry.1
      · intro first second listed listedToo less file inFirst other inSecond
        rw [mem_sorted, filesIn_eq_map] at listed listedToo
        obtain ⟨left, member, rfl⟩ := List.mem_map.mp listed
        obtain ⟨right, memberToo, rfl⟩ := List.mem_map.mp listedToo
        obtain ⟨names, front⟩ := exists_components_of_mem_filesAt (inner left member)
          (Path.join_ne_empty proper left.1) inFirst
        obtain ⟨others, back⟩ := exists_components_of_mem_filesAt (inner right memberToo)
          (Path.join_ne_empty proper right.1) inSecond
        rw [Path.components_join proper (named left member), List.append_assoc] at front
        rw [Path.components_join proper (named right memberToo), List.append_assoc] at back
        rw [Path.Precedes, front, back]
        exact .append_left _ (.rel (.name (Text.bytes_lt_bytes_iff.mpr less))) _

/-! ## Paths that lead to files -/

section Follow

variable {place : Tree} {outer : List Tree} {front : List String}

/-- Pieces are followed from where the pieces before them lead. -/
theorem exists_follow_append {reached : Tree} (found : follow front place outer = .ok reached) :
    ∃ enclosing, ∀ rest, follow (front ++ rest) place outer = follow rest reached enclosing := by
  fun_induction follow front place outer with
  | case1 place outer =>
      cases found
      exact ⟨outer, fun _ => rfl⟩
  | case2 => cases found
  | case3 piece front outer entries void ih =>
      obtain ⟨enclosing, onward⟩ := ih found
      exact ⟨enclosing, fun rest => by simp [follow, void, onward]⟩
  | case4 front entries void ih =>
      obtain ⟨enclosing, onward⟩ := ih found
      exact ⟨enclosing, fun rest => by simp [follow, void, onward]⟩
  | case5 front entries next outer void ih =>
      obtain ⟨enclosing, onward⟩ := ih found
      exact ⟨enclosing, fun rest => by simp [follow, void, onward]⟩
  | case6 piece front outer entries void inside inner there ih =>
      obtain ⟨enclosing, onward⟩ := ih found
      exact ⟨enclosing, fun rest => by simp [follow, void, inside, there, onward]⟩
  | case7 => cases found

/-- Pieces behind others that lead nowhere lead nowhere. -/
theorem follow_append_of_error {reason : ReadError}
    (failed : follow front place outer = .error reason) (rest : List String) :
    follow (front ++ rest) place outer = .error reason := by
  fun_induction follow front place outer with
  | case1 => cases failed
  | case2 piece front outer content => simpa [follow] using failed
  | case3 piece front outer entries void ih => simpa [follow, void] using ih failed
  | case4 front entries void ih => simpa [follow, void] using ih failed
  | case5 front entries next outer void ih => simpa [follow, void] using ih failed
  | case6 piece front outer entries void inside inner there ih =>
      simpa [follow, void, inside, there] using ih failed
  | case7 piece front outer entries void inside missing =>
      simpa [follow, void, inside, missing] using failed

end Follow

end Tree

namespace FileSystem

open GlobalAudit.Tree

theorem ne_empty_of_locate {files : FileSystem} {path : String} {tree : Tree}
    (located : files.locate path = .ok tree) : path ≠ "" := by
  rintro rfl
  cases located

/-- A name joined to the path of a directory leads to the entry of that name. -/
theorem locate_join {files : FileSystem} {path name : String} {entries : List (String × Tree)}
    {inner : Tree} (located : files.locate path = .ok (.directory entries))
    (entry : Path.IsEntry name) (found : Fields.get? name entries = some inner) :
    files.locate (Path.join path name) = .ok inner := by
  have proper := ne_empty_of_locate located
  have start : (Path.join path name).toList.head? = path.toList.head? := by
    obtain ⟨c, rest, chars⟩ := List.exists_cons_of_ne_nil (mt String.toList_eq_nil_iff.mp proper)
    rw [Path.join]
    split <;> simp [chars]
  have inside : name ≠ ".." := by
    rintro rfl
    exact absurd entry.named (by decide)
  have last (enclosing : List Tree) : follow [name] (.directory entries) enclosing = .ok inner := by
    simp [follow, entry.isVoid_eq, inside, found]
  rw [locate, if_neg proper, wayTo] at located
  rw [locate, if_neg (Path.join_ne_empty proper name), wayTo, start]
  generalize (if path.toList.head? == some '/' then [] else files.working) = way at located ⊢
  obtain ⟨first, rest, joined, ends | ⟨whole, _⟩⟩ := Path.exists_pieces_join proper entry
  · rw [joined, ← List.append_assoc]
    rw [ends, ← List.append_assoc] at located
    cases before : follow (way ++ first :: rest) files.root [] with
    | error reason => cases (follow_append_of_error before [""]).symm.trans located
    | ok reached =>
        obtain ⟨enclosing, onward⟩ := exists_follow_append before
        rw [onward] at located ⊢
        cases reached with
        | file content => cases located
        | directory others =>
            cases located
            exact last enclosing
  · rw [whole] at located
    obtain ⟨enclosing, onward⟩ := exists_follow_append located
    rw [joined, ← List.append_assoc, onward]
    exact last enclosing

/-- Names joined one after the other lead where the entries of these names lead. -/
theorem locate_foldl_join {files : FileSystem} {tree reached : Tree} {path : String}
    {names : List String} (below : Below tree names reached) (wellFormed : tree.WellFormed)
    (located : files.locate path = .ok tree) :
    files.locate (names.foldl Path.join path) = .ok reached := by
  induction below generalizing path with
  | here tree => exact located
  | entry listed _ ih =>
      cases wellFormed with
      | directory distinct named inner =>
          exact ih (inner _ listed)
            (locate_join located (named _ listed) (Fields.get?_eq_some_of_mem distinct listed))

end FileSystem

/-! ## The files that a directory stands for -/

namespace Tree

/-- Files are those that a directory stands for: the files at any depth below it whose names end in
`.lua`, with something before that, each once and in the order of components. -/
structure Collected (path : String) (entries : List (String × Tree)) (files : List String) : Prop where
  exactly : ∀ file, file ∈ files ↔ ∃ names name content,
    Below (.directory entries) (names ++ [name]) (.file content) ∧
    (∃ stem, stem ≠ "" ∧ name = stem ++ ".lua") ∧ file = (names ++ [name]).foldl Path.join path
  once : files.Nodup
  ascending : files.Pairwise Path.Precedes

theorem collected_filesBelow {path : String} (proper : path ≠ "") {entries : List (String × Tree)}
    (wellFormed : (Tree.directory entries).WellFormed) :
    Collected path entries (filesBelow isSource path entries) := by
  have ascending : (filesBelow isSource path entries).Pairwise Path.Precedes := by
    rw [← filesAt_directory path path]
    exact filesAt_ascending wellFormed proper path
  refine ⟨?_, ?_, ascending⟩
  · intro file
    rw [← filesAt_directory path path, mem_filesAt wellFormed]
    constructor
    · rintro ⟨names, content, below, accepted, rfl⟩
      obtain rfl | ⟨names, name, rfl⟩ := List.eq_nil_or_concat names
      · cases below
      · rw [List.concat_eq_append] at *
        rw [List.getLast?_concat, Option.getD_some] at accepted
        have entry := below.isEntry wellFormed name (by simp)
        exact ⟨names, name, content, below, entry.isSource_iff.mp accepted, rfl⟩
    · rintro ⟨names, name, content, below, ending, rfl⟩
      have entry := below.isEntry wellFormed name (by simp)
      refine ⟨_, content, below, ?_, rfl⟩
      rw [List.getLast?_concat, Option.getD_some]
      exact entry.isSource_iff.mpr ending
  · refine ascending.imp ?_
    rintro file _ before rfl
    exact Path.Precedes.irrefl file before

end Tree

namespace FileSystem

open GlobalAudit.Tree

/-- A path that leads to a directory and is no pattern is accepted. It stands for the Lua files below the
directory, each once and in the order of components, and each of them is found again by its path. -/
theorem select_directory {files : FileSystem} {path : String} {entries : List (String × Tree)}
    (located : files.locate path = .ok (.directory entries))
    (wellFormed : (Tree.directory entries).WellFormed) (plain : pattern? path = none) :
    ∃ chosen, files.select [path] = .ok chosen ∧ Collected path entries chosen ∧
      ∀ file ∈ chosen, ∃ content, files.locate file = .ok (.file content) := by
  have collected := collected_filesBelow (ne_empty_of_locate located) wellFormed
  refine ⟨_, ?_, collected, ?_⟩
  · have one : files.selectOne path = .ok (filesBelow isSource path entries) := by
      unfold selectOne
      simp only [plain, located]
    rw [select, List.mapM_cons, one, List.mapM_nil]
    exact congrArg Except.ok (List.append_nil _)
  · intro file member
    obtain ⟨names, name, content, below, _, rfl⟩ := (collected.exactly file).mp member
    exact ⟨content, locate_foldl_join below wellFormed located⟩

/-- Names of which one begins another, a directory named like a file, and a file whose name is the
extension alone. -/
def nestedEntries : List (String × Tree) :=
  [("a.lua", .file []), ("a-b", .directory [("k.lua", .file [])]),
    ("a", .directory [("z.lua", .file []), (".lua", .file [])]), ("x.lua", .directory [])]

theorem wellFormed_nestedEntries : (Tree.directory nestedEntries).WellFormed := by
  have leaf {name : String} (entry : Path.IsEntry name) :
      (Tree.directory [(name, .file [])]).WellFormed :=
    .directory (List.nodup_singleton _) (List.forall_mem_singleton.mpr entry)
      (List.forall_mem_singleton.mpr (.file []))
  refine .directory (show List.Nodup ["a.lua", "a-b", "a", "x.lua"] by decide) ?_ ?_
  · simp only [nestedEntries, List.forall_mem_cons]
    exact ⟨by decide, by decide, by decide, by decide, List.forall_mem_nil _⟩
  · simp only [nestedEntries, List.forall_mem_cons]
    refine ⟨.file [], leaf (by decide), ?_, .directory List.nodup_nil (List.forall_mem_nil _)
      (List.forall_mem_nil _), List.forall_mem_nil _⟩
    refine .directory (show List.Nodup ["z.lua", ".lua"] by decide) ?_ ?_
    · simp only [List.forall_mem_cons]
      exact ⟨by decide, by decide, List.forall_mem_nil _⟩
    · simp only [List.forall_mem_cons]
      exact ⟨.file [], .file [], List.forall_mem_nil _⟩

/-- The entries in a directory of the working directory. -/
def nestedFiles : FileSystem :=
  ⟨.directory [("home", .directory [("src", .directory nestedEntries)])], ["home"]⟩

/-- What is below `a` comes before what is below `a-b`, though a dash comes before a slash. -/
theorem select_nestedEntries :
    nestedFiles.locate "src" = .ok (.directory nestedEntries) ∧
      (Tree.directory nestedEntries).WellFormed ∧ pattern? "src" = none ∧
      Path.Precedes "src/a/z.lua" "src/a-b/k.lua" ∧
      ∃ chosen, nestedFiles.select ["src"] = .ok chosen ∧
        "src/a/z.lua" ∈ chosen ∧ "src/a-b/k.lua" ∈ chosen ∧ chosen.Pairwise Path.Precedes := by
  have located : nestedFiles.locate "src" = .ok (.directory nestedEntries) := rfl
  have components : Path.components "src/a/z.lua" = [.name "src", .name "a", .name "z.lua"] ∧
      Path.components "src/a-b/k.lua" = [.name "src", .name "a-b", .name "k.lua"] := by decide
  obtain ⟨chosen, selected, collected, _⟩ :=
    select_directory located wellFormed_nestedEntries (by decide)
  refine ⟨located, wellFormed_nestedEntries, by decide, ?_, chosen, selected, ?_, ?_,
    collected.ascending⟩
  · rw [Path.Precedes, components.1, components.2]
    exact .cons (.rel (.name (Text.bytes_lt_bytes_iff.mpr (by decide))))
  · refine (collected.exactly _).mpr ⟨["a"], "z.lua", [], ?_, ⟨"z", by decide, rfl⟩, rfl⟩
    exact .entry (List.mem_of_getElem? (i := 2) rfl) (.entry List.mem_cons_self (.here _))
  · refine (collected.exactly _).mpr ⟨["a-b"], "k.lua", [], ?_, ⟨"k", by decide, rfl⟩, rfl⟩
    exact .entry (List.mem_of_getElem? (i := 1) rfl) (.entry List.mem_cons_self (.here _))

/-- A directory whose name has a star. -/
def starredDirectory : FileSystem := ⟨.directory [("a*", .directory [("x.lua", .file [])])], []⟩

/-- Its path is read as a pattern, which no file matches. -/
theorem starredDirectory_not_collected :
    starredDirectory.select ["a*"] = .error (.noMatch "a*") ∧
      ¬ ∀ (files : FileSystem) (path : String) (entries : List (String × Tree)),
        files.locate path = .ok (.directory entries) → (Tree.directory entries).WellFormed →
        ∃ chosen, files.select [path] = .ok chosen ∧ Collected path entries chosen := by
  have refused : starredDirectory.select ["a*"] = .error (.noMatch "a*") := by
    have unmatched : matching "a*" "." [("a*", .directory [("x.lua", .file [])])] = [] := by
      rw [matching, sorted, List.mergeSort_singleton]
      rfl
    have located : starredDirectory.locate "." =
        .ok (.directory [("a*", .directory [("x.lua", .file [])])]) := rfl
    have parent : Path.parent "a*" = "" := by decide
    have expanded : starredDirectory.expand "a*" "a*" = .error (.noMatch "a*") := by
      simp only [expand, parent, beq_self_eq_true, if_true, located, unmatched]
    have pattern : pattern? "a*" = some "a*" := by decide
    have one : starredDirectory.selectOne "a*" = .error (.noMatch "a*") := by
      unfold selectOne
      simp only [pattern, expanded]
    rw [select, List.mapM_cons, one]
    rfl
  refine ⟨refused, ?_⟩
  intro collects
  have wellFormed : (Tree.directory [("x.lua", .file [])]).WellFormed :=
    .directory (List.nodup_singleton _) (List.forall_mem_singleton.mpr (by decide))
      (List.forall_mem_singleton.mpr (.file []))
  obtain ⟨chosen, selected, _⟩ := collects starredDirectory "a*" _ rfl wellFormed
  cases refused.symm.trans selected

end FileSystem

end GlobalAudit
