import GlobalAudit.Files.Selection
import GlobalAudit.Proofs.ByteOrder
import GlobalAudit.Proofs.Text
import Mathlib.Data.List.Lex

/-!
# Components of paths

A path is compared component by component: the root comes first, then a dot in front, then double dots,
then names in the order of bytes. Joining a name to a path adds one component behind the others.
-/
namespace GlobalAudit

namespace Text

theorem cutLast?_append {mark : Char} {after : List Char} (absent : mark ∉ after)
    (before : List Char) : cutLast? mark (before ++ mark :: after) = some (before, after) := by
  have reversed : (before ++ mark :: after).reverse = after.reverse ++ mark :: before.reverse := by
    simp
  rw [cutLast?, reversed, cut?_append (mt List.mem_reverse.mp absent)]
  simp

theorem eq_of_cutLast?_eq_some {mark : Char} {text before after : List Char}
    (found : cutLast? mark text = some (before, after)) : text = before ++ mark :: after := by
  obtain ⟨⟨late, early⟩, cut, same⟩ := Option.map_eq_some_iff.mp found
  obtain ⟨rfl, rfl⟩ := Prod.mk.inj same
  rw [← List.reverse_reverse text, (cut?_eq_some cut).1]
  simp

end Text

namespace Path

/-! ## Names of entries -/

/-- A name that an entry of a directory can have. -/
structure IsEntry (name : String) : Prop where
  named : isName name = true
  single : '/' ∉ name.toList

instance (name : String) : Decidable (IsEntry name) :=
  decidable_of_iff ((isName name && !name.toList.contains '/') = true)
    ⟨fun h => ⟨by simp_all, by simp_all⟩, fun ⟨named, single⟩ => by simp_all⟩

theorem IsEntry.pieces_eq {name : String} (entry : IsEntry name) : pieces name = [name] := by
  rw [pieces, Text.splitOn_of_not_mem entry.single]
  simp

theorem IsEntry.fileName?_eq {name : String} (entry : IsEntry name) : fileName? name = some name := by
  simp [fileName?, body, entry.pieces_eq, trimEnd, entry.named]

/-- A name has an extension if it ends in a dot and that extension, with something in front. -/
theorem IsEntry.extension?_eq_some_iff {name ending : String} (entry : IsEntry name)
    (plain : '.' ∉ ending.toList) :
    extension? name = some ending ↔ ∃ stem, stem ≠ "" ∧ name = stem ++ ("." ++ ending) := by
  rw [extension?, entry.fileName?_eq]
  constructor
  · intro found
    dsimp only at found
    split at found
    · rename_i stem rest cut
      split at found
      · cases found
      · rename_i nonempty
        obtain rfl := Option.some.inj found
        refine ⟨String.ofList stem, by simpa using nonempty, ?_⟩
        rw [← String.toList_inj, Text.eq_of_cutLast?_eq_some cut]
        simp
    · cases found
  · rintro ⟨stem, nonempty, rfl⟩
    have chars : (stem ++ ("." ++ ending)).toList = stem.toList ++ '.' :: ending.toList := by simp
    have some : stem.toList.isEmpty = false := by simpa using nonempty
    simp only [chars, Text.cutLast?_append plain, some, Bool.false_eq_true, if_false,
      String.ofList_toList]

theorem IsEntry.isSource_iff {name : String} (entry : IsEntry name) :
    Tree.isSource name = true ↔ ∃ stem, stem ≠ "" ∧ name = stem ++ ".lua" := by
  rw [Tree.isSource, beq_iff_eq, entry.extension?_eq_some_iff (by decide)]
  exact Iff.rfl

/-! ## Components -/

inductive Component where
  | root
  | here
  | up
  | name (text : String)
  deriving DecidableEq, Repr

namespace Component

/-- The kinds of components in their order. -/
def rank : Component → Nat
  | .root => 0
  | .here => 1
  | .up => 2
  | .name _ => 3

inductive Before : Component → Component → Prop where
  | kind {first second : Component} (lower : first.rank < second.rank) : Before first second
  | name {first second : String} (less : Text.bytes first < Text.bytes second) :
      Before (.name first) (.name second)

theorem Before.irrefl (component : Component) : ¬ Before component component := by
  intro before
  cases before with
  | kind lower => exact Nat.lt_irrefl _ lower
  | name less => exact List.lt_irrefl _ less

/-- The component that a piece behind the first one stands for. -/
def ofPiece (piece : String) : Component := if piece = ".." then .up else .name piece

/-- The components that the first piece stands for, with or without others behind it. -/
def ofFirst (piece : String) (alone : Bool) : List Component :=
  if piece = "" then if alone then [] else [.root]
  else if piece = "." then [.here]
  else [ofPiece piece]

end Component

/-- The components of a path that is cut into pieces. -/
def componentsOf : List String → List Component
  | [] => []
  | first :: rest =>
    Component.ofFirst first rest.isEmpty ++
      (rest.filter fun piece => !isVoid piece).map Component.ofPiece

def components (path : String) : List Component := componentsOf (pieces path)

/-- One path comes before another in the order of components. -/
def Precedes (first second : String) : Prop :=
  List.Lex Component.Before (components first) (components second)

theorem Precedes.irrefl (path : String) : ¬ Precedes path path :=
  List.lex_irrefl Component.Before.irrefl _

/-! ## Joining -/

theorem pieces_append (directory name : String) :
    pieces (directory ++ "/" ++ name) = pieces directory ++ pieces name := by
  have chars : (directory ++ "/" ++ name).toList = directory.toList ++ '/' :: name.toList := by simp
  rw [pieces, chars, List.splitOn_eq_splitOnP, List.splitOnP_append_cons _ _ (by simp),
    List.map_append, ← List.splitOn_eq_splitOnP, ← List.splitOn_eq_splitOnP]
  rfl

theorem pieces_ne_nil (path : String) : pieces path ≠ [] := by
  simp [pieces, List.splitOn_eq_splitOnP, List.splitOnP_ne_nil]

theorem eq_empty_of_pieces {path : String} (one : pieces path = [""]) : path = "" := by
  have chars : path.toList.splitOn '/' = [[]] := by
    obtain ⟨piece, whole, same⟩ := List.map_eq_singleton_iff.mp one
    rw [whole, String.ofList_eq_empty_iff.mp same]
  have joined : List.intercalate ['/'] (path.toList.splitOn '/') = path.toList :=
    List.intercalate_splitOn '/'
  rw [chars, List.intercalate_singleton] at joined
  exact String.toList_eq_nil_iff.mp joined.symm

/-- A joined path has the name as one more piece. It takes the place of an empty piece if the path ends
in a slash. -/
theorem exists_pieces_join {path name : String} (proper : path ≠ "") (entry : IsEntry name) :
    ∃ first rest, pieces (join path name) = first :: rest ++ [name] ∧
      (pieces path = first :: rest ++ [""] ∨
        pieces path = first :: rest ∧ (first = "" → rest ≠ [])) := by
  rw [join]
  split
  · rename_i ends
    have slash : path.toList.getLast? = some '/' := by simpa [proper] using ends
    obtain ⟨front, chars⟩ := List.getLast?_eq_some_iff.mp slash
    have split : path = String.ofList front ++ "/" := by
      rw [← String.toList_inj, chars]
      simp
    obtain ⟨first, rest, cut⟩ := List.exists_cons_of_ne_nil (pieces_ne_nil (String.ofList front))
    refine ⟨first, rest, ?_, .inl ?_⟩
    · rw [split, pieces_append, entry.pieces_eq, cut]
    · have whole := pieces_append (String.ofList front) ""
      rw [String.append_empty, ← split, cut] at whole
      exact whole
  · obtain ⟨first, rest, cut⟩ := List.exists_cons_of_ne_nil (pieces_ne_nil path)
    refine ⟨first, rest, ?_, .inr ⟨cut, ?_⟩⟩
    · rw [pieces_append, entry.pieces_eq, cut]
    · rintro rfl rfl
      exact proper (eq_empty_of_pieces cut)

theorem IsEntry.isVoid_eq {name : String} (entry : IsEntry name) : isVoid name = false := by
  have named := entry.named
  simp_all [isName, isVoid]

theorem IsEntry.ofPiece_eq {name : String} (entry : IsEntry name) :
    Component.ofPiece name = .name name := by
  have named := entry.named
  simp_all [isName, Component.ofPiece]

theorem componentsOf_concat (first : String) (rest : List String) (piece : String) :
    componentsOf (first :: rest ++ [piece]) = Component.ofFirst first false ++
      (rest.filter fun piece => !isVoid piece).map Component.ofPiece ++
      if isVoid piece then [] else [Component.ofPiece piece] := by
  have more : (rest ++ [piece]).isEmpty = false := by simp
  rw [List.cons_append, componentsOf, more, List.filter_append, List.map_append,
    ← List.append_assoc]
  cases void : isVoid piece <;> simp [void]

theorem components_join {path name : String} (proper : path ≠ "") (entry : IsEntry name) :
    components (join path name) = components path ++ [.name name] := by
  obtain ⟨first, rest, joined, ends | ⟨whole, nontrivial⟩⟩ := exists_pieces_join proper entry
  · rw [components, components, joined, ends, componentsOf_concat, componentsOf_concat,
      entry.isVoid_eq, entry.ofPiece_eq]
    simp [isVoid]
  · have lead : Component.ofFirst first rest.isEmpty = Component.ofFirst first false := by
      by_cases empty : first = ""
      · rw [List.isEmpty_eq_false_iff.mpr (nontrivial empty)]
      · simp [Component.ofFirst, empty]
    rw [components, components, joined, whole, componentsOf_concat, componentsOf, lead,
      entry.isVoid_eq, entry.ofPiece_eq]
    rfl

theorem join_ne_empty {path : String} (proper : path ≠ "") (name : String) : join path name ≠ "" := by
  rw [join]
  split <;> simp [proper]

/-- Names joined one after the other are the components behind those of the path. -/
theorem components_foldl_join {path : String} (proper : path ≠ "") {names : List String}
    (entries : ∀ name ∈ names, IsEntry name) :
    components (names.foldl join path) = components path ++ names.map .name := by
  induction names generalizing path with
  | nil => rw [List.foldl_nil, List.map_nil, List.append_nil]
  | cons name rest ih =>
      obtain ⟨entry, later⟩ := List.forall_mem_cons.mp entries
      rw [List.foldl_cons, ih (join_ne_empty proper name) later, components_join proper entry,
        List.append_assoc]
      rfl

end Path

end GlobalAudit
