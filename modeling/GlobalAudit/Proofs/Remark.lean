import GlobalAudit.Bytecode.Remark
import GlobalAudit.Catalog.Document

/-! Reading the comments that the compiler writes behind global accesses: the name itself, or the
name of the environment and the name in quotes. -/
namespace GlobalAudit

/-- A character that stands for itself in words and in quotes. -/
def Remark.IsPlain (c : Char) : Prop := Text.isBlank c = false ∧ c ≠ '"' ∧ c ≠ '\\'

theorem Remark.isPlain_of_toNat {c : Char} (low : 48 ≤ c.toNat) (high : c.toNat ≤ 122)
    (noEscape : c.toNat ≠ 92) : IsPlain c := by
  refine ⟨?_, ?_, ?_⟩
  · simp only [Text.isBlank, Bool.or_eq_false_iff, Bool.and_eq_false_iff, decide_eq_false_iff_not,
      beq_eq_false_iff_ne]
    omega
  · rintro rfl
    exact absurd low (by decide)
  · rintro rfl
    exact noEscape rfl

theorem Catalog.isPlain_of_isWordStart {c : Char} (start : isWordStart c = true) :
    Remark.IsPlain c := by
  have letter : (c.isUpper || c.isLower || c == '_') = true := start
  rw [Bool.or_eq_true, Bool.or_eq_true, beq_iff_eq] at letter
  rcases letter with (upper | lower) | rfl
  · have bounds : 65 ≤ c.toNat ∧ c.toNat ≤ 90 := of_decide_eq_true upper
    exact Remark.isPlain_of_toNat (by omega) (by omega) (by omega)
  · have bounds : (decide (97 ≤ c.toNat) && decide (c.toNat ≤ 122)) = true := lower
    rw [Bool.and_eq_true, decide_eq_true_eq, decide_eq_true_eq] at bounds
    exact Remark.isPlain_of_toNat (by omega) (by omega) (by omega)
  · exact Remark.isPlain_of_toNat (by decide) (by decide) (by decide)

theorem Catalog.isPlain_of_isDigit {c : Char} (digit : c.isDigit = true) : Remark.IsPlain c := by
  obtain ⟨low, high⟩ := Char.isDigit_iff_toNat.mp digit
  have above : 48 ≤ c.toNat := low
  have below : c.toNat ≤ 57 := high
  exact Remark.isPlain_of_toNat (by omega) (by omega) (by omega)

/-- The characters of an identifier, of which there is at least one. -/
theorem Catalog.isPlain_of_isIdentifier {name : String} (identifier : isIdentifier name = true) :
    (∃ first rest, name.toList = first :: rest) ∧ ∀ c ∈ name.toList, Remark.IsPlain c := by
  rw [isIdentifier] at identifier
  split at identifier
  · cases identifier
  · rename_i first rest chars
    rw [Bool.and_eq_true, List.all_eq_true] at identifier
    refine ⟨⟨first, rest, chars⟩, ?_⟩
    rw [chars]
    intro c member
    rcases List.mem_cons.mp member with rfl | later
    · exact isPlain_of_isWordStart identifier.1
    · rcases Bool.or_eq_true .. |>.mp (identifier.2 c later) with start | digit
      · exact isPlain_of_isWordStart start
      · exact isPlain_of_isDigit digit

namespace Remark

/-- Characters that each go to the end of the open value all go there. -/
theorem foldl_step_grows (done : List Remark) (grown : String → Scan) {chars : List Char}
    (pushes : ∀ c ∈ chars, ∀ value, step ⟨done, grown value⟩ c = ⟨done, grown (value.push c)⟩)
    (value : String) :
    chars.foldl step ⟨done, grown value⟩ = ⟨done, grown (value ++ String.ofList chars)⟩ := by
  induction chars generalizing value with
  | nil => simp
  | cons c rest ih =>
      obtain ⟨pushed, later⟩ := List.forall_mem_cons.1 pushes
      have joined : value.push c ++ String.ofList rest = value ++ String.ofList (c :: rest) := by
        apply String.toList_inj.mp
        simp
      rw [List.foldl_cons, pushed, ih later, joined]

theorem foldl_step_word (done : List Remark) (value : String) {chars : List Char}
    (solid : ∀ c ∈ chars, Text.isBlank c = false) :
    chars.foldl step ⟨done, .word value⟩ = ⟨done, .word (value ++ String.ofList chars)⟩ := by
  apply foldl_step_grows done .word
  intro c member value
  simp [step, solid c member]

/-- A word is read from its first character on. -/
theorem foldl_step_first {first : Char} {rest : List Char} (done : List Remark)
    (noQuote : first ≠ '"') (solid : ∀ c ∈ first :: rest, Text.isBlank c = false) :
    (first :: rest).foldl step ⟨done, .gap⟩ = ⟨done, .word (String.ofList (first :: rest))⟩ := by
  obtain ⟨noBlank, solidRest⟩ := List.forall_mem_cons.1 solid
  have opened : step ⟨done, .gap⟩ first = ⟨done, .word (String.singleton first)⟩ := by
    simp [step, stepGap, noBlank, noQuote]
  have joined : String.singleton first ++ String.ofList rest = String.ofList (first :: rest) := by
    apply String.toList_inj.mp
    simp
  rw [List.foldl_cons, opened, foldl_step_word done _ solidRest, joined]

theorem foldl_step_quoted (done : List Remark) (value : String) {chars : List Char}
    (plain : ∀ c ∈ chars, IsPlain c) :
    chars.foldl step ⟨done, .quoted value⟩ = ⟨done, .quoted (value ++ String.ofList chars)⟩ := by
  apply foldl_step_grows done .quoted
  intro c member value
  obtain ⟨_, noQuote, noEscape⟩ := plain c member
  simp [step, stepQuoted, noQuote, noEscape]

theorem ofComment_identifier {name : String} (identifier : Catalog.isIdentifier name = true) :
    ofComment name.toList = [.word name] := by
  obtain ⟨⟨first, rest, chars⟩, plain⟩ := Catalog.isPlain_of_isIdentifier identifier
  have noQuote : first ≠ '"' := (plain first (chars ▸ List.mem_cons_self)).2.1
  rw [chars] at plain
  rw [chars, ofComment, foldl_step_first [] noQuote fun c member => (plain c member).1, ← chars,
    String.ofList_toList]
  rfl

/-- The environment and a quoted identifier, before whatever follows a blank. -/
theorem foldl_step_environment {name : String} (identifier : Catalog.isIdentifier name = true)
    (rest : List Char) :
    ("_ENV \"".toList ++ (name.toList ++ '"' :: rest)).foldl step ⟨[], .gap⟩ =
      rest.foldl step ⟨[.word "_ENV", .text name], .gap⟩ := by
  have plain := (Catalog.isPlain_of_isIdentifier identifier).2
  have opened : "_ENV \"".toList.foldl step ⟨[], .gap⟩ = ⟨[.word "_ENV"], .quoted ""⟩ := rfl
  have closed : step ⟨[.word "_ENV"], .quoted ("" ++ String.ofList name.toList)⟩ '"' =
      ⟨[.word "_ENV", .text name], .gap⟩ := by
    simp [step, stepQuoted]
  rw [List.foldl_append, List.foldl_append, opened, foldl_step_quoted _ _ plain, List.foldl_cons,
    closed]

theorem ofComment_environment {name : String} (identifier : Catalog.isIdentifier name = true) :
    ofComment ("_ENV \"" ++ name ++ "\"").toList = [.word "_ENV", .text name] := by
  have chars : ("_ENV \"" ++ name ++ "\"").toList =
      "_ENV \"".toList ++ (name.toList ++ '"' :: []) := by
    simp
  rw [ofComment, chars, foldl_step_environment identifier]
  rfl

theorem ofComment_environment_dash {name : String}
    (identifier : Catalog.isIdentifier name = true) :
    ofComment ("_ENV \"" ++ name ++ "\" -").toList = [.word "_ENV", .text name, .word "-"] := by
  have chars : ("_ENV \"" ++ name ++ "\" -").toList =
      "_ENV \"".toList ++ (name.toList ++ '"' :: [' ', '-']) := by
    simp
  rw [ofComment, chars, foldl_step_environment identifier]
  rfl

end Remark

end GlobalAudit
