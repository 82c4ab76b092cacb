import GlobalAudit.Proofs.AliasSettling

/-!
# How long an alias is expected

An instruction that loads a table with a name makes an alias be expected for its register, in the place
of one that was expected there before. So in every state of a walk each register has one expected alias
at most, whatever the indices of the instructions are. When the indices grow, the next instruction
settles all that is expected: it gives the name to a local or, if it is a call, drops it.
-/
namespace GlobalAudit

namespace Walk

/-- Gives the name of an expected alias to the local in its register. -/
def give (index : Nat) (atStart : Bool) (walk : Walk) (entry : Pending) : Walk :=
  (walk.promote entry.register index (some entry.name) atStart).1

variable (survey : Survey) (instruction : Instruction) (walk : Walk)

/-- The expected aliases that an instruction gives to locals. -/
def due : List Pending :=
  if survey.role instruction = .call then []
  else walk.pending.filter fun entry => entry.madeAt < instruction.index

theorem mem_due {entry : Pending} : entry ∈ walk.due survey instruction ↔
    survey.role instruction ≠ .call ∧ entry ∈ walk.pending ∧ entry.madeAt < instruction.index := by
  rw [due]
  split <;> simp [*]

/-- Giving names does not tell the start of the function from what is behind it. -/
theorem foldl_give (index : Nat) (entries : List Pending) :
    entries.foldl (fun walk entry => give index walk.atStart walk entry) walk =
      entries.foldl (give index walk.atStart) walk := by
  induction entries generalizing walk with
  | nil => rfl
  | cons entry rest ih =>
      have same : (give index walk.atStart walk entry).atStart = walk.atStart :=
        (promote_calm walk _ _ _ _).atStart
      rw [List.foldl_cons, List.foldl_cons, ih, same]

/-- Settling gives the names that are due one after the other. -/
theorem settle_eq_foldl_give : walk.settle (survey.role instruction == .call) instruction =
    (walk.due survey instruction).foldl (give instruction.index walk.atStart)
      { walk with pending := walk.fresh instruction } := by
  by_cases call : survey.role instruction = .call
  · rw [settle, due, if_pos call, if_pos (beq_iff_eq.mpr call)]
    rfl
  · rw [settle, due, if_neg call, if_neg (by simpa using call)]
    exact foldl_give _ instruction.index _

/-- No register has two expected aliases. -/
def OnePerRegister (walk : Walk) : Prop := (walk.pending.map Pending.register).Nodup

/-- A new alias takes the place of the one that its register had. -/
theorem OnePerRegister.step {walk : Walk} (one : walk.OnePerRegister) (survey : Survey)
    (instruction : Instruction) (ahead : List Instruction) :
    (walk.step survey instruction ahead).OnePerRegister := by
  have fresh : ((walk.fresh instruction).map Pending.register).Nodup :=
    one.sublist (List.filter_sublist.map _)
  rw [OnePerRegister]
  rcases step_pending survey instruction ahead walk with kept | ⟨name, _, replaced⟩
  · rwa [kept]
  · rw [replaced, List.map_append, List.nodup_append]
    refine ⟨fresh.sublist (List.filter_sublist.map _), List.nodup_singleton _, ?_⟩
    rintro _ kept _ last rfl
    obtain ⟨entry, other, rfl⟩ := List.mem_map.mp kept
    rw [List.map_singleton, List.mem_singleton] at last
    exact bne_iff_ne.mp (List.mem_filter.mp other).2 last

end Walk

namespace Passage

variable {passage : Passage} {position : Nat} {instruction : Instruction}

theorem walk_onePerRegister (passage : Passage) (position : Nat) :
    (passage.walk position).OnePerRegister := by
  induction position with
  | zero =>
      rw [Walk.OnePerRegister, (begin_calm passage).pending]
      exact List.nodup_nil
  | succ position ih =>
      cases found : passage.code[position]? with
      | none => rwa [walk_succ_of_none found]
      | some instruction =>
          rw [walk_succ found]
          exact ih.step _ _ _

/-- Aliases are expected behind the first instruction only. -/
theorem atStart_eq_false_of_mem {entry : Pending} (expected : entry ∈ (passage.walk position).pending) :
    (passage.walk position).atStart = false := by
  induction position with
  | zero =>
      rw [(begin_calm passage).pending] at expected
      cases expected
  | succ position ih =>
      cases found : passage.code[position]? with
      | none =>
          rw [walk_succ_of_none found] at expected ⊢
          exact ih expected
      | some instruction =>
          rw [walk_succ found]
          rfl

/-- So what is due is given as behind the start of the function. -/
theorem settle_eq_foldl_give_false :
    (passage.walk position).settle (passage.survey.role instruction == .call) instruction =
      ((passage.walk position).due passage.survey instruction).foldl
        (Walk.give instruction.index false)
        { passage.walk position with pending := (passage.walk position).fresh instruction } := by
  rw [Walk.settle_eq_foldl_give]
  cases due : (passage.walk position).due passage.survey instruction with
  | nil => rfl
  | cons entry rest =>
      have member : entry ∈ (passage.walk position).due passage.survey instruction :=
        due ▸ List.mem_cons_self
      have behind := atStart_eq_false_of_mem ((Walk.mem_due _ _ _).mp member).2.1
      exact congrArg (fun atStart => List.foldl (Walk.give instruction.index atStart) _ _) behind

/-- Where an alias comes from: the instruction at a position has loaded what it is to stand for. -/
def MadeAt (passage : Passage) (source : Nat) (entry : Pending) : Prop :=
  ∃ origin, passage.code[source]? = some origin ∧ passage.loads? source = some entry.name ∧
    entry.register = origin.a ∧ entry.madeAt = origin.index

/-- Growing indices tell instructions apart. -/
theorem Increasing.eq_of_index_eq (increasing : passage.Increasing) {first second : Nat}
    {early late : Instruction} (found : passage.code[first]? = some early)
    (foundToo : passage.code[second]? = some late) (same : early.index = late.index) :
    first = second := by
  rcases Nat.lt_trichotomy first second with before | equal | behind
  · exact absurd same (Nat.ne_of_lt (increasing.index_lt before found foundToo))
  · exact equal
  · exact absurd same.symm (Nat.ne_of_lt (increasing.index_lt behind foundToo found))

theorem MadeAt.source_eq (increasing : passage.Increasing) {first second : Nat} {entry : Pending}
    (made : passage.MadeAt first entry) (madeToo : passage.MadeAt second entry) : first = second := by
  obtain ⟨early, found, _, _, index⟩ := made
  obtain ⟨late, foundToo, _, _, indexToo⟩ := madeToo
  exact increasing.eq_of_index_eq found foundToo (index.symm.trans indexToo)

/-- With growing indices one alias at most is expected, and the instruction just before has made it. -/
theorem Increasing.pending (increasing : passage.Increasing) (within : position ≤ passage.code.length) :
    (passage.walk position).pending.length ≤ 1 ∧
      ∀ entry ∈ (passage.walk position).pending, ∃ source, position = source + 1 ∧
        passage.MadeAt source entry := by
  cases expects_of_increasing increasing within with
  | nothing none => simp [none]
  | one found loads only =>
      rw [only]
      refine ⟨le_rfl, List.forall_mem_singleton.mpr ?_⟩
      exact ⟨_, rfl, _, found, loads, rfl, rfl⟩

/-- Each register has one expected alias at most before every instruction, and an instruction that is
no call gives those of smaller index to locals, never at the start of the function. With growing
indices one alias at most is expected at all; the instruction just before has made it, and so an
alias is given to a local by the instruction directly behind its load or by none. -/
theorem expected_aliases_live_once (passage : Passage) :
    (∀ position, (passage.walk position).OnePerRegister) ∧
      (∀ position instruction,
        (passage.walk position).settle (passage.survey.role instruction == .call) instruction =
            ((passage.walk position).due passage.survey instruction).foldl
              (Walk.give instruction.index false)
              { passage.walk position with pending := (passage.walk position).fresh instruction } ∧
          ∀ entry ∈ (passage.walk position).due passage.survey instruction,
            passage.survey.role instruction ≠ .call ∧ (passage.walk position).atStart = false) ∧
      (passage.Increasing →
        (∀ position ≤ passage.code.length, (passage.walk position).pending.length ≤ 1 ∧
          ∀ entry ∈ (passage.walk position).pending, ∃ source, position = source + 1 ∧
            passage.MadeAt source entry) ∧
        ∀ position instruction, passage.code[position]? = some instruction →
          (passage.walk position).fresh instruction = [] ∧
          ∀ entry ∈ (passage.walk position).due passage.survey instruction,
            ∀ source, passage.MadeAt source entry → position = source + 1) := by
  refine ⟨walk_onePerRegister passage, ?_, ?_⟩
  · intro position instruction
    refine ⟨settle_eq_foldl_give_false, ?_⟩
    intro entry given
    obtain ⟨notCall, expected, _⟩ := (Walk.mem_due _ _ _).mp given
    exact ⟨notCall, atStart_eq_false_of_mem expected⟩
  · intro increasing
    refine ⟨fun _ => increasing.pending, ?_⟩
    intro position instruction found
    refine ⟨(expects_of_found increasing found).fresh increasing found, ?_⟩
    intro entry given source made
    obtain ⟨inside, _⟩ := List.getElem?_eq_some_iff.mp found
    obtain ⟨_, expected, _⟩ := (Walk.mem_due _ _ _).mp given
    obtain ⟨last, rfl, madeToo⟩ := (increasing.pending (Nat.le_of_lt inside)).2 entry expected
    rw [made.source_eq increasing madeToo]

/-- The alias of the library is given by the second instruction and by no other. -/
theorem libraryInLocal_given_once :
    libraryInLocal.Increasing ∧ libraryInLocal.MadeAt 0 ⟨0, "string", 1⟩ ∧
      (libraryInLocal.walk 1).due libraryInLocal.survey ⟨2, 1, .loadNil, 1, some 1, none, none⟩ =
        [⟨0, "string", 1⟩] ∧
      (libraryInLocal.walk 1).atStart = false ∧
      ∀ position instruction, libraryInLocal.code[position]? = some instruction →
        ⟨0, "string", 1⟩ ∈ (libraryInLocal.walk position).due libraryInLocal.survey instruction →
        position = 1 := by
  have increasing : libraryInLocal.Increasing := by
    rw [Increasing]
    decide
  have made : libraryInLocal.MadeAt 0 ⟨0, "string", 1⟩ := ⟨_, rfl, by decide, rfl, rfl⟩
  have due : (libraryInLocal.walk 1).due libraryInLocal.survey
      ⟨2, 1, .loadNil, 1, some 1, none, none⟩ = [⟨0, "string", 1⟩] := by decide
  obtain ⟨_, settles, lives⟩ := expected_aliases_live_once libraryInLocal
  refine ⟨increasing, made, due, ((settles 1 _).2 _ (due ▸ List.mem_cons_self)).2, ?_⟩
  intro position instruction found given
  exact ((lives increasing).2 position instruction found).2 _ given 0 made

end Passage

end GlobalAudit
