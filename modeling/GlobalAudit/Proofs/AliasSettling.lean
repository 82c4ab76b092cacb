import GlobalAudit.Proofs.Passage
import GlobalAudit.Proofs.RegisterRecovery

/-! Which locals become aliases of what was loaded. An instruction that loads something with a name
leads to expect an alias, and the next instruction settles it: the local in the register becomes the
alias. A local whose declaration starts one instruction later counts as being in the register
already, so what it finally holds may have been put there by the settling instruction. -/
namespace GlobalAudit

/-! ## What a register holds -/

namespace Registers

variable {registers : Registers} {slot index position : Nat} {var : LocalVariable}

theorem mem_candidates (found : (position, var) ∈ registers.candidates slot) :
    position ∈ registers.bySlot.getD slot [] ∧ registers.locals[position]? = some var := by
  obtain ⟨member, _⟩ := List.mem_filter.mp found
  obtain ⟨place, inside, here⟩ := List.mem_filterMap.mp member
  obtain ⟨held, there, same⟩ := Option.map_eq_some_iff.mp here
  cases same
  exact ⟨inside, there⟩

theorem mem_of_latest? {candidates : List (Nat × LocalVariable)} {best : Nat × LocalVariable}
    (found : latest? candidates = some best) : best ∈ candidates := by
  induction candidates using List.reverseRecOn with
  | nil => cases found
  | append_singleton candidates last ih =>
      rw [latest?, List.foldl_concat] at found
      split at found
      · cases found
        exact List.mem_append_right _ (List.mem_singleton_self _)
      · rename_i kept before
        split at found
        · cases found
          exact List.mem_append_right _ (List.mem_singleton_self _)
        · exact List.mem_append_left _ (ih found)

/-- Behind the first instruction a register is found to hold one of its locals, and the declaration
of that local starts at the next instruction at the latest. -/
theorem start_le_of_find? (found : registers.find? slot index false = some position) :
    position ∈ registers.bySlot.getD slot [] ∧
      ∃ var, registers.locals[position]? = some var ∧ var.start ≤ index + 1 := by
  simp only [find?, Bool.false_eq_true, if_false] at found
  split at found
  · rename_i candidate first
    obtain ⟨place, var⟩ := candidate
    cases found
    obtain ⟨inside, there⟩ := mem_candidates (List.mem_of_find?_eq_some first)
    have declared : var.isDeclaredAt index = true := by simpa using List.find?_some first
    rw [LocalVariable.isDeclaredAt_iff] at declared
    exact ⟨inside, var, there, by omega⟩
  · obtain ⟨⟨place, var⟩, latest, rfl⟩ := Option.map_eq_some_iff.mp found
    obtain ⟨member, live⟩ := List.mem_filter.mp (mem_of_latest? latest)
    obtain ⟨inside, there⟩ := mem_candidates member
    have started : var.start - 1 ≤ index := by
      have both := (Bool.and_eq_true _ _).mp live
      exact of_decide_eq_true both.1
    exact ⟨inside, var, there, by omega⟩

/-- Where positions are kept by register, they are those of locals in that register. -/
theorem Indexed.slot_eq (indexed : registers.Indexed)
    (inside : position ∈ registers.bySlot.getD slot [])
    (there : registers.locals[position]? = some var) : var.slot = slot := by
  rw [indexed slot] at inside
  obtain ⟨entry, scanned, rfl⟩ := List.mem_map.mp inside
  obtain ⟨member, same⟩ := List.mem_filter.mp scanned
  cases (List.mem_zipIdx_iff_getElem?.mp member).symm.trans there
  exact beq_iff_eq.mp same

/-- Positions are kept by register without regard to what locals stand for. -/
theorem SameVariables.indexed {first second : Registers} (same : SameVariables first second)
    (indexed : first.Indexed) : second.Indexed := by
  have positions (registers : Registers) (slot : Nat) :
      (registers.scan slot).map Prod.snd =
        (((registers.locals.map LocalVariable.unmarked).zipIdx).filter
          fun entry => entry.1.slot == slot).map Prod.snd := by
    rw [scan, List.zipIdx_map, List.filter_map, List.map_map]
    rfl
  intro slot
  rw [positions, same.locals, ← positions, same.bySlot]
  exact indexed slot

end Registers

/-- Giving an alias marks the local that the register holds. -/
theorem Walk.promote_registers {walk : Walk} {register : Int} {index place : Nat} {atStart : Bool}
    {var : LocalVariable} {target : Option String}
    (holds : walk.local? register index atStart = some place)
    (there : walk.registers.locals[place]? = some var) :
    (walk.promote register index target atStart).1.registers =
      walk.registers.promote place target := by
  rw [promote, holds]
  simp only [there]

/-- It reads and changes the registers only. -/
theorem Walk.promote_registers_of_eq {first second : Walk} {register : Int} {index : Nat}
    {target : Option String} {atStart : Bool} (same : first.registers = second.registers) :
    (first.promote register index target atStart).1.registers =
      (second.promote register index target atStart).1.registers := by
  simp only [promote, local?, same]
  split
  · exact same
  · split
    · exact same
    · rfl

namespace Passage

variable {passage : Passage}

/-- A walk changes nothing about the variables of a function but what they stand for. -/
theorem walk_sameVariables (position : Nat) :
    passage.function.registers.SameVariables (passage.walk position).registers := by
  induction position with
  | zero =>
      rw [walk_zero]
      exact (Survey.begin_effect passage.survey _ _ _).sameVariables
  | succ position ih =>
      cases found : passage.code[position]? with
      | none => rwa [walk_succ_of_none found]
      | some instruction =>
          rw [walk_succ found]
          exact ih.trans (Walk.step_effect passage.survey instruction _ _).sameVariables

/-! ## Expected aliases -/

/-- Instructions with growing indices. -/
def Increasing (passage : Passage) : Prop :=
  passage.code.Pairwise fun earlier later => earlier.index < later.index

theorem Increasing.index_lt (increasing : passage.Increasing) {early late : Nat}
    {first second : Instruction} (before : early < late)
    (foundFirst : passage.code[early]? = some first)
    (foundSecond : passage.code[late]? = some second) : first.index < second.index := by
  obtain ⟨insideFirst, rfl⟩ := List.getElem?_eq_some_iff.mp foundFirst
  obtain ⟨insideSecond, rfl⟩ := List.getElem?_eq_some_iff.mp foundSecond
  exact List.pairwise_iff_getElem.mp increasing early late insideFirst insideSecond before

/-- The aliases expected before a position: none, or one that the instruction just before has made
for what it loaded. -/
inductive Expects (passage : Passage) : Nat → Prop where
  | nothing {position : Nat} (none : (passage.walk position).pending = []) : Expects passage position
  | one {source : Nat} {origin : Instruction} {name : String}
      (found : passage.code[source]? = some origin) (loads : passage.loads? source = some name)
      (only : (passage.walk (source + 1)).pending = [⟨origin.a, name, origin.index⟩]) :
      Expects passage (source + 1)

/-- When the indices grow, every expected alias is of an earlier instruction. -/
theorem Expects.fresh (increasing : passage.Increasing) {position : Nat}
    {instruction : Instruction} (found : passage.code[position]? = some instruction)
    (expects : passage.Expects position) : (passage.walk position).fresh instruction = [] := by
  cases expects with
  | nothing none => rw [Walk.fresh, none, List.filter_nil]
  | one before _ only =>
      have earlier := increasing.index_lt (Nat.lt_succ_self _) before found
      simp [Walk.fresh, only, earlier]

/-- So an alias is expected for one instruction only. -/
theorem expects_of_increasing (increasing : passage.Increasing) {position : Nat}
    (within : position ≤ passage.code.length) : passage.Expects position := by
  induction position with
  | zero => exact .nothing (begin_calm passage).pending
  | succ position ih =>
      obtain ⟨instruction, found⟩ : ∃ instruction, passage.code[position]? = some instruction :=
        ⟨passage.code[position], List.getElem?_eq_getElem within⟩
      have fresh := (ih (Nat.le_of_lt within)).fresh increasing found
      rcases Walk.step_pending passage.survey instruction (passage.code.drop (position + 1))
        (passage.walk position) with kept | ⟨name, loads, only⟩
      · rw [← walk_succ found, fresh] at kept
        exact .nothing kept
      · rw [← walk_succ found, fresh] at only
        rw [← loads?_of_found found] at loads
        exact .one found loads only

theorem expects_of_found (increasing : passage.Increasing) {position : Nat}
    {instruction : Instruction} (found : passage.code[position]? = some instruction) :
    passage.Expects position := by
  obtain ⟨inside, _⟩ := List.getElem?_eq_some_iff.mp found
  exact expects_of_increasing increasing (Nat.le_of_lt inside)

/-! ## Settling -/

/-- An expected alias is given to a local: the instruction is no call, and the local is what the
register is found to hold there. -/
structure Settlement (passage : Passage) where
  position : Nat
  instruction : Instruction
  entry : Pending
  place : Nat
  var : LocalVariable
  found : passage.code[position]? = some instruction
  notCall : passage.survey.role instruction ≠ .call
  expected : entry ∈ (passage.walk position).pending
  ready : entry.madeAt < instruction.index
  holds : (passage.walk position).local? entry.register instruction.index
    (passage.walk position).atStart = some place
  local_eq : (passage.walk position).registers.locals[place]? = some var

section Registers

variable {position : Nat} {instruction : Instruction}

theorem settled_registers_of_call (call : passage.survey.role instruction = .call) :
    ((passage.walk position).settled passage.survey instruction).registers =
      (passage.walk position).registers := by
  obtain ⟨anchor, same⟩ := Walk.exists_settled_eq passage.survey instruction (passage.walk position)
  rw [same, call]
  rfl

theorem settled_registers_of_nothing (none : (passage.walk position).pending = []) :
    ((passage.walk position).settled passage.survey instruction).registers =
      (passage.walk position).registers := by
  obtain ⟨anchor, same⟩ := Walk.exists_settled_eq passage.survey instruction (passage.walk position)
  simp only [same, Walk.settle, none, List.filter_nil, List.foldl_nil, ite_self]

theorem settled_registers_of_one {entry : Pending}
    (notCall : passage.survey.role instruction ≠ .call)
    (only : (passage.walk position).pending = [entry]) (ready : entry.madeAt < instruction.index) :
    ((passage.walk position).settled passage.survey instruction).registers =
      ((passage.walk position).promote entry.register instruction.index (some entry.name)
        (passage.walk position).atStart).1.registers := by
  obtain ⟨anchor, same⟩ := Walk.exists_settled_eq passage.survey instruction (passage.walk position)
  have plain : (passage.survey.role instruction == .call) = false := beq_false_of_ne notCall
  simp only [same, plain, Walk.settle, only, List.filter_cons, ready, decide_true, if_true,
    List.filter_nil, List.foldl_cons, List.foldl_nil, Bool.false_eq_true, if_false]
  exact Walk.promote_registers_of_eq rfl

end Registers

namespace Settlement

/-- The expected alias is of the instruction just before. -/
theorem exists_source (increasing : passage.Increasing) (settlement : passage.Settlement) :
    ∃ source origin, settlement.position = source + 1 ∧ passage.code[source]? = some origin ∧
      passage.loads? source = some settlement.entry.name ∧
      settlement.entry = ⟨origin.a, settlement.entry.name, origin.index⟩ ∧
      (passage.walk settlement.position).pending = [settlement.entry] := by
  obtain ⟨position, instruction, entry, place, var, found, notCall, expected, ready, holds, there⟩ :=
    settlement
  cases expects_of_found increasing found with
  | nothing none =>
      rw [none] at expected
      cases expected
  | @one source origin name before loads only =>
      rw [only, List.mem_singleton] at expected
      subst expected
      exact ⟨source, origin, rfl, before, loads, rfl, only⟩

/-- Settling marks the local in its place with the name that was loaded, and nothing else. -/
theorem registers_eq (increasing : passage.Increasing) (settlement : passage.Settlement) :
    ((passage.walk settlement.position).settled passage.survey settlement.instruction).registers =
      (passage.walk settlement.position).registers.promote settlement.place
        (some settlement.entry.name) := by
  obtain ⟨source, origin, _, _, _, _, only⟩ := settlement.exists_source increasing
  obtain ⟨position, instruction, entry, place, var, found, notCall, expected, ready, holds, there⟩ :=
    settlement
  dsimp only at only ⊢
  rw [settled_registers_of_one notCall only ready]
  exact Walk.promote_registers holds there

/-- Where settling changes what a local stands for, an expected alias is given to a local. -/
theorem exists_of_changed (increasing : passage.Increasing) {position : Nat}
    {instruction : Instruction} (found : passage.code[position]? = some instruction)
    (changed : ((passage.walk position).settled passage.survey instruction).registers ≠
      (passage.walk position).registers) :
    ∃ settlement : passage.Settlement, settlement.position = position ∧
      settlement.instruction = instruction := by
  by_cases call : passage.survey.role instruction = .call
  · exact absurd (settled_registers_of_call call) changed
  · cases expects_of_found increasing found with
    | nothing none => exact absurd (settled_registers_of_nothing none) changed
    | @one source origin name before loads only =>
        have ready := increasing.index_lt (Nat.lt_succ_self source) before found
        rw [settled_registers_of_one call only ready, Walk.promote] at changed
        split at changed
        · exact absurd rfl changed
        · rename_i place holds
          split at changed
          · exact absurd rfl changed
          · rename_i var there
            exact ⟨⟨source + 1, instruction, _, place, var, found, call,
              only ▸ List.mem_singleton_self _, ready, holds, there⟩, rfl, rfl⟩

/-- The local is in the register of the expected alias, and its declaration starts at the settling
instruction, before it or directly behind it. -/
theorem slot_eq_and_start_le (increasing : passage.Increasing)
    (indexed : passage.function.registers.Indexed) (settlement : passage.Settlement) :
    (settlement.var.slot : Int) = settlement.entry.register ∧
      settlement.var.start ≤ settlement.instruction.index + 1 := by
  obtain ⟨source, origin, next, before, _, _, _⟩ := settlement.exists_source increasing
  obtain ⟨position, instruction, entry, place, var, found, notCall, expected, ready, holds, there⟩ :=
    settlement
  dsimp only at next ⊢
  subst next
  have behind : (passage.walk (source + 1)).atStart = false := by rw [walk_succ before]; rfl
  rw [behind, Walk.local?] at holds
  obtain ⟨slot, register, holds⟩ := Option.bind_eq_some_iff.mp holds
  obtain ⟨inside, other, here, start⟩ := Registers.start_le_of_find? holds
  cases there.symm.trans here
  have slots := ((walk_sameVariables (source + 1)).indexed indexed).slot_eq inside there
  have number : entry.register = slot := by
    cases numeral : entry.register with
    | ofNat found =>
        rw [numeral] at register
        exact congrArg Int.ofNat (Option.some.inj register)
    | negSucc found =>
        rw [numeral] at register
        cases register
  exact ⟨by rw [slots, number], start⟩

/-- Behind the load and not behind the settling instruction there is only that one. -/
theorem eq_of_between (increasing : passage.Increasing) (settlement : passage.Settlement)
    (start : settlement.var.start ≤ settlement.instruction.index + 1) {other : Instruction}
    (member : other ∈ passage.code) (later : settlement.entry.madeAt < other.index)
    (earlier : other.index < settlement.var.start) : other = settlement.instruction := by
  obtain ⟨source, origin, next, before, _, entry, _⟩ := settlement.exists_source increasing
  obtain ⟨place, found⟩ := List.mem_iff_getElem?.mp member
  have made : settlement.entry.madeAt = origin.index := by rw [entry]
  rcases Nat.lt_trichotomy place settlement.position with left | here | right
  · have back : place = source ∨ place < source := by omega
    rcases back with rfl | back
    · cases before.symm.trans found
      omega
    · have := increasing.index_lt back found before
      omega
  · subst here
    exact Option.some.inj (found.symm.trans settlement.found)
  · have := increasing.index_lt right settlement.found found
    omega

end Settlement

/-- A local becomes an alias at the instruction behind the one that loaded the name. Nothing has been
stored into its register between that and its declaration, unless the declaration starts behind the
settling instruction and this one stores there itself. -/
theorem settlement_holds_loaded_iff (passage : Passage) (increasing : passage.Increasing)
    (indexed : passage.function.registers.Indexed) :
    (∀ position instruction, passage.code[position]? = some instruction →
        ((passage.walk position).settled passage.survey instruction).registers ≠
          (passage.walk position).registers →
        ∃ settlement : passage.Settlement, settlement.position = position ∧
          settlement.instruction = instruction) ∧
      ∀ settlement : passage.Settlement,
        (∃ source origin, settlement.position = source + 1 ∧ passage.code[source]? = some origin ∧
            passage.loads? source = some settlement.entry.name ∧
            settlement.entry = ⟨origin.a, settlement.entry.name, origin.index⟩) ∧
          (settlement.var.slot : Int) = settlement.entry.register ∧
          ((passage.walk settlement.position).settled passage.survey
              settlement.instruction).registers =
            (passage.walk settlement.position).registers.promote settlement.place
              (some settlement.entry.name) ∧
          ((∀ other ∈ passage.code, settlement.entry.madeAt < other.index →
              other.index < settlement.var.start → other.overwrites settlement.var.slot = false) ↔
            settlement.var.start ≤ settlement.instruction.index ∨
              settlement.instruction.overwrites settlement.var.slot = false) := by
  refine ⟨fun _ _ => Settlement.exists_of_changed increasing, ?_⟩
  intro settlement
  obtain ⟨source, origin, next, before, loads, entry, _⟩ := settlement.exists_source increasing
  obtain ⟨slot, start⟩ := settlement.slot_eq_and_start_le increasing indexed
  refine ⟨⟨source, origin, next, before, loads, entry⟩, slot, settlement.registers_eq increasing, ?_⟩
  constructor
  · intro untouched
    by_cases declared : settlement.var.start ≤ settlement.instruction.index
    · exact .inl declared
    · right
      exact untouched _ (List.mem_of_getElem? settlement.found) settlement.ready (by omega)
  · intro spared other member later earlier
    have here : other = settlement.instruction :=
      settlement.eq_of_between increasing start member later earlier
    subst here
    rcases spared with declared | spared
    · omega
    · exact spared

/-- A catalog with one library. -/
def oneLibrary : Catalog := ⟨[("string", .table [])]⟩

/-- Of two locals that are declared together the first takes a library and the second nothing. -/
def libraryInLocal : Passage where
  survey := ⟨.lua51, oneLibrary⟩
  isMain := true
  function :=
    { header := "main <t.lua:0,0>"
      instructions :=
        [⟨1, 1, .getGlobal, 0, some (-1), none, some "string"⟩,
         ⟨2, 1, .loadNil, 1, some 1, none, none⟩,
         ⟨3, 1, .return, 0, some 1, none, none⟩]
      registers := Registers.ofDeclarations [⟨0, "s", 3, 4⟩, ⟨1, "t", 3, 4⟩] }
  facts := .empty

/-- The first becomes an alias before its declaration starts, and nothing is stored over the
library. -/
theorem libraryInLocal_holds_library :
    libraryInLocal.Increasing ∧ libraryInLocal.function.registers.Indexed ∧
      ∃ settlement : libraryInLocal.Settlement, settlement.position = 1 ∧
        settlement.entry = ⟨0, "string", 1⟩ ∧ settlement.var = ⟨0, 0, "s", 3, 4, none⟩ ∧
        ∀ other ∈ libraryInLocal.code, settlement.entry.madeAt < other.index →
          other.index < settlement.var.start → other.overwrites settlement.var.slot = false := by
  have increasing : libraryInLocal.Increasing := by
    rw [Increasing]
    decide
  have indexed : libraryInLocal.function.registers.Indexed := Registers.indexed_ofDeclarations _
  let settlement : libraryInLocal.Settlement :=
    { position := 1
      instruction := ⟨2, 1, .loadNil, 1, some 1, none, none⟩
      entry := ⟨0, "string", 1⟩
      place := 0
      var := ⟨0, 0, "s", 3, 4, none⟩
      found := rfl
      notCall := by decide
      expected := by decide
      ready := by decide
      holds := by decide
      local_eq := by decide }
  obtain ⟨_, _, _, spared⟩ :=
    (settlement_holds_loaded_iff libraryInLocal increasing indexed).2 settlement
  exact ⟨increasing, indexed, settlement, rfl, rfl, rfl, spared.mpr (.inr (by decide))⟩

/-- A local takes the length of a library; the library itself was in its register just before. -/
def lengthOfLibrary : Passage where
  survey := ⟨.lua51, oneLibrary⟩
  isMain := true
  function :=
    { header := "main <t.lua:0,0>"
      instructions :=
        [⟨1, 1, .getGlobal, 0, some (-1), none, some "string"⟩,
         ⟨2, 1, .len, 0, some 0, none, none⟩,
         ⟨3, 1, .return, 0, some 1, none, none⟩]
      registers := Registers.ofDeclarations [⟨0, "n", 3, 4⟩] }
  facts := .empty

/-- The local holds a number, yet it becomes an alias of the library. -/
theorem lengthOfLibrary_becomes_alias :
    ((lengthOfLibrary.walk 3).registers.locals.map fun var => (var.name, var.target)) =
        [("n", some "string")] ∧
      ¬ ∀ passage : Passage,
        passage.code.map Instruction.index = List.range' 1 passage.code.length →
        passage.function.registers.Indexed → ∀ settlement : passage.Settlement,
        ∀ other ∈ passage.code, settlement.entry.madeAt < other.index →
          other.index < settlement.var.start → other.overwrites settlement.var.slot = false := by
  refine ⟨by decide, ?_⟩
  intro untouched
  let settlement : lengthOfLibrary.Settlement :=
    { position := 1
      instruction := ⟨2, 1, .len, 0, some 0, none, none⟩
      entry := ⟨0, "string", 1⟩
      place := 0
      var := ⟨0, 0, "n", 3, 4, none⟩
      found := rfl
      notCall := by decide
      expected := by decide
      ready := by decide
      holds := by decide
      local_eq := by decide }
  have free := untouched lengthOfLibrary (by decide) (Registers.indexed_ofDeclarations _) settlement
    ⟨2, 1, .len, 0, some 0, none, none⟩ (by decide) (by decide) (by decide)
  exact absurd free (by decide)

end Passage

end GlobalAudit
