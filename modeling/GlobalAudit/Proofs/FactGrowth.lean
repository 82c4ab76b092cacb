import GlobalAudit.Proofs.Passage

/-! What a walk adds to the facts about modules. A required module is added behind the others, the
module that is returned is settled before the first instruction, and what locals stand for changes
only where aliases are settled or a module is required. -/
namespace GlobalAudit

/-- Requires are added at the end, and the module that is returned stays. -/
structure Facts.Grows (before after : Facts) : Prop where
  requires : before.requires <+: after.requires
  returned : after.returned = before.returned

namespace Facts.Grows

theorem refl (facts : Facts) : Grows facts facts := ⟨List.prefix_rfl, rfl⟩

theorem trans {first second third : Facts} (early : Grows first second) (late : Grows second third) :
    Grows first third :=
  ⟨early.requires.trans late.requires, late.returned.trans early.returned⟩

end Facts.Grows

namespace Walk

/-- What locals stand for, the aliases, the requires and the module that is returned stay. -/
structure Steady (before after : Walk) : Prop where
  registers : after.registers = before.registers
  aliases : after.facts.aliases = before.facts.aliases
  requires : after.facts.requires = before.facts.requires
  returned : after.facts.returned = before.facts.returned

theorem Steady.refl (walk : Walk) : Steady walk walk := ⟨rfl, rfl, rfl, rfl⟩

theorem Steady.grows {before after : Walk} (steady : Steady before after) :
    before.facts.Grows after.facts :=
  ⟨steady.requires ▸ List.prefix_rfl, steady.returned⟩

variable (survey : Survey) (instruction : Instruction) (ahead : List Instruction) (walk : Walk)

theorem dropAnchor_steady (register : Int) : Steady walk (walk.dropAnchor register) := by
  rw [dropAnchor]
  split
  · split <;> exact ⟨rfl, rfl, rfl, rfl⟩
  · exact .refl walk

theorem upvalueField_steady (upvalue field : String) (isWrite : Bool) :
    Steady walk (walk.upvalueField instruction upvalue field isWrite) := by
  rw [upvalueField]
  split
  · exact .refl walk
  · dsimp only
    split <;> exact ⟨rfl, rfl, rfl, rfl⟩

theorem globalWrite_steady : Steady walk (walk.globalWrite survey instruction) := by
  rw [globalWrite]
  split
  · exact .refl walk
  · exact upvalueField_steady instruction walk _ _ true
  · split <;> exact ⟨rfl, rfl, rfl, rfl⟩

theorem tableRead_steady : Steady walk (walk.tableRead instruction) := by
  rw [tableRead]
  split
  · exact .refl walk
  · rename_i table _
    split
    · exact dropAnchor_steady walk _
    · have base := baseOf_fst instruction walk table
      split
      · rename_i found
        rw [found] at base
        rcases base with rfl | ⟨rfl, _⟩ <;> exact ⟨rfl, rfl, rfl, rfl⟩
      · rename_i found
        rw [found] at base
        rcases base with rfl | ⟨_, used⟩
        · exact dropAnchor_steady _ _
        · cases used

theorem tableWrite_steady : Steady walk (walk.tableWrite instruction) := by
  rw [tableWrite]
  split
  · exact .refl walk
  · have base := baseOf_fst instruction walk instruction.a
    split
    · rename_i found
      rw [found] at base
      rcases base with rfl | ⟨rfl, _⟩ <;> exact ⟨rfl, rfl, rfl, rfl⟩
    · rename_i found
      rw [found] at base
      rcases base with rfl | ⟨_, used⟩
      · exact .refl _
      · cases used

theorem upvalueRead_steady : Steady walk (walk.upvalueRead instruction) := by
  rw [upvalueRead]
  split
  · exact .refl walk
  · split <;> exact ⟨rfl, rfl, rfl, rfl⟩

theorem upvalueWrite_steady : Steady walk (walk.upvalueWrite survey instruction) := by
  rw [upvalueWrite]
  split
  · exact .refl walk
  · split <;> exact ⟨rfl, rfl, rfl, rfl⟩

/-- A read of a global changes them only where it calls for a module. -/
theorem globalRead_steady :
    Steady walk (walk.globalRead survey instruction ahead) ∨
      ∃ loaded, Steady walk loaded ∧
        walk.globalRead survey instruction ahead = loaded.requireCall survey instruction ahead := by
  rw [globalRead]
  split
  · exact .inl (.refl walk)
  · exact .inl (upvalueField_steady instruction walk _ _ false)
  · dsimp only
    split
    · refine .inr ⟨_, ?_, rfl⟩
      exact ⟨rfl, rfl, rfl, rfl⟩
    · left
      split
      · rw [moduleCall]
        split <;> exact ⟨rfl, rfl, rfl, rfl⟩
      · split <;> exact ⟨rfl, rfl, rfl, rfl⟩

theorem act_steady (role : Role) :
    Steady walk (walk.act survey role instruction ahead) ∨
      ∃ loaded, Steady walk loaded ∧
        walk.act survey role instruction ahead = loaded.requireCall survey instruction ahead := by
  cases role with
  | globalRead => exact globalRead_steady survey instruction ahead walk
  | globalWrite => exact .inl (globalWrite_steady survey instruction walk)
  | tableRead => exact .inl (tableRead_steady instruction walk)
  | tableWrite => exact .inl (tableWrite_steady instruction walk)
  | upvalueRead => exact .inl (upvalueRead_steady instruction walk)
  | upvalueWrite => exact .inl (upvalueWrite_steady survey instruction walk)
  | call => exact .inl ⟨rfl, rfl, rfl, rfl⟩
  | loadConstant | vararg | «return» | other => exact .inl (.refl walk)

/-- Giving an alias changes no facts but the aliases. -/
theorem promote_grows (register : Int) (index : Nat) (target : Option String) (atStart : Bool) :
    walk.facts.Grows (walk.promote register index target atStart).1.facts := by
  rw [promote]
  split
  · exact .refl _
  · split
    · exact .refl _
    · exact ⟨List.prefix_rfl, rfl⟩

theorem requireCall_grows : walk.facts.Grows (walk.requireCall survey instruction ahead).facts := by
  rw [requireCall]
  split
  · exact .refl _
  · rename_i name call _
    have added (promoted : Walk) (receiver : Option String) :
        promoted.facts.Grows (promoted.facts.addRequire instruction.line name receiver) :=
      ⟨List.prefix_append _ _, rfl⟩
    by_cases single : call.c = some 2
    · simp only [if_pos single]
      exact (promote_grows walk call.a call.index none false).trans (added _ _)
    · simp only [if_neg single]
      exact added walk none

theorem step_grows : walk.facts.Grows (walk.step survey instruction ahead).facts := by
  have settled : walk.facts.Grows (walk.settled survey instruction).facts := by
    rw [settled_facts]
    exact ⟨List.prefix_rfl, rfl⟩
  refine settled.trans ?_
  rcases act_steady survey instruction ahead (walk.settled survey instruction)
    (survey.role instruction) with steady | ⟨loaded, steady, calls⟩
  · exact steady.grows
  · have called := steady.grows.trans (requireCall_grows survey instruction ahead loaded)
    rw [← calls] at called
    exact called

theorem run_grows (code : List Instruction) : walk.facts.Grows (walk.run survey code).facts := by
  induction code generalizing walk with
  | nil => exact .refl _
  | cons instruction ahead ih => exact (step_grows survey instruction ahead walk).trans (ih _)

end Walk

/-- Functions behind the first return no module. -/
theorem Survey.functions_grows (survey : Survey) (functions : List Function) (facts : Facts) :
    facts.Grows (survey.functions false functions facts).2 := by
  induction functions generalizing facts with
  | nil => exact .refl facts
  | cons function rest ih =>
      rw [functions_cons_facts]
      exact (Walk.run_grows survey (Walk.start function.registers facts) _).trans (ih _)

end GlobalAudit
