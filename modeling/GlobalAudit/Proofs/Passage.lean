import GlobalAudit.Proofs.Walk

/-! What an instruction does to a walk, and the walk before each instruction of a function. An
instruction refers to one name at most. It may load something with a name into register A; that is
then the anchor, and a local may be expected to become its alias. Any other instruction leaves the
anchor as it is, marks it as called, or loses it. -/
namespace GlobalAudit

def Role.isWrite : Role → Bool
  | .globalWrite => true
  | .tableWrite => true
  | _ => false

namespace Walk

/-! ## The names in an instruction -/

/-- The name of the global that an instruction reaches, or of the field of an upvalue that is an
alias. -/
def targetName? (survey : Survey) (instruction : Instruction) (walk : Walk) : Option String :=
  match survey.dialect.target? instruction with
  | none => none
  | some (.global name) => some name
  | some (.field upvalue field) =>
    (Alias.find? upvalue walk.facts.aliases).map fun known => Dotted.extend known.target field

/-- The name of a field of what a register holds. -/
def fieldName? (register : Int) (instruction : Instruction) (walk : Walk) : Option String :=
  instruction.constant?.bind fun key =>
    (walk.baseOf register instruction).2.map fun base => Dotted.extend base key

/-- The name that an instruction refers to. -/
def referred? (survey : Survey) (role : Role) (instruction : Instruction) (walk : Walk) :
    Option String :=
  match role with
  | .globalRead => walk.targetName? survey instruction
  | .globalWrite =>
    if survey.dialect.target? instruction = some (.global endOfGlobalsName) then none
    else walk.targetName? survey instruction
  | .tableRead => instruction.b.bind fun table => walk.fieldName? table instruction
  | .tableWrite => walk.fieldName? instruction.a instruction
  | _ => none

/-- The name of what an instruction loads into register A: what it refers to when it reads, or what
an upvalue stands for. -/
def loaded? (survey : Survey) (role : Role) (instruction : Instruction) (walk : Walk) :
    Option String :=
  match role with
  | .globalRead => walk.referred? survey .globalRead instruction
  | .tableRead => walk.referred? survey .tableRead instruction
  | .upvalueRead =>
    (walk.upvalueName? instruction).bind fun upvalue =>
      (Alias.find? upvalue walk.facts.aliases).map Alias.target
  | _ => none

/-! ## What stays -/

/-- Anchor, expected aliases and references stay. -/
structure Calm (before after : Walk) : Prop where
  anchor : after.anchor = before.anchor
  pending : after.pending = before.pending
  references : after.facts.references = before.facts.references
  atStart : after.atStart = before.atStart

namespace Calm

theorem refl (walk : Walk) : Calm walk walk := ⟨rfl, rfl, rfl, rfl⟩

theorem trans {first second third : Walk} (early : Calm first second) (late : Calm second third) :
    Calm first third :=
  ⟨late.anchor.trans early.anchor, late.pending.trans early.pending,
    late.references.trans early.references, late.atStart.trans early.atStart⟩

end Calm

variable (survey : Survey) (instruction : Instruction) (ahead : List Instruction) (walk : Walk)

theorem promote_calm (register : Int) (index : Nat) (target : Option String) (atStart : Bool) :
    Calm walk (walk.promote register index target atStart).1 := by
  rw [promote]
  split
  · exact .refl walk
  · split
    · exact .refl walk
    · exact ⟨rfl, rfl, rfl, rfl⟩

theorem requireCall_calm : Calm walk (walk.requireCall survey instruction ahead) := by
  rw [requireCall]
  split
  · exact .refl walk
  · rename_i name call _
    by_cases single : call.c = some 2
    · simp only [if_pos single]
      refine (promote_calm walk call.a call.index none false).trans ?_
      exact ⟨rfl, rfl, rfl, rfl⟩
    · simp only [if_neg single]
      exact ⟨rfl, rfl, rfl, rfl⟩

theorem moduleCall_calm : Calm walk (walk.moduleCall survey instruction ahead) := by
  rw [moduleCall]
  split <;> exact ⟨rfl, rfl, rfl, rfl⟩

theorem upvalueWrite_calm : Calm walk (walk.upvalueWrite survey instruction) := by
  rw [upvalueWrite]
  split
  · exact .refl walk
  · split <;> exact ⟨rfl, rfl, rfl, rfl⟩

theorem returnedModule_calm (code : List Instruction) :
    Calm walk (walk.returnedModule survey code) := by
  rw [returnedModule]
  split
  · exact .refl walk
  · rename_i result _
    have promoted := promote_calm walk result.a result.index none false
    split
    · rename_i found
      rw [found] at promoted
      refine promoted.trans ?_
      exact ⟨rfl, rfl, rfl, rfl⟩
    · rename_i found
      rw [found] at promoted
      exact promoted

/-- The aliases that are still expected when those of earlier instructions are settled. -/
def fresh : List Pending := walk.pending.filter fun entry => !(entry.madeAt < instruction.index : Bool)

/-- Settling takes the entries of earlier instructions away, whether or not it gives aliases. -/
theorem settle_calm (isCall : Bool) :
    Calm { walk with pending := walk.fresh instruction } (walk.settle isCall instruction) := by
  apply settle_preserves instruction walk isCall
    (Calm { walk with pending := walk.fresh instruction })
  · exact .refl _
  · intro entry _ other calm
    exact calm.trans (promote_calm other _ _ _ _)

/-! ## What an instruction does to a settled walk -/

/-- An anchor that an instruction leaves to those behind it. A field read drops what its register A
held, unless it has no operand B. -/
structure Kept (role : Role) (instruction : Instruction) (old new : Anchor) : Prop where
  same : new = { old with called := new.called }
  uncalled : new.called = false → old.called = false ∧ role ≠ .call
  spared : role = .tableRead → instruction.b.isSome = true → old.register ≠ instruction.a

/-- The instruction was done: the reference it makes, the anchor when it loads something with a name
and otherwise what is left of the old one, and the alias that it may lead to expect. -/
structure Acted (survey : Survey) (role : Role) (instruction : Instruction) (before after : Walk) :
    Prop where
  references : after.facts.references = before.facts.references ++
    ((before.referred? survey role instruction).map fun name =>
      ⟨instruction.line, name, role.isWrite⟩).toList
  loads : ∀ name, before.loaded? survey role instruction = some name →
    after.anchor = some ⟨instruction.a, name, instruction.line, false⟩
  keeps : before.loaded? survey role instruction = none → ∀ anchor, after.anchor = some anchor →
    ∃ old, before.anchor = some old ∧ Kept role instruction old anchor
  pending : after.pending = before.pending ∨
    ∃ name, before.loaded? survey role instruction = some name ∧
      after.pending = before.pending.filter (fun entry => entry.register != instruction.a) ++
        [⟨instruction.a, name, instruction.index⟩]

namespace Acted

variable {survey instruction} {role : Role} {before after : Walk}

/-- An instruction that only makes a reference. -/
theorem ofReference (unloaded : before.loaded? survey role instruction = none)
    (notCall : role ≠ .call) (notRead : role ≠ .tableRead) (pending : after.pending = before.pending)
    (anchor : after.anchor = none ∨ after.anchor = before.anchor)
    (references : after.facts.references = before.facts.references ++
      ((before.referred? survey role instruction).map fun name =>
        ⟨instruction.line, name, role.isWrite⟩).toList) :
    Acted survey role instruction before after where
  references := references
  loads := by
    intro name loads
    cases unloaded.symm.trans loads
  keeps := by
    intro _ held found
    rcases anchor with lost | kept
    · cases lost.symm.trans found
    · exact ⟨held, kept.symm.trans found, rfl, fun uncalled => ⟨uncalled, notCall⟩,
        fun reads => absurd reads notRead⟩
  pending := .inl pending

/-- An instruction that does nothing to anchor, expected aliases and references. -/
theorem ofCalm (unloaded : before.loaded? survey role instruction = none)
    (silent : before.referred? survey role instruction = none) (notCall : role ≠ .call)
    (notRead : role ≠ .tableRead) (calm : Calm before after) :
    Acted survey role instruction before after := by
  refine ofReference unloaded notCall notRead calm.pending (.inr calm.anchor) ?_
  rw [silent, calm.references]
  simp

/-- An instruction that loads something with a name. -/
theorem ofLoad {name : String} (loads : before.loaded? survey role instruction = some name)
    (anchor : after.anchor = some ⟨instruction.a, name, instruction.line, false⟩)
    (pending : after.pending = before.pending ∨
      after.pending = before.pending.filter (fun entry => entry.register != instruction.a) ++
        [⟨instruction.a, name, instruction.index⟩])
    (references : after.facts.references = before.facts.references ++
      ((before.referred? survey role instruction).map fun name =>
        ⟨instruction.line, name, role.isWrite⟩).toList) :
    Acted survey role instruction before after where
  references := references
  loads := by
    intro other found
    cases loads.symm.trans found
    exact anchor
  keeps := by
    intro unloaded
    cases unloaded.symm.trans loads
  pending := pending.imp id fun expected => ⟨name, loads, expected⟩

/-- What comes after the load without touching what it left. -/
theorem andThen {between : Walk} (acted : Acted survey role instruction before between)
    (calm : Calm between after) : Acted survey role instruction before after where
  references := calm.references.trans acted.references
  loads := fun name loads => calm.anchor.trans (acted.loads name loads)
  keeps := fun unloaded anchor found => acted.keeps unloaded anchor (calm.anchor.symm.trans found)
  pending := acted.pending.imp calm.pending.trans
    fun ⟨name, loads, expected⟩ => ⟨name, loads, calm.pending.trans expected⟩

end Acted

theorem globalRead_acted :
    Acted survey .globalRead instruction walk (walk.globalRead survey instruction ahead) := by
  rw [globalRead]
  cases target : survey.dialect.target? instruction with
  | none =>
      have unnamed : walk.targetName? survey instruction = none := by rw [targetName?, target]
      exact .ofCalm unnamed unnamed (by decide) (by decide) (.refl walk)
  | some reached =>
      cases reached with
      | field upvalue field =>
          dsimp only
          rw [upvalueField]
          cases known : Alias.find? upvalue walk.facts.aliases with
          | none =>
              have unnamed : walk.targetName? survey instruction = none := by
                rw [targetName?, target]
                simp only [known, Option.map_none]
              exact .ofCalm unnamed unnamed (by decide) (by decide) (.refl walk)
          | some entry =>
              have named : walk.targetName? survey instruction =
                  some (Dotted.extend entry.target field) := by
                rw [targetName?, target]
                simp only [known, Option.map_some]
              refine .ofLoad named rfl (.inr rfl) ?_
              rw [referred?, named]
              rfl
      | global name =>
          have named : walk.targetName? survey instruction = some name := by
            rw [targetName?, target]
          have loaded (after : Walk) (anchor : after.anchor =
                some ⟨instruction.a, name, instruction.line, false⟩)
              (references : after.facts.references =
                walk.facts.references ++ [⟨instruction.line, name, false⟩])
              (pending : after.pending = walk.pending ∨
                after.pending = walk.pending.filter (fun entry => entry.register != instruction.a) ++
                  [⟨instruction.a, name, instruction.index⟩]) :
              Acted survey .globalRead instruction walk after := by
            refine .ofLoad named anchor pending ?_
            rw [references, referred?, named]
            rfl
          dsimp only
          split
          · refine .andThen ?_ (requireCall_calm survey instruction ahead _)
            exact loaded _ rfl rfl (.inl rfl)
          · split
            · refine .andThen ?_ (moduleCall_calm survey instruction ahead _)
              exact loaded _ rfl rfl (.inl rfl)
            · split
              · exact loaded _ rfl rfl (.inr rfl)
              · exact loaded _ rfl rfl (.inl rfl)

theorem globalWrite_acted :
    Acted survey .globalWrite instruction walk (walk.globalWrite survey instruction) := by
  have unloaded : walk.loaded? survey .globalWrite instruction = none := rfl
  rw [globalWrite]
  cases target : survey.dialect.target? instruction with
  | none =>
      have silent : walk.referred? survey .globalWrite instruction = none := by
        simp [referred?, targetName?, target]
      exact .ofCalm unloaded silent (by decide) (by decide) (.refl walk)
  | some reached =>
      cases reached with
      | field upvalue field =>
          dsimp only
          rw [upvalueField]
          cases known : Alias.find? upvalue walk.facts.aliases with
          | none =>
              have silent : walk.referred? survey .globalWrite instruction = none := by
                simp [referred?, targetName?, target, known]
              exact .ofCalm unloaded silent (by decide) (by decide) (.refl walk)
          | some entry =>
              refine .ofReference unloaded (by decide) (by decide) rfl (.inr rfl) ?_
              simp [referred?, targetName?, target, known, reference, Facts.addReference,
                Role.isWrite]
      | global name =>
          dsimp only
          split
          · rename_i marks
            have silent : walk.referred? survey .globalWrite instruction = none := by
              simp [referred?, target, marks]
            refine .ofCalm unloaded silent (by decide) (by decide) ?_
            exact ⟨rfl, rfl, rfl, rfl⟩
          · rename_i plain
            refine .ofReference unloaded (by decide) (by decide) rfl (.inr rfl) ?_
            simp [referred?, targetName?, target, plain, reference, Facts.addReference, Role.isWrite]

/-- Looking for the base of a field access keeps everything but an anchor that it uses up. -/
theorem baseOf_fst (register : Int) :
    (walk.baseOf register instruction).1 = walk ∨
      (walk.baseOf register instruction).1 = { walk with anchor := none } ∧
        (walk.baseOf register instruction).2.isSome = true := by
  rw [baseOf]
  split
  · split
    · exact .inr ⟨rfl, rfl⟩
    · exact .inl rfl
  · exact .inl rfl

/-- A field read that gives nothing with a name. -/
theorem dropAnchor_acted {walk : Walk}
    (unloaded : walk.loaded? survey .tableRead instruction = none) :
    Acted survey .tableRead instruction walk (walk.dropAnchor instruction.a) where
  references := by
    have silent : walk.referred? survey .tableRead instruction = none := unloaded
    rw [silent, dropAnchor]
    split
    · split <;> simp
    · simp
  loads := by
    intro name loads
    cases unloaded.symm.trans loads
  keeps := by
    intro _ anchor found
    rw [dropAnchor] at found
    split at found
    · rename_i old held
      split at found
      · cases found
      · rename_i elsewhere
        cases held.symm.trans found
        exact ⟨anchor, held, rfl, fun uncalled => ⟨uncalled, by decide⟩, fun _ _ => elsewhere⟩
    · rename_i free
      cases free.symm.trans found
  pending := by
    left
    rw [dropAnchor]
    split
    · split <;> rfl
    · rfl

theorem tableRead_acted :
    Acted survey .tableRead instruction walk (walk.tableRead instruction) := by
  rw [tableRead]
  cases operand : instruction.b with
  | none =>
      have silent : walk.referred? survey .tableRead instruction = none := by
        rw [referred?, operand, Option.bind_none]
      refine ⟨?_, ?_, ?_, .inl rfl⟩
      · rw [silent]
        simp
      · intro name loads
        cases silent.symm.trans loads
      · intro _ anchor found
        refine ⟨anchor, found, rfl, fun uncalled => ⟨uncalled, by decide⟩, ?_⟩
        rw [operand]
        intro _ present
        cases present
  | some table =>
      have read : walk.referred? survey .tableRead instruction = walk.fieldName? table instruction := by
        rw [referred?, operand, Option.bind_some]
      dsimp only
      cases key : instruction.constant? with
      | none =>
          apply dropAnchor_acted
          rw [loaded?, read, fieldName?, key, Option.bind_none]
      | some key' =>
          have base := baseOf_fst instruction walk table
          have name : walk.fieldName? table instruction =
              (walk.baseOf table instruction).2.map fun base => Dotted.extend base key' := by
            rw [fieldName?, key, Option.bind_some]
          generalize walk.baseOf table instruction = found at base name
          obtain ⟨rest, found⟩ := found
          cases found with
          | none =>
              rcases base with rfl | ⟨_, used⟩
              · apply dropAnchor_acted
                rw [loaded?, read, name]
                rfl
              · cases used
          | some base' =>
              have named : walk.referred? survey .tableRead instruction =
                  some (Dotted.extend base' key') := by rw [read, name]; rfl
              have kept : rest.pending = walk.pending ∧
                  rest.facts.references = walk.facts.references := by
                rcases base with rfl | ⟨rfl, _⟩
                · exact ⟨rfl, rfl⟩
                · exact ⟨rfl, rfl⟩
              refine .ofLoad named rfl (.inr ?_) ?_
              · dsimp only [load, setAnchor, expectAlias, reference]
                rw [kept.1]
              · dsimp only [load, setAnchor, expectAlias, reference, Facts.addReference]
                rw [kept.2, named]
                rfl

theorem tableWrite_acted :
    Acted survey .tableWrite instruction walk (walk.tableWrite instruction) := by
  have unloaded : walk.loaded? survey .tableWrite instruction = none := rfl
  rw [tableWrite]
  cases key : instruction.constant? with
  | none =>
      have silent : walk.referred? survey .tableWrite instruction = none := by
        rw [referred?, fieldName?, key, Option.bind_none]
      exact .ofCalm unloaded silent (by decide) (by decide) (.refl walk)
  | some key' =>
      have base := baseOf_fst instruction walk instruction.a
      have name : walk.referred? survey .tableWrite instruction =
          (walk.baseOf instruction.a instruction).2.map fun base => Dotted.extend base key' := by
        rw [referred?, fieldName?, key, Option.bind_some]
      dsimp only
      generalize walk.baseOf instruction.a instruction = found at base name
      obtain ⟨rest, found⟩ := found
      cases found with
      | none =>
          rcases base with rfl | ⟨_, used⟩
          · exact .ofCalm unloaded name (by decide) (by decide) (.refl rest)
          · cases used
      | some base' =>
          rcases base with rfl | ⟨rfl, _⟩
          · refine .ofReference unloaded (by decide) (by decide) rfl (.inr rfl) ?_
            rw [name]
            rfl
          · refine .ofReference unloaded (by decide) (by decide) rfl (.inl rfl) ?_
            rw [name]
            rfl

theorem upvalueRead_acted :
    Acted survey .upvalueRead instruction walk (walk.upvalueRead instruction) := by
  have silent : walk.referred? survey .upvalueRead instruction = none := rfl
  rw [upvalueRead]
  cases named : walk.upvalueName? instruction with
  | none =>
      have unloaded : walk.loaded? survey .upvalueRead instruction = none := by
        rw [loaded?, named, Option.bind_none]
      exact .ofCalm unloaded silent (by decide) (by decide) (.refl walk)
  | some upvalue =>
      dsimp only
      cases known : Alias.find? upvalue walk.facts.aliases with
      | none =>
          have unloaded : walk.loaded? survey .upvalueRead instruction = none := by
            rw [loaded?, named, Option.bind_some, known, Option.map_none]
          exact .ofCalm unloaded silent (by decide) (by decide) (.refl walk)
      | some entry =>
          have loads : walk.loaded? survey .upvalueRead instruction = some entry.target := by
            rw [loaded?, named, Option.bind_some, known, Option.map_some]
          refine .ofLoad loads rfl (.inr rfl) ?_
          rw [silent]
          exact (List.append_nil _).symm

theorem markCalled_acted : Acted survey .call instruction walk walk.markCalled where
  references := (List.append_nil _).symm
  loads := by
    intro name loads
    cases loads
  keeps := by
    intro _ anchor found
    obtain ⟨old, held, rfl⟩ := Option.map_eq_some_iff.mp found
    exact ⟨old, held, rfl, fun uncalled => (by cases uncalled), fun reads => (by cases reads)⟩
  pending := .inl rfl

theorem act_acted (role : Role) :
    Acted survey role instruction walk (walk.act survey role instruction ahead) := by
  cases role with
  | globalRead => exact globalRead_acted survey instruction ahead walk
  | globalWrite => exact globalWrite_acted survey instruction walk
  | tableRead => exact tableRead_acted survey instruction walk
  | tableWrite => exact tableWrite_acted survey instruction walk
  | upvalueRead => exact upvalueRead_acted survey instruction walk
  | upvalueWrite =>
      exact .ofCalm rfl rfl (by decide) (by decide) (upvalueWrite_calm survey instruction walk)
  | call => exact markCalled_acted survey instruction walk
  | loadConstant | vararg | «return» | other =>
      exact .ofCalm rfl rfl (by decide) (by decide) (.refl walk)

/-! ## What a step does -/

/-- What settling leaves is changed in the anchor only. -/
theorem exists_settled_eq :
    ∃ anchor, walk.settled survey instruction =
      { walk.settle (survey.role instruction == .call) instruction with anchor } := by
  rw [settled, forget]
  split
  · exact ⟨_, rfl⟩
  · split
    · split <;> exact ⟨_, rfl⟩
    · exact ⟨_, rfl⟩

theorem settled_pending : (walk.settled survey instruction).pending = walk.fresh instruction := by
  obtain ⟨anchor, same⟩ := exists_settled_eq survey instruction walk
  rw [same]
  exact (settle_calm instruction walk _).pending

theorem settled_references :
    (walk.settled survey instruction).facts.references = walk.facts.references := by
  obtain ⟨anchor, same⟩ := exists_settled_eq survey instruction walk
  rw [same]
  exact (settle_calm instruction walk _).references

/-- Settling makes aliases, and no other facts. -/
theorem settled_facts :
    (walk.settled survey instruction).facts =
      { walk.facts with aliases := (walk.settled survey instruction).facts.aliases } := by
  obtain ⟨anchor, same⟩ := exists_settled_eq survey instruction walk
  rw [same]
  apply settle_preserves instruction walk _
    fun other => other.facts = { walk.facts with aliases := other.facts.aliases }
  · rfl
  · intro entry _ other facts
    rw [promote]
    split
    · exact facts
    · split
      · exact facts
      · dsimp only [Facts.addAlias]
        rw [facts]

/-- A field access leaves it to itself what becomes of the anchor. -/
theorem settled_anchor_of_access
    (access : survey.role instruction = .tableRead ∨ survey.role instruction = .tableWrite) :
    (walk.settled survey instruction).anchor = walk.anchor := by
  rw [settled, forget, if_pos access]
  exact (settle_calm instruction walk _).anchor

/-- An anchor that is not forgotten was there before, in a register that is not stored into. -/
theorem settled_anchor {anchor : Anchor}
    (held : (walk.settled survey instruction).anchor = some anchor) :
    walk.anchor = some anchor ∧
      (survey.role instruction = .tableRead ∨ survey.role instruction = .tableWrite ∨
        instruction.overwrites anchor.register = false) := by
  have calm := settle_calm instruction walk (survey.role instruction == .call)
  rw [settled, forget] at held
  split at held
  · rename_i access
    exact ⟨calm.anchor.symm.trans held, access.imp_right .inl⟩
  · split at held
    · rename_i old found
      split at held
      · cases held
      · rename_i spared
        cases found.symm.trans held
        exact ⟨calm.anchor.symm.trans held, .inr (.inr (Bool.eq_false_iff.mpr spared))⟩
    · rename_i free
      cases free.symm.trans held

/-- Writing into a table stores into no register. -/
theorem overwrites_of_tableWrite {survey : Survey} {instruction : Instruction}
    (writes : survey.role instruction = .tableWrite) (register : Int) :
    instruction.overwrites register = false := by
  have opcode : instruction.opcode = .setTable := by
    obtain ⟨dialect, catalog⟩ := survey
    obtain ⟨index, line, opcode, a, b, c, comment⟩ := instruction
    cases opcode with
    | setTable => rfl
    | _ => cases dialect <;> contradiction
  rw [Instruction.overwrites, opcode]

/-- The name of what a step loads into register A. -/
def loads? : Option String :=
  (walk.settled survey instruction).loaded? survey (survey.role instruction) instruction

/-- An instruction leaves what a register holds, as far as the walk notices: a field read is seen to
store into register A only, and not even there if it has no operand B. -/
def Spares (register : Int) : Prop :=
  if survey.role instruction = .tableRead then
    instruction.b.isSome = true → register ≠ instruction.a
  else instruction.overwrites register = false

/-- An anchor behind a step was set by it, or was there before and is spared. -/
theorem step_anchor {anchor : Anchor}
    (held : (walk.step survey instruction ahead).anchor = some anchor) :
    (walk.loads? survey instruction = some anchor.name ∧
        anchor = ⟨instruction.a, anchor.name, instruction.line, false⟩) ∨
      (walk.loads? survey instruction = none ∧ ∃ old, walk.anchor = some old ∧
        anchor = { old with called := anchor.called } ∧ Spares survey instruction old.register ∧
        (anchor.called = false → old.called = false ∧ survey.role instruction ≠ .call)) := by
  have acted := act_acted survey instruction ahead (walk.settled survey instruction)
    (survey.role instruction)
  cases loaded : walk.loads? survey instruction with
  | some name =>
      left
      cases (acted.loads name loaded).symm.trans held
      exact ⟨rfl, rfl⟩
  | none =>
      right
      obtain ⟨old, before, kept⟩ := acted.keeps loaded anchor held
      obtain ⟨there, spared⟩ := settled_anchor survey instruction walk before
      refine ⟨rfl, old, there, kept.same, ?_, kept.uncalled⟩
      rw [Spares]
      split
      · rename_i reads
        exact kept.spared reads
      · rename_i other
        rcases spared with reads | writes | spared
        · exact absurd reads other
        · exact overwrites_of_tableWrite writes old.register
        · exact spared

theorem step_references :
    (walk.step survey instruction ahead).facts.references = walk.facts.references ++
      (((walk.settled survey instruction).referred? survey (survey.role instruction) instruction).map
        fun name => ⟨instruction.line, name, (survey.role instruction).isWrite⟩).toList := by
  rw [← settled_references survey instruction walk]
  exact (act_acted survey instruction ahead (walk.settled survey instruction) _).references

theorem step_pending :
    (walk.step survey instruction ahead).pending = walk.fresh instruction ∨
      ∃ name, walk.loads? survey instruction = some name ∧
        (walk.step survey instruction ahead).pending =
          (walk.fresh instruction).filter (fun entry => entry.register != instruction.a) ++
            [⟨instruction.a, name, instruction.index⟩] := by
  rw [← settled_pending survey instruction walk]
  exact (act_acted survey instruction ahead (walk.settled survey instruction) _).pending

end Walk

/-! ## The walk before each instruction -/

theorem Walk.runBefore_concat (survey : Survey) (rest front : List Instruction)
    (instruction : Instruction) (walk : Walk) :
    runBefore survey rest (front ++ [instruction]) walk =
      (runBefore survey (instruction :: rest) front walk).step survey instruction rest := by
  induction front generalizing walk with
  | nil => rfl
  | cons first more ih =>
      simp only [List.cons_append, runBefore, ih, List.append_assoc, List.nil_append]

/-- The way of a walk through one function: how it is done, whether the function is the main one, and
the facts of the functions before it. -/
structure Passage where
  survey : Survey
  isMain : Bool
  function : Function
  facts : Facts

namespace Passage

variable (passage : Passage)

def code : List Instruction := passage.function.instructions

/-- The walk before the instruction at a position. -/
def walk (position : Nat) : Walk :=
  (passage.survey.begin passage.isMain passage.function passage.facts).runBefore passage.survey
    (passage.code.drop position) (passage.code.take position)

/-- The name of what the instruction at a position loads into register A. -/
def loads? (position : Nat) : Option String :=
  passage.code[position]?.bind fun instruction =>
    (passage.walk position).loads? passage.survey instruction

variable {passage} {position : Nat} {instruction : Instruction}

theorem walk_zero :
    passage.walk 0 = passage.survey.begin passage.isMain passage.function passage.facts := rfl

theorem walk_succ (found : passage.code[position]? = some instruction) :
    passage.walk (position + 1) = (passage.walk position).step passage.survey instruction
      (passage.code.drop (position + 1)) := by
  have behind : passage.code.drop position = instruction :: passage.code.drop (position + 1) := by
    obtain ⟨inside, rfl⟩ := List.getElem?_eq_some_iff.mp found
    exact List.drop_eq_getElem_cons inside
  rw [walk, walk, List.take_add_one, found, Option.toList_some, Walk.runBefore_concat, behind]

theorem walk_succ_of_none (ended : passage.code[position]? = none) :
    passage.walk (position + 1) = passage.walk position := by
  have short : passage.code.length ≤ position := List.getElem?_eq_none_iff.mp ended
  rw [walk, walk, List.take_of_length_le short, List.take_of_length_le (by omega),
    List.drop_of_length_le short, List.drop_of_length_le (by omega)]

theorem loads?_of_found (found : passage.code[position]? = some instruction) :
    passage.loads? position = (passage.walk position).loads? passage.survey instruction := by
  rw [loads?, found, Option.bind_some]

/-- Nothing is known of any register when a function begins. -/
theorem begin_calm (passage : Passage) :
    Walk.Calm (.start passage.function.registers passage.facts) (passage.walk 0) := by
  rw [walk_zero, Survey.begin]
  split
  · exact Walk.returnedModule_calm passage.survey _ _
  · exact .refl _

end Passage

end GlobalAudit
