import GlobalAudit.Reference.Walk

/-! Walks stopped on the way. The walk through a listing passes each instruction once; what it knows
there comes from the functions before and from the instructions before in the same function, while
the rest of the code lies ahead. -/
namespace GlobalAudit

/-! ## Variables -/

/-- A variable without what it stands for. -/
def LocalVariable.unmarked (var : LocalVariable) : LocalVariable := { var with target := none }

/-- The same variables, except for the names that locals stand for. -/
structure Registers.SameVariables (first second : Registers) : Prop where
  locals : second.locals.map LocalVariable.unmarked = first.locals.map LocalVariable.unmarked
  bySlot : second.bySlot = first.bySlot
  upvalues : second.upvalues = first.upvalues

namespace Registers.SameVariables

theorem refl (registers : Registers) : SameVariables registers registers := ⟨rfl, rfl, rfl⟩

theorem trans {first second third : Registers} (early : SameVariables first second)
    (late : SameVariables second third) : SameVariables first third :=
  ⟨late.locals.trans early.locals, late.bySlot.trans early.bySlot,
    late.upvalues.trans early.upvalues⟩

theorem promote (registers : Registers) (position : Nat) (target : Option String) :
    SameVariables registers (registers.promote position target) := by
  refine ⟨?_, rfl, rfl⟩
  rw [Registers.promote]
  apply List.ext_getElem?
  intro other
  simp only [List.getElem?_map, List.getElem?_modify]
  cases registers.locals[other]? with
  | none => rfl
  | some var => by_cases here : position = other <;> simp [here, LocalVariable.promoted,
      LocalVariable.unmarked]

end Registers.SameVariables

/-! ## What an instruction can do -/

namespace Walk

open Registers (SameVariables)

/-- What happens on the way from one walk to another: locals may come to stand for names, and a
declaration is made if there is none yet. -/
structure Effect (declared : Option ModuleDeclaration) (before after : Walk) : Prop where
  sameVariables : SameVariables before.registers after.registers
  declaration : after.facts.declaration = before.facts.declaration.or declared

namespace Effect

/-- The variables and the declaration stay, whatever becomes of the rest. -/
theorem quiet {before after : Walk} (registers : after.registers = before.registers)
    (declaration : after.facts.declaration = before.facts.declaration) :
    Effect none before after :=
  ⟨registers ▸ .refl _, declaration.trans Option.or_none.symm⟩

theorem trans {early late : Option ModuleDeclaration} {first second third : Walk}
    (before : Effect early first second) (after : Effect late second third) :
    Effect (early.or late) first third :=
  ⟨before.sameVariables.trans after.sameVariables,
    by rw [after.declaration, before.declaration, Option.or_assoc]⟩

theorem andThen {declared : Option ModuleDeclaration} {first second third : Walk}
    (before : Effect none first second) (after : Effect declared second third) :
    Effect declared first third := before.trans after

end Effect

/-- Upvalues keep their names throughout a walk. -/
theorem upvalueName?_of_sameVariables {first second : Walk}
    (same : first.registers.SameVariables second.registers) (instruction : Instruction) :
    second.upvalueName? instruction = first.upvalueName? instruction := by
  simp only [upvalueName?, Registers.upvalue?, same.upvalues]

variable (survey : Survey) (instruction : Instruction) (ahead : List Instruction) (walk : Walk)

theorem promote_effect (register : Int) (index : Nat) (target : Option String) (atStart : Bool) :
    Effect none walk (walk.promote register index target atStart).1 := by
  rw [promote]
  split
  · exact .quiet rfl rfl
  · split
    · exact .quiet rfl rfl
    · exact ⟨.promote _ _ _, Option.or_none.symm⟩

/-- Settling keeps what is true when the entries of earlier instructions are taken away and stays true
whenever one of them gives an alias. -/
theorem settle_preserves (isCall : Bool) (holds : Walk → Prop)
    (start : holds { walk with
      pending := walk.pending.filter fun entry => !(entry.madeAt < instruction.index : Bool) })
    (gives : ∀ entry ∈ walk.pending, ∀ other : Walk, holds other →
      holds (other.promote entry.register instruction.index (some entry.name) other.atStart).1) :
    holds (walk.settle isCall instruction) := by
  rw [settle]
  split
  · exact start
  · have expected : ∀ entry ∈ walk.pending.filter (fun entry => entry.madeAt < instruction.index),
        entry ∈ walk.pending := fun entry member => (List.mem_filter.mp member).1
    generalize walk.pending.filter (fun entry => entry.madeAt < instruction.index) = ready at expected
    revert start
    generalize ({ walk with
      pending := walk.pending.filter fun entry => !(entry.madeAt < instruction.index : Bool) } :
        Walk) = current
    intro start
    induction ready generalizing current with
    | nil => exact start
    | cons entry rest ih =>
        obtain ⟨first, later⟩ := List.forall_mem_cons.mp expected
        exact ih later _ (gives entry first current start)

theorem settle_effect (isCall : Bool) : Effect none walk (walk.settle isCall instruction) := by
  apply settle_preserves instruction walk isCall (Effect none walk)
  · exact .quiet rfl rfl
  · intro entry _ other effect
    exact effect.andThen (promote_effect other _ _ _ _)

theorem forget_effect (role : Role) : Effect none walk (walk.forget role instruction) := by
  rw [forget]
  split
  · exact .quiet rfl rfl
  · split
    · split <;> exact .quiet rfl rfl
    · exact .quiet rfl rfl

theorem dropAnchor_effect (register : Int) : Effect none walk (walk.dropAnchor register) := by
  rw [dropAnchor]
  split
  · split <;> exact .quiet rfl rfl
  · exact .quiet rfl rfl

theorem baseOf_effect (register : Int) : Effect none walk (walk.baseOf register instruction).1 := by
  rw [baseOf]
  split
  · split <;> exact .quiet rfl rfl
  · exact .quiet rfl rfl

theorem requireCall_effect : Effect none walk (walk.requireCall survey instruction ahead) := by
  rw [requireCall]
  split
  · exact .quiet rfl rfl
  · rename_i name call _
    by_cases single : call.c = some 2
    · simp only [if_pos single]
      refine (promote_effect walk call.a call.index none false).andThen ?_
      exact .quiet rfl rfl
    · simp only [if_neg single]
      exact .quiet rfl rfl

theorem moduleCall_effect :
    Effect (declaration? survey instruction ahead) walk (walk.moduleCall survey instruction ahead) := by
  rw [moduleCall]
  cases declaration? survey instruction ahead with
  | none => exact .quiet rfl rfl
  | some declaration => exact ⟨.refl _, rfl⟩

theorem upvalueField_effect (upvalue field : String) (isWrite : Bool) :
    Effect none walk (walk.upvalueField instruction upvalue field isWrite) := by
  rw [upvalueField]
  split
  · exact .quiet rfl rfl
  · dsimp only
    split <;> exact .quiet rfl rfl

theorem tableRead_effect : Effect none walk (walk.tableRead instruction) := by
  rw [tableRead]
  split
  · exact .quiet rfl rfl
  · rename_i table _
    split
    · exact dropAnchor_effect walk _
    · have base := baseOf_effect instruction walk table
      split
      · rename_i found
        rw [found] at base
        refine base.andThen ?_
        exact .quiet rfl rfl
      · rename_i found
        rw [found] at base
        exact base.andThen (dropAnchor_effect _ _)

theorem tableWrite_effect : Effect none walk (walk.tableWrite instruction) := by
  rw [tableWrite]
  split
  · exact .quiet rfl rfl
  · have base := baseOf_effect instruction walk instruction.a
    split
    · rename_i found
      rw [found] at base
      refine base.andThen ?_
      exact .quiet rfl rfl
    · rename_i found
      rw [found] at base
      exact base

/-- The declaration that an instruction makes, whether or not there is an earlier one. -/
def declared? (role : Role) : Option ModuleDeclaration :=
  match role with
  | .globalRead =>
    if survey.dialect.target? instruction = some (.global moduleName) then
      declaration? survey instruction ahead
    else none
  | .upvalueWrite =>
    survey.dialect.environment?.bind fun environment =>
      if walk.upvalueName? instruction = some environment then
        some ⟨instruction.line, walk.aliasIn? instruction.a instruction.index, .strict⟩
      else none
  | _ => none

theorem globalRead_effect :
    Effect (walk.declared? survey instruction ahead .globalRead) walk
      (walk.globalRead survey instruction ahead) := by
  rw [globalRead, declared?]
  cases survey.dialect.target? instruction with
  | none => exact .quiet rfl rfl
  | some target =>
      cases target with
      | field upvalue name =>
          simp only [Option.some.injEq, reduceCtorEq, if_false]
          exact upvalueField_effect instruction walk upvalue name false
      | global name =>
          simp only [Option.some.injEq, GlobalTarget.global.injEq]
          have loaded : Effect none walk ((walk.reference instruction.line name false).setAnchor
              instruction.a name instruction.line) := .quiet rfl rfl
          by_cases requires : name = requireName
          · have other : ¬ name = moduleName := by rw [requires]; decide
            rw [if_pos requires, if_neg other]
            exact loaded.andThen (requireCall_effect survey instruction ahead _)
          · rw [if_neg requires]
            by_cases declares : name = moduleName
            · rw [if_pos declares, if_pos declares]
              exact loaded.andThen (moduleCall_effect survey instruction ahead _)
            · rw [if_neg declares, if_neg declares]
              split <;> exact .quiet rfl rfl

theorem globalWrite_effect : Effect none walk (walk.globalWrite survey instruction) := by
  rw [globalWrite]
  split
  · exact .quiet rfl rfl
  · exact upvalueField_effect instruction walk _ _ true
  · split <;> exact .quiet rfl rfl

theorem upvalueRead_effect : Effect none walk (walk.upvalueRead instruction) := by
  rw [upvalueRead]
  split
  · exact .quiet rfl rfl
  · split <;> exact .quiet rfl rfl

theorem upvalueWrite_effect :
    Effect (walk.declared? survey instruction ahead .upvalueWrite) walk
      (walk.upvalueWrite survey instruction) := by
  rw [upvalueWrite, declared?]
  cases survey.dialect.environment? with
  | none => exact .quiet rfl rfl
  | some environment =>
      simp only [Option.bind_some]
      split
      · exact ⟨.refl _, rfl⟩
      · exact .quiet rfl rfl

theorem act_effect (role : Role) :
    Effect (walk.declared? survey instruction ahead role) walk
      (walk.act survey role instruction ahead) := by
  cases role with
  | globalRead => exact globalRead_effect survey instruction ahead walk
  | globalWrite => exact globalWrite_effect survey instruction walk
  | tableRead => exact tableRead_effect instruction walk
  | tableWrite => exact tableWrite_effect instruction walk
  | upvalueRead => exact upvalueRead_effect instruction walk
  | upvalueWrite => exact upvalueWrite_effect survey instruction ahead walk
  | call | loadConstant | vararg | «return» | other => exact .quiet rfl rfl

/-- The walk when aliases are settled and a lost anchor is forgotten. -/
def settled : Walk :=
  (walk.settle (survey.role instruction == .call) instruction).forget (survey.role instruction)
    instruction

theorem settled_effect : Effect none walk (walk.settled survey instruction) :=
  (settle_effect instruction walk _).andThen (forget_effect instruction _ _)

/-- A step does what its instruction does to the settled walk. -/
theorem step_effect :
    Effect ((walk.settled survey instruction).declared? survey instruction ahead
      (survey.role instruction)) walk (walk.step survey instruction ahead) := by
  have acted := (settled_effect survey instruction walk).andThen
    (act_effect survey instruction ahead _ (survey.role instruction))
  exact ⟨acted.sameVariables, acted.declaration⟩

theorem returnedModule_effect (code : List Instruction) :
    Effect none walk (walk.returnedModule survey code) := by
  rw [returnedModule]
  split
  · exact .quiet rfl rfl
  · rename_i result _
    have promoted := promote_effect walk result.a result.index none false
    split
    · rename_i found
      rw [found] at promoted
      refine promoted.andThen ?_
      exact .quiet rfl rfl
    · rename_i found
      rw [found] at promoted
      exact promoted

end Walk

/-! ## Walks stopped on the way -/

namespace Walk

/-- The front part of some code, with the rest ahead of it. -/
def runBefore (survey : Survey) (rest : List Instruction) : List Instruction → Walk → Walk
  | [], walk => walk
  | instruction :: more, walk =>
    runBefore survey rest more (walk.step survey instruction (more ++ rest))

theorem run_append (survey : Survey) (front rest : List Instruction) (walk : Walk) :
    run survey (front ++ rest) walk = run survey rest (runBefore survey rest front walk) := by
  induction front generalizing walk with
  | nil => rfl
  | cons instruction more ih => exact ih _

end Walk

namespace Survey

/-- An instruction with a role of its own is one that the dialect has. -/
theorem role_eq_iff (survey : Survey) (instruction : Instruction) {role : Role}
    (proper : role ≠ .other) :
    survey.role instruction = role ↔ survey.dialect.role? instruction.opcode = some role := by
  rw [Survey.role]
  cases survey.dialect.role? instruction.opcode with
  | none => simp [proper.symm]
  | some found => simp

/-- The walk at the start of a function, with the facts of the functions before. -/
def begin (survey : Survey) (isMain : Bool) (function : Function) (facts : Facts) : Walk :=
  let start := Walk.start function.registers facts
  if isMain then start.returnedModule survey function.instructions else start

/-- Before its first instruction a function declares nothing. -/
theorem begin_effect (survey : Survey) (isMain : Bool) (function : Function) (facts : Facts) :
    Walk.Effect none (Walk.start function.registers facts) (survey.begin isMain function facts) := by
  rw [begin]
  split
  · exact Walk.returnedModule_effect survey _ _
  · exact .quiet rfl rfl

theorem function_eq (survey : Survey) (isMain : Bool) (function : Function) (facts : Facts) :
    survey.function isMain function facts =
      ({ function with
          registers := ((survey.begin isMain function facts).run survey function.instructions).registers },
        ((survey.begin isMain function facts).run survey function.instructions).facts) := rfl

/-- The first function is walked from its beginning, then the others with its facts. -/
theorem functions_cons_facts (survey : Survey) (isFirst : Bool) (function : Function)
    (rest : List Function) (facts : Facts) :
    (survey.functions isFirst (function :: rest) facts).2 =
      (survey.functions false rest ((survey.begin (isFirst && function.isMain) function facts).run
        survey function.instructions).facts).2 := rfl

theorem functions_append (survey : Survey) (isFirst : Bool) (early late : List Function)
    (facts : Facts) :
    survey.functions isFirst (early ++ late) facts =
      ((survey.functions isFirst early facts).1 ++
          (survey.functions (isFirst && early.isEmpty) late (survey.functions isFirst early facts).2).1,
        (survey.functions (isFirst && early.isEmpty) late
          (survey.functions isFirst early facts).2).2) := by
  induction early generalizing isFirst facts with
  | nil => simp [functions]
  | cons function rest ih => simp [functions, ih]

end Survey

/-- A place in a listing: an instruction with the code around it. -/
structure Site (listing : Listing) where
  earlier : List Function
  function : Function
  later : List Function
  before : List Instruction
  instruction : Instruction
  ahead : List Instruction
  functions_eq : listing.functions = earlier ++ function :: later
  code_eq : function.instructions = before ++ instruction :: ahead

/-- How a listing is walked with a catalog. -/
def Listing.surveyOf (listing : Listing) (catalog : Catalog) : Survey := ⟨listing.dialect, catalog⟩

namespace Site

variable {listing : Listing}

/-- The walk when it reaches the place. -/
def walk (site : Site listing) (catalog : Catalog) : Walk :=
  let survey := listing.surveyOf catalog
  let facts := (survey.functions true site.earlier .empty).2
  (survey.begin (site.earlier.isEmpty && site.function.isMain) site.function facts).runBefore survey
    (site.instruction :: site.ahead) site.before

/-- The walk when it has done the instruction. -/
def next (site : Site listing) (catalog : Catalog) : Walk :=
  (site.walk catalog).step (listing.surveyOf catalog) site.instruction site.ahead

/-- From any place the walk goes on through the code ahead and the later functions. -/
theorem facts_eq (site : Site listing) (catalog : Catalog) :
    listing.facts catalog =
      ((listing.surveyOf catalog).functions false site.later
        ((site.next catalog).run (listing.surveyOf catalog) site.ahead).facts).2 := by
  have whole : listing.facts catalog =
      ((listing.surveyOf catalog).functions true listing.functions .empty).2 := rfl
  rw [whole, site.functions_eq, Survey.functions_append]
  simp only [Survey.functions, Bool.true_and, Survey.function_eq, site.code_eq]
  rw [Walk.run_append]
  rfl

end Site

end GlobalAudit
