import GlobalAudit.Proofs.Remark
import GlobalAudit.Proofs.Walk

/-! One program in both dialects. A listing of Lua 5.1 becomes one of Lua 5.2 when each access to a
global is written as an access to a field of the environment. The walk through the one and the walk
through the other agree instruction by instruction. -/
namespace GlobalAudit

namespace Instruction

/-- An access to a global as an access to a field of the environment. -/
def throughEnvironment (instruction : Instruction) : Instruction :=
  match instruction.opcode with
  | .getGlobal =>
    { instruction with
      opcode := .getTabUp
      b := some 0
      c := instruction.b
      comment := instruction.comment.map fun name => "_ENV \"" ++ name ++ "\"" }
  | .setGlobal =>
    { instruction with
      opcode := .setTabUp
      a := 0
      b := instruction.b
      c := some instruction.a
      comment := instruction.comment.map fun name => "_ENV \"" ++ name ++ "\" -" }
  | _ => instruction

/-- An instruction of Lua 5.1 that names the global it reaches, if it reaches one. -/
structure Named51 (instruction : Instruction) : Prop where
  known : (Dialect.lua51.role? instruction.opcode).isSome = true
  named : instruction.opcode = .getGlobal ∨ instruction.opcode = .setGlobal →
    instruction.comment.any Catalog.isIdentifier = true

instance (instruction : Instruction) : Decidable instruction.Named51 :=
  decidable_of_iff ((Dialect.lua51.role? instruction.opcode).isSome = true ∧
      (instruction.opcode = .getGlobal ∨ instruction.opcode = .setGlobal →
        instruction.comment.any Catalog.isIdentifier = true))
    ⟨fun ⟨known, named⟩ => ⟨known, named⟩, fun ⟨known, named⟩ => ⟨known, named⟩⟩

theorem throughEnvironment_of_ne {instruction : Instruction} (noRead : instruction.opcode ≠ .getGlobal)
    (noWrite : instruction.opcode ≠ .setGlobal) : instruction.throughEnvironment = instruction := by
  rw [throughEnvironment]
  split
  · contradiction
  · contradiction
  · rfl

@[simp] theorem index_throughEnvironment (instruction : Instruction) :
    instruction.throughEnvironment.index = instruction.index := by
  rw [throughEnvironment]
  split <;> rfl

@[simp] theorem line_throughEnvironment (instruction : Instruction) :
    instruction.throughEnvironment.line = instruction.line := by
  rw [throughEnvironment]
  split <;> rfl

theorem overwrites_throughEnvironment (instruction : Instruction) (register : Int) :
    instruction.throughEnvironment.overwrites register = instruction.overwrites register := by
  rw [throughEnvironment]
  split
  · rename_i read
    rw [overwrites, overwrites, read]
  · rename_i write
    rw [overwrites, overwrites, write]
  · rfl

namespace Named51

variable {instruction : Instruction}

theorem role (named : instruction.Named51) (catalog : Catalog) :
    (Survey.mk .lua52 catalog).role instruction.throughEnvironment =
      (Survey.mk .lua51 catalog).role instruction := by
  obtain ⟨index, line, opcode, a, b, c, comment⟩ := instruction
  have known := named.known
  cases opcode with
  | getTabUp => cases known
  | setTabUp => cases known
  | _ => rfl

/-- The comment is the name before, and the environment and the quoted name after. -/
theorem remarks (named : instruction.Named51)
    (reaches : instruction.opcode = .getGlobal ∨ instruction.opcode = .setGlobal) :
    ∃ name rest, instruction.remarks = [.word name] ∧
      instruction.throughEnvironment.remarks = .word "_ENV" :: .text name :: rest := by
  obtain ⟨name, comment, identifier⟩ := (Option.any_eq_true _ _).1 (named.named reaches)
  have before : instruction.remarks = [.word name] := by
    rw [Instruction.remarks, comment]
    exact Remark.ofComment_identifier identifier
  rcases reaches with read | write
  · refine ⟨name, [], before, ?_⟩
    rw [throughEnvironment, read, Instruction.remarks, comment]
    exact Remark.ofComment_environment identifier
  · refine ⟨name, [.word "-"], before, ?_⟩
    rw [throughEnvironment, write, Instruction.remarks, comment]
    exact Remark.ofComment_environment_dash identifier

/-- Apart from closing variables, what Lua 5.1 has becomes something that Lua 5.2 has. -/
theorem known52 (named : instruction.Named51) (noClose : instruction.opcode ≠ .close) :
    (Dialect.lua52.role? instruction.throughEnvironment.opcode).isSome = true := by
  obtain ⟨index, line, opcode, a, b, c, comment⟩ := instruction
  have known := named.known
  cases opcode with
  | close => exact absurd rfl noClose
  | getTabUp | setTabUp => cases known
  | _ => rfl

theorem target (named : instruction.Named51)
    (reaches : instruction.opcode = .getGlobal ∨ instruction.opcode = .setGlobal) :
    Dialect.lua52.target? instruction.throughEnvironment = Dialect.lua51.target? instruction := by
  obtain ⟨name, rest, before, after⟩ := named.remarks reaches
  simp only [Dialect.target?, before, after, if_true]

theorem jumpTarget (named : instruction.Named51) :
    instruction.throughEnvironment.jumpTarget? = instruction.jumpTarget? := by
  by_cases reaches : instruction.opcode = .getGlobal ∨ instruction.opcode = .setGlobal
  · obtain ⟨name, rest, before, after⟩ := named.remarks reaches
    simp [jumpTarget?, before, after]
  · rw [throughEnvironment_of_ne (fun read => reaches (.inl read)) fun write => reaches (.inr write)]

/-- Only the two global accesses change. -/
theorem unchanged (catalog : Catalog) {role : Role}
    (plays : (Survey.mk .lua51 catalog).role instruction = role) (noRead : role ≠ .globalRead)
    (noWrite : role ≠ .globalWrite) : instruction.throughEnvironment = instruction := by
  apply throughEnvironment_of_ne
  · intro read
    apply noRead
    rw [← plays, Survey.role, read]
    rfl
  · intro write
    apply noWrite
    rw [← plays, Survey.role, write]
    rfl

/-- The opcode of an instruction that reads or writes a global. -/
theorem reaches (catalog : Catalog)
    (plays : (Survey.mk .lua51 catalog).role instruction = .globalRead ∨
      (Survey.mk .lua51 catalog).role instruction = .globalWrite) :
    instruction.opcode = .getGlobal ∨ instruction.opcode = .setGlobal := by
  obtain ⟨index, line, opcode, a, b, c, comment⟩ := instruction
  cases opcode with
  | getGlobal => exact .inl rfl
  | setGlobal => exact .inr rfl
  | _ => rcases plays with read | write <;> contradiction

theorem setUpval_of_upvalueWrite (catalog : Catalog)
    (plays : (Survey.mk .lua51 catalog).role instruction = .upvalueWrite) :
    instruction.opcode = .setUpval := by
  obtain ⟨index, line, opcode, a, b, c, comment⟩ := instruction
  cases opcode with
  | setUpval => rfl
  | _ => contradiction

theorem a_of_globalRead (catalog : Catalog)
    (plays : (Survey.mk .lua51 catalog).role instruction = .globalRead) :
    instruction.throughEnvironment.a = instruction.a := by
  rw [throughEnvironment]
  split
  · rfl
  · rename_i write
    rw [Survey.role, write] at plays
    cases plays
  · rfl

end Named51

end Instruction

namespace Walk

open Instruction

variable (catalog : Catalog) {instruction : Instruction} {ahead : List Instruction}

theorem required?_throughEnvironment
    (plays : (Survey.mk .lua51 catalog).role instruction = .globalRead)
    (named : ∀ other ∈ ahead, other.Named51) :
    required? ⟨.lua52, catalog⟩ instruction.throughEnvironment (ahead.map throughEnvironment) =
      required? ⟨.lua51, catalog⟩ instruction ahead := by
  match ahead with
  | [] => rfl
  | [_] => rfl
  | constant :: call :: rest =>
      have roleConstant := (named constant (by simp)).role catalog
      have roleCall := (named call (by simp)).role catalog
      simp only [List.map_cons, required?, roleConstant, roleCall,
        Named51.a_of_globalRead catalog plays]
      by_cases loads : (Survey.mk .lua51 catalog).role constant = .loadConstant
      · by_cases calls : (Survey.mk .lua51 catalog).role call = .call
        · rw [Named51.unchanged catalog loads (by decide) (by decide),
            Named51.unchanged catalog calls (by decide) (by decide)]
        · simp only [calls, false_and, and_false, if_false]
      · simp only [loads, false_and, if_false]

/-- What is asked of instructions of one role only, other than a global access, has the same answer. -/
theorem plays_throughEnvironment {other : Instruction} (named : other.Named51) (role : Role)
    (noRead : role ≠ .globalRead) (noWrite : role ≠ .globalWrite) (holds : Instruction → Bool) :
    ((Survey.mk .lua52 catalog).role other.throughEnvironment == role &&
        holds other.throughEnvironment) =
      ((Survey.mk .lua51 catalog).role other == role && holds other) := by
  rw [named.role catalog]
  by_cases plays : (Survey.mk .lua51 catalog).role other = role
  · rw [Named51.unchanged catalog plays noRead noWrite]
  · rw [beq_false_of_ne plays, Bool.false_and, Bool.false_and]

theorem seesAll_throughEnvironment
    (plays : (Survey.mk .lua51 catalog).role instruction = .globalRead)
    (named : ∀ other ∈ ahead, other.Named51) :
    seesAll ⟨.lua52, catalog⟩ instruction.throughEnvironment (ahead.map throughEnvironment) =
      seesAll ⟨.lua51, catalog⟩ instruction ahead := by
  rw [seesAll, seesAll, Named51.a_of_globalRead catalog plays]
  induction ahead with
  | nil => rfl
  | cons next rest ih =>
      obtain ⟨namedNext, namedRest⟩ := List.forall_mem_cons.1 named
      have calls := plays_throughEnvironment catalog namedNext .call (by decide) (by decide)
        fun later => later.a == instruction.a
      have reads := plays_throughEnvironment catalog namedNext .tableRead (by decide) (by decide)
        fun argument => argument.constant? == some seeAllName
      rw [List.map_cons, List.takeWhile_cons, List.takeWhile_cons, calls]
      split
      · rw [List.any_cons, List.any_cons, reads, ih namedRest]
      · rfl

theorem declaration?_throughEnvironment
    (plays : (Survey.mk .lua51 catalog).role instruction = .globalRead)
    (named : ∀ other ∈ ahead, other.Named51) :
    declaration? ⟨.lua52, catalog⟩ instruction.throughEnvironment (ahead.map throughEnvironment) =
      declaration? ⟨.lua51, catalog⟩ instruction ahead := by
  have sees := seesAll_throughEnvironment catalog plays named
  cases ahead with
  | nil => rfl
  | cons next rest =>
      rw [List.map_cons] at sees ⊢
      rw [declaration?, declaration?, sees, (named next List.mem_cons_self).role catalog,
        line_throughEnvironment]
      cases role : (Survey.mk .lua51 catalog).role next with
      | loadConstant => rw [Named51.unchanged catalog role (by decide) (by decide)]
      | _ => rfl

variable (walk : Walk)

theorem settled_throughEnvironment (named : instruction.Named51) :
    walk.settled ⟨.lua52, catalog⟩ instruction.throughEnvironment =
      walk.settled ⟨.lua51, catalog⟩ instruction := by
  simp only [settled, settle, forget, named.role catalog, index_throughEnvironment,
    overwrites_throughEnvironment]

theorem globalRead_throughEnvironment
    (plays : (Survey.mk .lua51 catalog).role instruction = .globalRead)
    (namedHere : instruction.Named51) (named : ∀ other ∈ ahead, other.Named51) :
    walk.globalRead ⟨.lua52, catalog⟩ instruction.throughEnvironment (ahead.map throughEnvironment) =
      walk.globalRead ⟨.lua51, catalog⟩ instruction ahead := by
  have target := namedHere.target (Named51.reaches catalog (.inl plays))
  simp only [globalRead, target, requireCall, moduleCall, required?_throughEnvironment catalog plays named,
    declaration?_throughEnvironment catalog plays named, Named51.a_of_globalRead catalog plays,
    upvalueField, load, line_throughEnvironment, index_throughEnvironment]

theorem globalWrite_throughEnvironment
    (plays : (Survey.mk .lua51 catalog).role instruction = .globalWrite)
    (namedHere : instruction.Named51) :
    walk.globalWrite ⟨.lua52, catalog⟩ instruction.throughEnvironment =
      walk.globalWrite ⟨.lua51, catalog⟩ instruction := by
  have target := namedHere.target (Named51.reaches catalog (.inr plays))
  simp only [globalWrite, target, upvalueField, if_true, line_throughEnvironment]

/-- In neither dialect does an instruction of the other roles look at the dialect, unless it
replaces the environment. -/
theorem act_throughEnvironment (namedHere : instruction.Named51)
    (named : ∀ other ∈ ahead, other.Named51)
    (keeps : instruction.opcode = .setUpval → walk.upvalueName? instruction ≠ some "_ENV") :
    walk.act ⟨.lua52, catalog⟩ ((Survey.mk .lua52 catalog).role instruction.throughEnvironment)
        instruction.throughEnvironment (ahead.map throughEnvironment) =
      walk.act ⟨.lua51, catalog⟩ ((Survey.mk .lua51 catalog).role instruction) instruction ahead := by
  rw [namedHere.role catalog]
  cases plays : (Survey.mk .lua51 catalog).role instruction with
  | globalRead => exact globalRead_throughEnvironment catalog walk plays namedHere named
  | globalWrite => exact globalWrite_throughEnvironment catalog walk plays namedHere
  | upvalueWrite =>
      rw [Named51.unchanged catalog plays (by decide) (by decide)]
      exact if_neg (keeps (Named51.setUpval_of_upvalueWrite catalog plays))
  | _ =>
      rw [Named51.unchanged catalog plays (by decide) (by decide)]
      rfl

theorem step_throughEnvironment (namedHere : instruction.Named51)
    (named : ∀ other ∈ ahead, other.Named51)
    (keeps : instruction.opcode = .setUpval → walk.upvalueName? instruction ≠ some "_ENV") :
    walk.step ⟨.lua52, catalog⟩ instruction.throughEnvironment (ahead.map throughEnvironment) =
      walk.step ⟨.lua51, catalog⟩ instruction ahead := by
  have same := (settled_effect ⟨.lua51, catalog⟩ instruction walk).sameVariables
  have acts := act_throughEnvironment catalog (walk.settled ⟨.lua51, catalog⟩ instruction) namedHere
    named (by rw [upvalueName?_of_sameVariables same]; exact keeps)
  rw [← settled_throughEnvironment catalog walk namedHere] at acts
  exact congrArg (fun done : Walk => { done with atStart := false })
    (acts.trans (by rw [settled_throughEnvironment catalog walk namedHere]))

/-- The run through the translation, from any walk of the function. -/
theorem run_throughEnvironment (registers : Registers) (code : List Instruction)
    (named : ∀ other ∈ code, other.Named51)
    (keeps : ∀ other ∈ code, other.opcode = .setUpval →
      (start registers .empty).upvalueName? other ≠ some "_ENV")
    (same : registers.SameVariables walk.registers) :
    walk.run ⟨.lua52, catalog⟩ (code.map throughEnvironment) = walk.run ⟨.lua51, catalog⟩ code := by
  induction code generalizing walk with
  | nil => rfl
  | cons instruction ahead ih =>
      obtain ⟨namedHere, namedAhead⟩ := List.forall_mem_cons.1 named
      obtain ⟨keepsHere, keepsAhead⟩ := List.forall_mem_cons.1 keeps
      -- Upvalues keep their names, so what the function never replaces is not replaced here.
      have begun : (start registers .empty).registers.SameVariables walk.registers := same
      have name := upvalueName?_of_sameVariables begun instruction
      have steps := step_throughEnvironment catalog walk namedHere namedAhead
        (by rw [name]; exact keepsHere)
      rw [List.map_cons, run, run, steps]
      exact ih _ namedAhead keepsAhead
        (same.trans (step_effect ⟨.lua51, catalog⟩ instruction ahead walk).sameVariables)

theorem jumps_throughEnvironment (code : List Instruction)
    (named : ∀ other ∈ code, other.Named51) (index : Nat) :
    ((code.map throughEnvironment).any fun other => other.jumpTarget? == some index) =
      code.any fun other => other.jumpTarget? == some index := by
  induction code with
  | nil => rfl
  | cons next rest ih =>
      obtain ⟨namedNext, namedRest⟩ := List.forall_mem_cons.1 named
      rw [List.map_cons, List.any_cons, List.any_cons, namedNext.jumpTarget, ih namedRest]

theorem finalReturn?_throughEnvironment (code : List Instruction)
    (named : ∀ other ∈ code, other.Named51) :
    finalReturn? ⟨.lua52, catalog⟩ (code.map throughEnvironment) =
      finalReturn? ⟨.lua51, catalog⟩ code := by
  rw [finalReturn?, finalReturn?, ← List.map_reverse]
  -- The two last instructions matter only as returns, which are the same in both dialects.
  have namedBack : ∀ other ∈ code.reverse, other.Named51 :=
    fun other member => named other (List.mem_reverse.1 member)
  match back : code.reverse with
  | [] => rfl
  | [_] => rfl
  | last :: result :: rest =>
      rw [back] at namedBack
      have roleLast := (namedBack last (by simp)).role catalog
      have roleResult := (namedBack result (by simp)).role catalog
      simp only [List.map_cons, roleLast, roleResult, jumps_throughEnvironment code named,
        index_throughEnvironment]
      by_cases returns : (Survey.mk .lua51 catalog).role last = .return
      · by_cases returnsOne : (Survey.mk .lua51 catalog).role result = .return
        · rw [Named51.unchanged catalog returns (by decide) (by decide),
            Named51.unchanged catalog returnsOne (by decide) (by decide)]
        · simp only [returnsOne, false_and, and_false, if_false]
      · simp only [returns, false_and, if_false]

end Walk

namespace Function

/-- The name of the upvalue that an instruction of the function reaches. -/
def upvalueName? (function : Function) (instruction : Instruction) : Option String :=
  (Walk.start function.registers .empty).upvalueName? instruction

/-- A function of Lua 5.1 whose instructions have their counterparts in Lua 5.2: globals are named,
no variable is closed on its own, and the environment is not replaced. -/
structure Translatable (function : Function) : Prop where
  named : ∀ instruction ∈ function.instructions, instruction.Named51
  noClose : ∀ instruction ∈ function.instructions, instruction.opcode ≠ .close
  keepsEnvironment : ∀ instruction ∈ function.instructions, instruction.opcode = .setUpval →
    function.upvalueName? instruction ≠ some "_ENV"

instance (function : Function) : Decidable function.Translatable :=
  decidable_of_iff ((∀ instruction ∈ function.instructions, instruction.Named51) ∧
      (∀ instruction ∈ function.instructions, instruction.opcode ≠ .close) ∧
      ∀ instruction ∈ function.instructions, instruction.opcode = .setUpval →
        function.upvalueName? instruction ≠ some "_ENV")
    ⟨fun ⟨named, noClose, keeps⟩ => ⟨named, noClose, keeps⟩,
      fun ⟨named, noClose, keeps⟩ => ⟨named, noClose, keeps⟩⟩

/-- The function with its global accesses through the environment. -/
def throughEnvironment (function : Function) : Function :=
  { function with instructions := function.instructions.map Instruction.throughEnvironment }

end Function

namespace Survey

variable (catalog : Catalog)

theorem begin_throughEnvironment {function : Function} (translatable : function.Translatable)
    (isMain : Bool) (facts : Facts) :
    (Survey.mk .lua52 catalog).begin isMain function.throughEnvironment facts =
      (Survey.mk .lua51 catalog).begin isMain function facts := by
  simp only [begin, Function.throughEnvironment, Walk.returnedModule,
    Walk.finalReturn?_throughEnvironment catalog _ translatable.named]

theorem function_throughEnvironment {function : Function} (translatable : function.Translatable)
    (isMain : Bool) (facts : Facts) :
    (Survey.mk .lua52 catalog).function isMain function.throughEnvironment facts =
      (((Survey.mk .lua51 catalog).function isMain function facts).1.throughEnvironment,
        ((Survey.mk .lua51 catalog).function isMain function facts).2) := by
  have begins := begin_throughEnvironment catalog translatable isMain facts
  have same := (begin_effect (Survey.mk .lua51 catalog) isMain function facts).sameVariables
  have runs := Walk.run_throughEnvironment catalog _ function.registers function.instructions
    translatable.named translatable.keepsEnvironment same
  rw [function_eq, function_eq, begins]
  simp only [Function.throughEnvironment, runs]

theorem functions_throughEnvironment {functions : List Function}
    (translatable : ∀ function ∈ functions, function.Translatable) (isFirst : Bool) (facts : Facts) :
    (Survey.mk .lua52 catalog).functions isFirst (functions.map Function.throughEnvironment) facts =
      (((Survey.mk .lua51 catalog).functions isFirst functions facts).1.map
          Function.throughEnvironment,
        ((Survey.mk .lua51 catalog).functions isFirst functions facts).2) := by
  induction functions generalizing isFirst facts with
  | nil => rfl
  | cons function rest ih =>
      obtain ⟨here, others⟩ := List.forall_mem_cons.1 translatable
      have isMain : function.throughEnvironment.isMain = function.isMain := rfl
      simp only [List.map_cons, functions, isMain, function_throughEnvironment catalog here,
        ih others]

end Survey

namespace Listing

/-- A listing of Lua 5.1 that has a counterpart in Lua 5.2. -/
structure Translatable (listing : Listing) : Prop where
  dialect : listing.dialect = .lua51
  functions : ∀ function ∈ listing.functions, function.Translatable

/-- The same program in Lua 5.2. -/
def throughEnvironment (listing : Listing) : Listing :=
  { listing with
    dialect := .lua52
    functions := listing.functions.map Function.throughEnvironment }

/-- The survey of the translation is the translation of the survey. -/
theorem survey_throughEnvironment {listing : Listing} (translatable : listing.Translatable)
    (catalog : Catalog) :
    listing.throughEnvironment.survey catalog =
      ((listing.survey catalog).1.throughEnvironment, (listing.survey catalog).2) := by
  have walks := Survey.functions_throughEnvironment catalog translatable.functions true .empty
  simp only [survey, throughEnvironment, translatable.dialect, walks]

/-- The two listings of one program give the same facts with every catalog and mark the same locals,
and the translation has no instruction that its dialect lacks. -/
theorem same_survey_in_both_dialects {listing : Listing} (translatable : listing.Translatable)
    (catalog : Catalog) :
    listing.throughEnvironment.facts catalog = listing.facts catalog ∧
      (listing.throughEnvironment.survey catalog).1.functions.map Function.registers =
        (listing.survey catalog).1.functions.map Function.registers ∧
      ∀ function ∈ listing.throughEnvironment.functions, ∀ instruction ∈ function.instructions,
        (Dialect.lua52.role? instruction.opcode).isSome = true := by
  have surveys := survey_throughEnvironment translatable catalog
  refine ⟨?_, ?_, ?_⟩
  · rw [facts, facts, surveys]
  · have registers : Function.registers ∘ Function.throughEnvironment = Function.registers := rfl
    rw [surveys, throughEnvironment, List.map_map, registers]
  · intro translated member instruction here
    obtain ⟨function, original, rfl⟩ := List.mem_map.1 member
    obtain ⟨source, there, rfl⟩ := List.mem_map.1 here
    have fits := translatable.functions function original
    exact (fits.named source there).known52 (fits.noClose source there)

/-- A file that keeps a library in a local, requires a module, declares itself one and defines a
global in a function that also sets a variable outside it. -/
def sample : Listing where
  dialect := .lua51
  functions := [{
    header := "main <t.lua:0,0>"
    instructions :=
      [⟨1, 1, .getGlobal, 0, some (-1), none, some "string"⟩,
       ⟨2, 2, .getGlobal, 1, some (-2), none, some "require"⟩,
       ⟨3, 2, .loadK, 2, some (-3), none, some "\"util\""⟩,
       ⟨4, 2, .call, 1, some 2, some 2, none⟩,
       ⟨5, 3, .getGlobal, 2, some (-4), none, some "module"⟩,
       ⟨6, 3, .loadK, 3, some (-5), none, some "\"shapes\""⟩,
       ⟨7, 3, .call, 2, some 2, some 1, none⟩,
       ⟨8, 4, .closure, 2, some 0, none, none⟩,
       ⟨9, 7, .return, 0, some 1, none, none⟩]
    registers := (Registers.empty.addLocal 0 "text" 2 10).addLocal 1 "util" 5 10 }, {
    header := "function <t.lua:4,7>"
    instructions :=
      [⟨1, 5, .getUpval, 0, some 0, none, some "text"⟩,
       ⟨2, 5, .getTable, 0, some 0, some (-1), some "\"rep\""⟩,
       ⟨3, 5, .setGlobal, 0, some (-2), none, some "twice"⟩,
       ⟨4, 6, .setUpval, 0, some 1, none, some "util"⟩,
       ⟨5, 7, .return, 0, some 1, none, none⟩]
    registers := (Registers.empty.addUpvalue 0 "text").addUpvalue 1 "util" }]

theorem sample_same_in_both_dialects :
    sample.Translatable ∧
      sample.throughEnvironment.facts (Catalog.empty.insert "string" (.table [])) =
        { references :=
            [⟨1, "string", false⟩, ⟨2, "require", false⟩, ⟨3, "module", false⟩,
             ⟨5, "string.rep", false⟩, ⟨5, "twice", true⟩]
          requires := [⟨2, "util", some "util"⟩]
          declaration := some ⟨3, some "shapes", .strict⟩
          returned := none
          endOfGlobals := none
          aliases := [⟨"text", "string"⟩, ⟨"util", "util"⟩] } := by
  have translatable : sample.Translatable := ⟨rfl, by decide⟩
  refine ⟨translatable, ?_⟩
  rw [(same_survey_in_both_dialects translatable _).1]
  decide

end Listing

end GlobalAudit
