import GlobalAudit.Proofs.Passage

/-! Chains of field reads. A global is read, and then field after field of what was just read, all on
one line. Whatever the walk knows before, each read finds the anchor that the one before it has set,
so the names of the whole chain are built up; aliases that are settled on the way do not matter. -/
namespace GlobalAudit

/-- Field reads of one line, each into a register that the next one reads from. The chain starts at
the table in a register, and its last value is in another. -/
inductive Survey.Chain (survey : Survey) (line : Nat) :
    Int → List Instruction → List String → Int → Prop where
  | done (register : Int) : Chain survey line register [] [] register
  | read {register last : Int} {instruction : Instruction} {key : String}
      {reads : List Instruction} {keys : List String}
      (role : survey.role instruction = .tableRead) (sameLine : instruction.line = line)
      (table : instruction.b = some register) (constant : instruction.constant? = some key)
      (behind : Chain survey line instruction.a reads keys last) :
      Chain survey line register (instruction :: reads) (key :: keys) last

namespace Walk

variable {survey : Survey} {walk : Walk} {instruction : Instruction} {ahead : List Instruction}
  {register : Int} {name key : String}

/-! ## One instruction -/

/-- An instruction that adds a reference to the facts when aliases are settled adds nothing else but
these aliases. -/
theorem step_facts {line : Nat} {isWrite : Bool}
    (acted : ((walk.settled survey instruction).act survey (survey.role instruction) instruction
      ahead).facts = (walk.settled survey instruction).facts.addReference line name isWrite) :
    (walk.step survey instruction ahead).facts =
      { walk.facts.addReference line name isWrite with
        aliases := (walk.step survey instruction ahead).facts.aliases } := by
  have whole : (walk.step survey instruction ahead).facts =
      (walk.settled survey instruction).facts.addReference line name isWrite := acted
  rw [whole, settled_facts]
  rfl

theorem baseOf_of_anchor (held : walk.anchor = some ⟨register, name, instruction.line, false⟩) :
    walk.baseOf register instruction = ({ walk with anchor := none }, some name) := by
  simp [baseOf, held]

/-- A field read from the register of the anchor refers to the field and moves the anchor on. -/
theorem step_tableRead (role : survey.role instruction = .tableRead)
    (table : instruction.b = some register) (constant : instruction.constant? = some key)
    (held : walk.anchor = some ⟨register, name, instruction.line, false⟩)
    (ahead : List Instruction) :
    (walk.step survey instruction ahead).anchor =
        some ⟨instruction.a, Dotted.extend name key, instruction.line, false⟩ ∧
      (walk.step survey instruction ahead).facts =
        { walk.facts.addReference instruction.line (Dotted.extend name key) false with
          aliases := (walk.step survey instruction ahead).facts.aliases } := by
  have kept := (settled_anchor_of_access survey instruction walk (.inl role)).trans held
  have read : (walk.settled survey instruction).act survey (survey.role instruction) instruction
      ahead = (({ walk.settled survey instruction with anchor := none } : Walk).reference
        instruction.line (Dotted.extend name key) false).load instruction
          (Dotted.extend name key) := by
    rw [role, act, tableRead, table]
    simp only [constant, baseOf_of_anchor kept]
  refine ⟨congrArg Walk.anchor read, step_facts ?_⟩
  rw [read]
  rfl

/-- A field written in the table of the anchor is the only new reference. -/
theorem step_tableWrite (role : survey.role instruction = .tableWrite)
    (constant : instruction.constant? = some key)
    (held : walk.anchor = some ⟨instruction.a, name, instruction.line, false⟩)
    (ahead : List Instruction) :
    (walk.step survey instruction ahead).facts =
      { walk.facts.addReference instruction.line (Dotted.extend name key) true with
        aliases := (walk.step survey instruction ahead).facts.aliases } := by
  have kept := (settled_anchor_of_access survey instruction walk (.inr role)).trans held
  apply step_facts
  rw [role, act, tableWrite]
  simp only [constant, baseOf_of_anchor kept]
  rfl

/-- A read of a global sets the anchor and refers to the global. -/
theorem step_globalRead (walk : Walk) (role : survey.role instruction = .globalRead)
    (target : survey.dialect.target? instruction = some (.global name))
    (ahead : List Instruction) :
    (walk.step survey instruction ahead).anchor =
        some ⟨instruction.a, name, instruction.line, false⟩ ∧
      (walk.step survey instruction ahead).facts.references =
        walk.facts.references ++ [⟨instruction.line, name, false⟩] := by
  have named : (walk.settled survey instruction).targetName? survey instruction = some name := by
    rw [targetName?, target]
  have loads : walk.loads? survey instruction = some name := by
    rw [loads?, role]
    exact named
  have references := step_references survey instruction ahead walk
  rw [role, referred?, named] at references
  exact ⟨(act_acted survey instruction ahead _ (survey.role instruction)).loads name loads,
    references⟩

/-- Neither a module is required nor one declared. -/
def Idle (survey : Survey) (instruction : Instruction) (ahead : List Instruction) (name : String) :
    Prop :=
  (name = requireName → required? survey instruction ahead = none) ∧
    (name = moduleName → declaration? survey instruction ahead = none)

theorem step_globalRead_facts (role : survey.role instruction = .globalRead)
    (target : survey.dialect.target? instruction = some (.global name))
    (idle : Idle survey instruction ahead name) :
    (walk.step survey instruction ahead).facts =
      { walk.facts.addReference instruction.line name false with
        aliases := (walk.step survey instruction ahead).facts.aliases } := by
  obtain ⟨noRequire, noModule⟩ := idle
  apply step_facts
  rw [role, act, globalRead, target]
  dsimp only
  split
  · rename_i requires
    rw [requireCall, noRequire requires]
    rfl
  · split
    · rename_i declares
      rw [moduleCall, noModule declares]
      rfl
    · split <;> rfl

/-- A field read behind the global makes no idiom of it. -/
theorem idle_of_tableRead {read : Instruction} (role : survey.role read = .tableRead)
    (instruction : Instruction) (behind : List Instruction) (name : String) :
    Idle survey instruction (read :: behind) name := by
  constructor
  · intro _
    cases behind with
    | nil => rfl
    | cons call behind => simp [required?, role]
  · intro _
    simp [declaration?, role]

/-! ## The whole chain -/

/-- A walk that has just referred to the name of its anchor goes on to refer to each name that the
chain builds up, and has the anchor at the end. The induction is over the reads, with the walk and
the name so far left open. -/
theorem runBefore_reads {line : Nat} {last : Int} {reads : List Instruction} {keys : List String}
    {before : List Reference} (chain : survey.Chain line register reads keys last)
    (held : walk.anchor = some ⟨register, name, line, false⟩)
    (referred : walk.facts.references = before ++ [⟨line, name, false⟩])
    (rest : List Instruction) :
    (walk.runBefore survey rest reads).anchor =
        some ⟨last, keys.foldl Dotted.extend name, line, false⟩ ∧
      (walk.runBefore survey rest reads).facts =
        { walk.facts with
          references := before ++
            (keys.scanl Dotted.extend name).map fun built => ⟨line, built, false⟩
          aliases := (walk.runBefore survey rest reads).facts.aliases } := by
  induction chain generalizing walk name before with
  | done register =>
      refine ⟨held, ?_⟩
      rw [List.scanl_nil, List.map_singleton, ← referred]
      rfl
  | @read register last instruction key reads keys role sameLine table constant behind ih =>
      subst sameLine
      obtain ⟨moved, facts⟩ := step_tableRead role table constant held (reads ++ rest)
      have references : (walk.step survey instruction (reads ++ rest)).facts.references =
          (before ++ [⟨instruction.line, name, false⟩]) ++
            [⟨instruction.line, Dotted.extend name key, false⟩] := by
        rw [facts, ← referred]
        rfl
      obtain ⟨anchor, later⟩ := ih moved references
      refine ⟨anchor, ?_⟩
      rw [runBefore, later, facts, List.scanl_cons, List.map_cons, List.append_assoc]
      rfl

/-- A global is read and then a chain of its fields. From any walk the names of the chain become the
only new references, in order, and the anchor is at the end of the chain; a field written there on
the same line adds the one reference to it. Other facts stay, apart from aliases that are settled on
the way, unless the global is not followed by a field and makes an idiom of its own. -/
theorem chain_references (survey : Survey) (walk : Walk) (first : Instruction)
    (reads rest : List Instruction) (name : String) (keys : List String) (last : Int)
    (role : survey.role first = .globalRead)
    (target : survey.dialect.target? first = some (.global name))
    (chain : survey.Chain first.line first.a reads keys last) {after : Walk}
    (run : walk.runBefore survey rest (first :: reads) = after) :
    after.facts.references = walk.facts.references ++
        (keys.scanl Dotted.extend name).map (fun built => ⟨first.line, built, false⟩) ∧
      after.anchor = some ⟨last, keys.foldl Dotted.extend name, first.line, false⟩ ∧
      (reads ≠ [] ∨ (name ≠ requireName ∧ name ≠ moduleName) →
        after.facts = { walk.facts with
          references := after.facts.references
          aliases := after.facts.aliases }) ∧
      ∀ write behind key, rest = write :: behind → survey.role write = .tableWrite →
        write.line = first.line → write.a = last → write.constant? = some key →
        (after.step survey write behind).facts = { after.facts with
          references := after.facts.references ++
            [⟨first.line, Dotted.extend (keys.foldl Dotted.extend name) key, true⟩]
          aliases := (after.step survey write behind).facts.aliases } := by
  subst run
  obtain ⟨held, referred⟩ := step_globalRead walk role target (reads ++ rest)
  obtain ⟨anchor, facts⟩ := runBefore_reads chain held referred rest
  refine ⟨congrArg Facts.references facts, anchor, ?_, ?_⟩
  · intro plain
    have idle : Idle survey first (reads ++ rest) name := by
      rcases plain with follows | ⟨noRequire, noModule⟩
      · cases chain with
        | done register => exact absurd rfl follows
        | read role _ _ _ _ => exact idle_of_tableRead role first _ name
      · exact ⟨fun requires => absurd requires noRequire, fun declares => absurd declares noModule⟩
    rw [runBefore, facts, step_globalRead_facts role target idle]
    rfl
  · rintro write behind key rfl role sameLine rfl constant
    rw [← sameLine] at anchor ⊢
    exact step_tableWrite role constant anchor behind

/-- A walk in which the register of the global is that of a local with an alias, another alias is
expected there, and the anchor has been called. -/
def crowded : Walk where
  anchor := some ⟨0, "other", 7, true⟩
  pending := [⟨0, "lib", 1⟩]
  atStart := false
  registers := (Registers.empty.addLocal 0 "x" 1 9).promote 0 (some "other")
  facts := Facts.empty.addAlias ⟨"x", "other"⟩

/-- A field of a global and a method of the field, read into the register of the global. -/
def methodOfField : List Instruction :=
  [⟨2, 7, .getGlobal, 0, some (-1), none, some "a"⟩,
    ⟨3, 7, .getTable, 1, some 0, some (-2), some "\"b\""⟩,
    ⟨4, 7, .self, 0, some 1, some (-3), some "\"c\""⟩]

/-- A field of what is in that register is written. -/
def fieldOfMethod : Instruction := ⟨5, 7, .setTable, 0, some (-4), some 3, some "\"d\" -"⟩

theorem chain_references_crowded :
    (crowded.runBefore ⟨.lua51, .empty⟩ [fieldOfMethod] methodOfField).facts.references =
        [⟨7, "a", false⟩, ⟨7, "a.b", false⟩, ⟨7, "a.b.c", false⟩] ∧
      ((crowded.runBefore ⟨.lua51, .empty⟩ [fieldOfMethod] methodOfField).step ⟨.lua51, .empty⟩
          fieldOfMethod []).facts.references =
        [⟨7, "a", false⟩, ⟨7, "a.b", false⟩, ⟨7, "a.b.c", false⟩, ⟨7, "a.b.c.d", true⟩] := by
  obtain ⟨references, _, _, written⟩ := chain_references ⟨.lua51, .empty⟩ crowded
    ⟨2, 7, .getGlobal, 0, some (-1), none, some "a"⟩
    [⟨3, 7, .getTable, 1, some 0, some (-2), some "\"b\""⟩,
      ⟨4, 7, .self, 0, some 1, some (-3), some "\"c\""⟩]
    [fieldOfMethod] "a" ["b", "c"] 0 rfl (by decide)
    (.read rfl rfl rfl (by decide) (.read rfl rfl rfl (by decide) (.done 0))) rfl
  have last := congrArg Facts.references
    (written fieldOfMethod [] "d" rfl rfl rfl rfl (by decide))
  rw [references] at last
  exact ⟨references, last⟩

end Walk

end GlobalAudit
