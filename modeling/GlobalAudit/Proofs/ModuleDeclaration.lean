import GlobalAudit.Proofs.Walk

/-! Where the declaration of a module comes from. Only reading the declaring function and replacing the
environment declare a module, and the first declaration of a file stands. -/
namespace GlobalAudit

namespace Walk

/-- A run keeps an earlier declaration. -/
theorem run_declaration {survey : Survey} {code : List Instruction} {walk : Walk}
    {declaration : ModuleDeclaration} (made : walk.facts.declaration = some declaration) :
    (walk.run survey code).facts.declaration = some declaration := by
  induction code generalizing walk with
  | nil => exact made
  | cons instruction ahead ih =>
      apply ih
      rw [(step_effect survey instruction ahead walk).declaration, made, Option.some_or]

/-- A run that ends with a declaration started with it or has made it at one of its steps. -/
theorem exists_declaring_step {survey : Survey} {code : List Instruction} {walk : Walk}
    {declaration : ModuleDeclaration}
    (made : (walk.run survey code).facts.declaration = some declaration) :
    walk.facts.declaration = some declaration ∨
      ∃ before instruction ahead, code = before ++ instruction :: ahead ∧
        (walk.runBefore survey (instruction :: ahead) before).facts.declaration = none ∧
        ((walk.runBefore survey (instruction :: ahead) before).step survey instruction
          ahead).facts.declaration = some declaration := by
  induction code generalizing walk with
  | nil => exact .inl made
  | cons instruction ahead ih =>
      cases here : walk.facts.declaration with
      | some earlier =>
          -- The first declaration stays, so this one was there from the start.
          left
          have kept : (walk.run survey (instruction :: ahead)).facts.declaration = some earlier :=
            run_declaration here
          exact kept.symm.trans made
      | none =>
          right
          rcases ih made with now | ⟨before, next, rest, rfl, free, found⟩
          · exact ⟨[], instruction, ahead, rfl, here, now⟩
          · exact ⟨instruction :: before, next, rest, rfl, free, found⟩

end Walk

namespace Survey

variable {survey : Survey}

theorem begin_declaration (isMain : Bool) (function : Function) (facts : Facts) :
    (survey.begin isMain function facts).facts.declaration = facts.declaration := by
  rw [(begin_effect survey isMain function facts).declaration, Option.or_none]
  rfl

theorem functions_declaration {isFirst : Bool} {functions : List Function} {facts : Facts}
    {declaration : ModuleDeclaration} (made : facts.declaration = some declaration) :
    (survey.functions isFirst functions facts).2.declaration = some declaration := by
  induction functions generalizing isFirst facts with
  | nil => exact made
  | cons function rest ih =>
      rw [functions_cons_facts]
      apply ih
      apply Walk.run_declaration
      rw [begin_declaration, made]

/-- Functions that end with a declaration started with it or have made it in one of them. -/
theorem exists_declaring_function {isFirst : Bool} {functions : List Function} {facts : Facts}
    {declaration : ModuleDeclaration}
    (made : (survey.functions isFirst functions facts).2.declaration = some declaration) :
    facts.declaration = some declaration ∨
      ∃ earlier function later, functions = earlier ++ function :: later ∧
        (survey.functions isFirst earlier facts).2.declaration = none ∧
        ((survey.begin (isFirst && earlier.isEmpty && function.isMain) function
          (survey.functions isFirst earlier facts).2).run survey
            function.instructions).facts.declaration = some declaration := by
  induction functions generalizing isFirst facts with
  | nil => exact .inl made
  | cons function rest ih =>
      cases here : facts.declaration with
      | some first =>
          left
          exact (functions_declaration here).symm.trans made
      | none =>
          right
          rw [functions_cons_facts] at made
          rcases ih made with now | ⟨earlier, other, later, rfl, free, found⟩
          · refine ⟨[], function, rest, rfl, here, ?_⟩
            rw [List.isEmpty_nil, Bool.and_true]
            exact now
          · refine ⟨function :: earlier, other, later, rfl, free, ?_⟩
            rw [List.isEmpty_cons, Bool.and_false]
            exact found

end Survey

namespace Site

variable {listing : Listing}

/-- The file has no declaration before the place, and behind it the one that stands. -/
def Declares (site : Site listing) (catalog : Catalog) : Prop :=
  (site.walk catalog).facts.declaration = none ∧
    ∃ declaration, (site.next catalog).facts.declaration = some declaration ∧
      (listing.facts catalog).declaration = some declaration

theorem declares_iff (site : Site listing) (catalog : Catalog) :
    site.Declares catalog ↔
      (site.walk catalog).facts.declaration = none ∧
        (site.next catalog).facts.declaration.isSome = true := by
  constructor
  · rintro ⟨free, declaration, made, _⟩
    exact ⟨free, by rw [made]; rfl⟩
  · rintro ⟨free, made⟩
    obtain ⟨declaration, made⟩ := Option.isSome_iff_exists.mp made
    refine ⟨free, declaration, made, ?_⟩
    rw [site.facts_eq]
    exact Survey.functions_declaration (Walk.run_declaration made)

/-- A file has a declaration exactly when it is made at some place. -/
theorem exists_declares (catalog : Catalog) :
    (listing.facts catalog).declaration.isSome = true ↔ ∃ site : Site listing, site.Declares catalog := by
  constructor
  · intro made
    obtain ⟨declaration, made⟩ := Option.isSome_iff_exists.mp made
    rcases Survey.exists_declaring_function made with impossible |
      ⟨earlier, function, later, functions, free, found⟩
    · cases impossible
    · rcases Walk.exists_declaring_step found with early | ⟨before, instruction, ahead, code, none, now⟩
      · rw [Survey.begin_declaration] at early
        cases free.symm.trans early
      · refine ⟨⟨earlier, function, later, before, instruction, ahead, functions, code⟩, ?_⟩
        rw [declares_iff]
        exact ⟨none, Option.isSome_iff_exists.mpr ⟨declaration, now⟩⟩
  · rintro ⟨site, _, declaration, _, made⟩
    rw [made]
    rfl

/-! ## Reading the declaring function -/

/-- The instruction loads the declaring function. -/
def ReadsModule (site : Site listing) : Prop :=
  listing.dialect.role? site.instruction.opcode = some .globalRead ∧
    listing.dialect.target? site.instruction = some (.global moduleName)

/-- What the instruction has loaded is called, and is still in its register then. -/
def CalledLater (site : Site listing) : Prop :=
  ∃ between call rest, site.ahead = between ++ call :: rest ∧
    listing.dialect.role? call.opcode = some .call ∧ call.a = site.instruction.a ∧
    ∀ other ∈ between, other.overwrites site.instruction.a = false

/-- The next instruction passes on all arguments, calls something or loads a string. -/
def OpensModule (site : Site listing) : Prop :=
  ∃ next rest, site.ahead = next :: rest ∧
    (listing.dialect.role? next.opcode = some .vararg ∨ listing.dialect.role? next.opcode = some .call ∨
      (listing.dialect.role? next.opcode = some .loadConstant ∧ next.constant?.isSome = true))

/-- Whether a register is called before anything is stored into it. -/
def callsFirst (dialect : Dialect) (register : Int) : List Instruction → Bool
  | [] => false
  | next :: rest =>
    if dialect.role? next.opcode = some .call ∧ next.a = register then true
    else !next.overwrites register && callsFirst dialect register rest

theorem callsFirst_iff (dialect : Dialect) (register : Int) (code : List Instruction) :
    callsFirst dialect register code = true ↔
      ∃ between call rest, code = between ++ call :: rest ∧ dialect.role? call.opcode = some .call ∧
        call.a = register ∧ ∀ other ∈ between, other.overwrites register = false := by
  induction code with
  | nil => simp [callsFirst]
  | cons next rest ih =>
      rw [callsFirst]
      constructor
      · intro calls
        split at calls
        · rename_i here
          exact ⟨[], next, rest, rfl, here.1, here.2, by simp⟩
        · rw [Bool.and_eq_true, Bool.not_eq_true', ih] at calls
          obtain ⟨kept, between, call, behind, rfl, isCall, same, free⟩ := calls
          refine ⟨next :: between, call, behind, rfl, isCall, same, ?_⟩
          intro other member
          rcases List.mem_cons.mp member with rfl | inside
          · exact kept
          · exact free other inside
      · rintro ⟨between, call, behind, code, isCall, same, free⟩
        split
        · rfl
        · rename_i elsewhere
          cases between with
          | nil =>
              cases code
              exact absurd ⟨isCall, same⟩ elsewhere
          | cons first more =>
              cases code
              rw [Bool.and_eq_true, Bool.not_eq_true', ih]
              exact ⟨free _ List.mem_cons_self, more, call, behind, rfl, isCall, same,
                fun other member => free other (List.mem_cons_of_mem _ member)⟩

theorem ReadsModule.declared? {site : Site listing} (reads : site.ReadsModule) (catalog : Catalog)
    (walk : Walk) :
    walk.declared? (listing.surveyOf catalog) site.instruction site.ahead
        ((listing.surveyOf catalog).role site.instruction) =
      Walk.declaration? (listing.surveyOf catalog) site.instruction site.ahead := by
  have role : (listing.surveyOf catalog).role site.instruction = .globalRead := by
    rw [Survey.role, Listing.surveyOf, reads.1, Option.getD_some]
  rw [role, Walk.declared?]
  exact if_pos reads.2

theorem isSome_declaration?_iff (site : Site listing) (catalog : Catalog) :
    (Walk.declaration? (listing.surveyOf catalog) site.instruction site.ahead).isSome = true ↔
      site.OpensModule := by
  have roleOf (next : Instruction) {role : Role} (proper : role ≠ .other) :=
    (listing.surveyOf catalog).role_eq_iff next proper
  rw [Walk.declaration?.eq_def, OpensModule]
  cases site.ahead with
  | nil => simp
  | cons next rest =>
      have only : (∃ first more, next :: rest = first :: more ∧
          (listing.dialect.role? first.opcode = some .vararg ∨
            listing.dialect.role? first.opcode = some .call ∨
            (listing.dialect.role? first.opcode = some .loadConstant ∧
              first.constant?.isSome = true))) ↔
          (listing.surveyOf catalog).role next = .vararg ∨
            (listing.surveyOf catalog).role next = .call ∨
            ((listing.surveyOf catalog).role next = .loadConstant ∧ next.constant?.isSome = true) := by
        rw [roleOf next (by decide), roleOf next (by decide), roleOf next (by decide)]
        constructor
        · rintro ⟨first, more, same, opens⟩
          cases same
          exact opens
        · intro opens
          exact ⟨next, rest, rfl, opens⟩
      rw [only]
      cases role : (listing.surveyOf catalog).role next <;> simp [role]

/-- A read of the declaring function declares a module when there is no declaration yet and what
comes next opens one. So the function is called wherever it declares a module exactly in the files
where, at each such read, the register is called before it is stored into. -/
theorem declaring_reads_called_iff (catalog : Catalog) (listing : Listing) :
    ((listing.facts catalog).declaration.isSome = true ↔
        ∃ site : Site listing, site.Declares catalog) ∧
      (∀ site : Site listing, site.ReadsModule →
        (site.Declares catalog ↔
          (site.walk catalog).facts.declaration = none ∧ site.OpensModule)) ∧
      ((∀ site : Site listing, site.ReadsModule → site.Declares catalog → site.CalledLater) ↔
        ∀ site : Site listing, site.ReadsModule →
          (site.walk catalog).facts.declaration = none → site.OpensModule →
            callsFirst listing.dialect site.instruction.a site.ahead = true) := by
  have declares (site : Site listing) (reads : site.ReadsModule) :
      site.Declares catalog ↔
        (site.walk catalog).facts.declaration = none ∧ site.OpensModule := by
    rw [declares_iff]
    apply and_congr_right
    intro free
    rw [Site.next, (Walk.step_effect _ _ _ _).declaration, free, Option.none_or, reads.declared?,
      isSome_declaration?_iff]
  refine ⟨exists_declares catalog, declares, ?_, ?_⟩
  · intro called site reads free opens
    exact (callsFirst_iff _ _ _).mpr (called site reads ((declares site reads).mpr ⟨free, opens⟩))
  · intro first site reads made
    obtain ⟨free, opens⟩ := (declares site reads).mp made
    exact (callsFirst_iff _ _ _).mp (first site reads free opens)

/-- A file that keeps the declaring function in one local and a string in the next. -/
def mention : Listing where
  dialect := .lua51
  functions := [{
    header := "main <t.lua:0,0>"
    instructions :=
      [⟨1, 1, .getGlobal, 0, some (-1), none, some "module"⟩,
       ⟨2, 2, .loadK, 1, some (-2), none, some "\"x\""⟩,
       ⟨3, 2, .return, 0, some 1, none, none⟩]
    registers := (Registers.empty.addLocal 0 "m" 2 4).addLocal 1 "s" 3 4 }]

/-- The function is never called, yet the file counts as a strict module. -/
theorem mention_declares :
    (mention.facts .empty).declaration = some ⟨1, some "x", .strict⟩ ∧
      ¬ ∀ site : Site mention, site.ReadsModule → site.Declares .empty → site.CalledLater := by
  refine ⟨by decide, ?_⟩
  intro called
  let site : Site mention :=
    { earlier := [], function := mention.functions.head (by decide), later := [],
      before := [], instruction := ⟨1, 1, .getGlobal, 0, some (-1), none, some "module"⟩,
      ahead :=
        [⟨2, 2, .loadK, 1, some (-2), none, some "\"x\""⟩, ⟨3, 2, .return, 0, some 1, none, none⟩],
      functions_eq := rfl, code_eq := rfl }
  have made : site.Declares .empty :=
    (site.declares_iff .empty).mpr ⟨by decide, by decide⟩
  obtain ⟨between, call, rest, code, isCall, _, _⟩ := called site ⟨by decide, by decide⟩ made
  have member : call ∈ site.ahead := by
    rw [code]
    exact List.mem_append_right between List.mem_cons_self
  rcases List.mem_cons.mp member with rfl | later
  · cases isCall
  · rw [List.mem_singleton] at later
    rw [later] at isCall
    cases isCall

end Site

end GlobalAudit
