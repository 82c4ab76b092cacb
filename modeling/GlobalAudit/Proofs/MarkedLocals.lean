import GlobalAudit.Proofs.AliasSettling
import GlobalAudit.Proofs.Vocabulary

/-!
# Marked locals and the aliases of a file

What a local stands for is kept twice: as a mark on the local, for the function that it belongs to, and
in the aliases of the file, for functions that reach the local as an upvalue. A mark is replaced when
the local comes to stand for something else, while aliases are only added. Marks come from three
places: the module that is returned, a module that is required, and a register that was loaded with
something named.
-/
namespace GlobalAudit

/-- The local is named in the source, and what it stands for is among the aliases. -/
structure LocalVariable.IsListed (aliases : List Alias) (var : LocalVariable) : Prop where
  named : var.isInternal = false
  entry : ∃ name, var.target = some name ∧ ⟨var.name, name⟩ ∈ aliases

/-! ## Marks on the variables of a function -/

namespace Registers

variable {registers : Registers} {slot index position : Nat}

/-- What a register is found to hold is a local that the source names. -/
theorem named_of_find? {atStart : Bool} (found : registers.find? slot index atStart = some position) :
    ∃ var, registers.locals[position]? = some var ∧ var.isInternal = false := by
  have chosen : ∃ candidate ∈ registers.candidates slot, candidate.1 = position := by
    rw [find?] at found
    split at found
    · obtain ⟨candidate, first, same⟩ := Option.map_eq_some_iff.mp found
      exact ⟨candidate, List.mem_of_find?_eq_some first, same⟩
    · split at found
      · rename_i candidate first
        exact ⟨candidate, List.mem_of_find?_eq_some first, Option.some.inj found⟩
      · obtain ⟨candidate, latest, same⟩ := Option.map_eq_some_iff.mp found
        exact ⟨candidate, (List.mem_filter.mp (mem_of_latest? latest)).1, same⟩
  obtain ⟨⟨place, var⟩, member, rfl⟩ := chosen
  exact ⟨var, (mem_candidates member).2, by simpa using (List.mem_filter.mp member).2⟩

theorem SameVariables.symm {first second : Registers} (same : SameVariables first second) :
    SameVariables second first :=
  ⟨same.locals.symm, same.bySlot.symm, same.upvalues.symm⟩

theorem SameVariables.exists_getElem? {first second : Registers} (same : SameVariables first second)
    {old : LocalVariable} (found : first.locals[position]? = some old) :
    ∃ new, second.locals[position]? = some new ∧ new.name = old.name ∧
      new.isInternal = old.isInternal := by
  have there : (second.locals.map LocalVariable.unmarked)[position]? = some old.unmarked := by
    rw [same.locals, List.getElem?_map, found]
    rfl
  rw [List.getElem?_map] at there
  obtain ⟨new, after, same⟩ := Option.map_eq_some_iff.mp there
  have sameName : new.name = old.name := by injection same
  exact ⟨new, after, sameName, by rw [LocalVariable.isInternal, sameName, LocalVariable.isInternal]⟩

/-- Nothing but marks is changed, and each new mark is listed. -/
structure MarkedBy (aliases : List Alias) (before after : Registers) : Prop where
  sameVariables : SameVariables before after
  marks : ∀ (position : Nat) (old new : LocalVariable),
    before.locals[position]? = some old → after.locals[position]? = some new →
      new.target = old.target ∨ new.IsListed aliases

/-- Some local of that name is named in the source and stands for something. -/
def Knows (registers : Registers) (name : String) : Prop :=
  ∃ var ∈ registers.locals, var.name = name ∧ var.isInternal = false ∧ var.target.isSome = true

namespace MarkedBy

variable {aliases later : List Alias} {first second third : Registers}

theorem refl (aliases : List Alias) (registers : Registers) :
    MarkedBy aliases registers registers := by
  refine ⟨.refl registers, ?_⟩
  intro position old new here there
  cases here.symm.trans there
  exact .inl rfl

theorem mono (marked : MarkedBy aliases first second) (more : aliases ⊆ later) :
    MarkedBy later first second := by
  refine ⟨marked.sameVariables, ?_⟩
  intro position old new here there
  rcases marked.marks position old new here there with kept | ⟨named, name, stands, entry⟩
  · exact .inl kept
  · exact .inr ⟨named, name, stands, more entry⟩

theorem trans (early : MarkedBy aliases first second) (late : MarkedBy aliases second third) :
    MarkedBy aliases first third := by
  refine ⟨early.sameVariables.trans late.sameVariables, ?_⟩
  intro position old new here there
  obtain ⟨middle, between, _⟩ := early.sameVariables.exists_getElem? here
  obtain ⟨_, again, sameName, sameKind⟩ := late.sameVariables.exists_getElem? between
  cases there.symm.trans again
  rcases late.marks position middle new between there with kept | listed
  · rcases early.marks position old middle here between with first | ⟨named, name, stands, entry⟩
    · exact .inl (kept.trans first)
    · exact .inr ⟨sameKind.trans named, name, kept.trans stands, sameName ▸ entry⟩
  · exact .inr listed

/-- A mark may be replaced but is never taken away. -/
theorem knows (marked : MarkedBy aliases first second) {name : String} (known : first.Knows name) :
    second.Knows name := by
  obtain ⟨old, member, rfl, named, stands⟩ := known
  obtain ⟨position, here⟩ := List.mem_iff_getElem?.mp member
  obtain ⟨new, there, sameName, sameKind⟩ := marked.sameVariables.exists_getElem? here
  refine ⟨new, List.mem_of_getElem? there, sameName, sameKind.trans named, ?_⟩
  rcases marked.marks position old new here there with kept | ⟨_, _, target, _⟩
  · rw [kept]
    exact stands
  · rw [target]
    rfl

theorem promote {found : LocalVariable} {target : Option String}
    (there : first.locals[position]? = some found) (named : found.isInternal = false)
    (entry : (found.promoted target).asAlias ∈ aliases) :
    MarkedBy aliases first (first.promote position target) := by
  refine ⟨.promote first position target, ?_⟩
  intro other old new here after
  rw [Registers.promote, List.getElem?_modify, here] at after
  by_cases same : position = other
  · cases same
    cases there.symm.trans here
    simp only [if_true] at after
    cases after
    exact .inr ⟨named, _, rfl, entry⟩
  · simp only [if_neg same] at after
    cases after
    exact .inl rfl

end MarkedBy

theorem knows_promote {found : LocalVariable} (there : registers.locals[position]? = some found)
    (named : found.isInternal = false) (target : Option String) :
    (registers.promote position target).Knows found.name := by
  have after : (registers.promote position target).locals[position]? =
      some (found.promoted target) := by
    rw [Registers.promote, List.getElem?_modify, there]
    simp only [if_true]
    rfl
  exact ⟨_, List.mem_of_getElem? after, rfl, named, rfl⟩

end Registers

/-! ## What is added to the facts -/

/-- Aliases are added behind the others, for known names only, and a local that receives a module
stands for itself. -/
structure Facts.Adds (known : String → Prop) (before after : Facts) : Prop where
  aliases : ∃ added, after.aliases = before.aliases ++ added ∧ ∀ entry ∈ added, known entry.name
  receivers : ∀ entry ∈ after.requires, entry ∈ before.requires ∨
    ∀ name, entry.receiver = some name → ⟨name, name⟩ ∈ after.aliases

namespace Facts.Adds

variable {known other : String → Prop} {first second third : Facts}

theorem of_eq (aliases : second.aliases = first.aliases)
    (requires : second.requires = first.requires) : Adds known first second := by
  refine ⟨⟨[], by rw [aliases, List.append_nil], by simp⟩, ?_⟩
  intro entry member
  exact .inl (requires ▸ member)

theorem mono (adds : Adds known first second) (more : ∀ name, known name → other name) :
    Adds other first second := by
  obtain ⟨added, same, names⟩ := adds.aliases
  exact ⟨⟨added, same, fun entry member => more _ (names entry member)⟩, adds.receivers⟩

theorem aliases_grow (adds : Adds known first second) : first.aliases <+: second.aliases := by
  obtain ⟨added, same, _⟩ := adds.aliases
  exact ⟨added, same.symm⟩

theorem trans (early : Adds known first second) (late : Adds known second third) :
    Adds known first third := by
  obtain ⟨front, sameFront, namesFront⟩ := early.aliases
  obtain ⟨back, sameBack, namesBack⟩ := late.aliases
  constructor
  · refine ⟨front ++ back, by rw [sameBack, sameFront, List.append_assoc], ?_⟩
    intro entry member
    exact (List.mem_append.mp member).elim (namesFront entry) (namesBack entry)
  · intro entry member
    rcases late.receivers entry member with before | received
    · rcases early.receivers entry before with first | received
      · exact .inl first
      · exact .inr fun name receives => late.aliases_grow.subset (received name receives)
    · exact .inr received

end Facts.Adds

/-! ## Marks and aliases on a walk -/

namespace Walk

/-- What happens to both stores on the way from one walk to another: each new mark is listed, and each
new alias has the name of a marked local. -/
structure Traced (before after : Walk) : Prop where
  marked : before.registers.MarkedBy after.facts.aliases after.registers
  facts : before.facts.Adds after.registers.Knows after.facts

theorem Traced.of_steady {before after : Walk} (steady : Steady before after) : Traced before after :=
  ⟨steady.registers ▸ .refl _ _, .of_eq steady.aliases steady.requires⟩

theorem Traced.trans {first second third : Walk} (early : Traced first second)
    (late : Traced second third) : Traced first third :=
  ⟨(early.marked.mono late.facts.aliases_grow.subset).trans late.marked,
    (early.facts.mono fun _ => late.marked.knows).trans late.facts⟩

variable (survey : Survey) (instruction : Instruction) (ahead : List Instruction) (walk : Walk)

/-- Giving an alias finds no local, or it marks one that the source names and lists the mark. -/
theorem promote_cases (register : Int) (index : Nat) (target : Option String) (atStart : Bool) :
    walk.promote register index target atStart = (walk, none) ∨
      ∃ position found, walk.registers.locals[position]? = some found ∧ found.isInternal = false ∧
        walk.promote register index target atStart =
          ({ walk with
              registers := walk.registers.promote position target
              facts := walk.facts.addAlias (found.promoted target).asAlias }, some found.name) := by
  rw [promote]
  cases held : walk.local? register index atStart with
  | none => exact .inl rfl
  | some position =>
      obtain ⟨slot, _, finds⟩ := Option.bind_eq_some_iff.mp held
      obtain ⟨found, there, named⟩ := Registers.named_of_find? finds
      refine .inr ⟨position, found, there, named, ?_⟩
      simp only [there]

theorem promote_traced (register : Int) (index : Nat) (target : Option String) (atStart : Bool) :
    Traced walk (walk.promote register index target atStart).1 := by
  rcases promote_cases walk register index target atStart with
    same | ⟨position, found, there, named, same⟩
  · rw [same]
    exact .of_steady (.refl walk)
  · rw [same]
    refine ⟨.promote there named (List.mem_append_right _ (List.mem_singleton_self _)), ?_⟩
    refine ⟨⟨[(found.promoted target).asAlias], rfl, ?_⟩, fun entry member => .inl member⟩
    intro entry member
    rw [List.mem_singleton.mp member]
    exact Registers.knows_promote there named target

/-- A local that is given its own name is listed last, under this name. -/
theorem promote_aliases {register : Int} {index : Nat} {atStart : Bool} {name : String}
    (given : (walk.promote register index none atStart).2 = some name) :
    (walk.promote register index none atStart).1.facts.aliases =
      walk.facts.aliases ++ [⟨name, name⟩] := by
  rcases promote_cases walk register index none atStart with
    same | ⟨position, found, there, named, same⟩
  · rw [same] at given
    cases given
  · rw [same] at given ⊢
    cases given
    rfl

theorem requireCall_traced : Traced walk (walk.requireCall survey instruction ahead) := by
  rw [requireCall]
  split
  · exact .of_steady (.refl walk)
  · rename_i name call _
    -- One more require, whose receiver is listed.
    have required (promoted : Walk) (receiver : Option String)
        (listed : ∀ name, receiver = some name → ⟨name, name⟩ ∈ promoted.facts.aliases) :
        Traced promoted
          { promoted with facts := promoted.facts.addRequire instruction.line name receiver } := by
      refine ⟨.refl _ _, ⟨[], (List.append_nil _).symm, by simp⟩, ?_⟩
      intro entry member
      rcases List.mem_append.mp member with old | new
      · exact .inl old
      · rw [List.mem_singleton.mp new]
        exact .inr listed
    by_cases single : call.c = some 2
    · simp only [if_pos single]
      refine (promote_traced walk call.a call.index none false).trans (required _ _ ?_)
      intro receiver given
      rw [promote_aliases walk given]
      exact List.mem_append_right _ (List.mem_singleton_self _)
    · simp only [if_neg single]
      exact required walk none fun _ given => by cases given

theorem settled_traced : Traced walk (walk.settled survey instruction) := by
  obtain ⟨anchor, same⟩ := exists_settled_eq survey instruction walk
  have settled : Traced walk (walk.settle (survey.role instruction == .call) instruction) := by
    apply settle_preserves instruction walk _ (Traced walk)
    · exact .of_steady ⟨rfl, rfl, rfl, rfl⟩
    · intro entry _ other traced
      exact traced.trans (promote_traced other _ _ _ _)
  rw [same]
  exact settled.trans (.of_steady ⟨rfl, rfl, rfl, rfl⟩)

theorem step_traced : Traced walk (walk.step survey instruction ahead) := by
  have acted : Traced walk ((walk.settled survey instruction).act survey (survey.role instruction)
      instruction ahead) := by
    refine (settled_traced survey instruction walk).trans ?_
    rcases act_steady survey instruction ahead (walk.settled survey instruction)
      (survey.role instruction) with steady | ⟨loaded, steady, calls⟩
    · exact .of_steady steady
    · rw [calls]
      exact (Traced.of_steady steady).trans (requireCall_traced survey instruction ahead loaded)
  exact acted.trans (.of_steady ⟨rfl, rfl, rfl, rfl⟩)

theorem run_traced (code : List Instruction) : Traced walk (walk.run survey code) := by
  induction code generalizing walk with
  | nil => exact .of_steady (.refl walk)
  | cons instruction ahead ih => exact (step_traced survey instruction ahead walk).trans (ih _)

theorem returnedModule_cases (code : List Instruction) :
    walk.returnedModule survey code = walk ∨
      ∃ name, (walk.returnedModule survey code).facts.returned = some name ∧
        (walk.returnedModule survey code).facts.aliases = walk.facts.aliases ++ [⟨name, name⟩] := by
  rw [returnedModule]
  split
  · exact .inl rfl
  · rename_i result _
    rcases promote_cases walk result.a result.index none false with
      same | ⟨position, found, _, _, same⟩
    · rw [same]
      exact .inl rfl
    · rw [same]
      exact .inr ⟨found.name, rfl, rfl⟩

theorem returnedModule_traced (code : List Instruction) :
    Traced walk (walk.returnedModule survey code) := by
  rw [returnedModule]
  split
  · exact .of_steady (.refl walk)
  · rename_i result _
    have promoted := promote_traced walk result.a result.index none false
    split
    · rename_i same
      rw [same] at promoted
      exact ⟨promoted.marked, promoted.facts.aliases, promoted.facts.receivers⟩
    · rename_i same
      rw [same] at promoted
      exact promoted

end Walk

/-! ## Marks and aliases of a listing -/

/-- The function stays, except for marks on its locals, and each new mark is listed. -/
structure Function.MarkedBy (aliases : List Alias) (before after : Function) : Prop where
  header : after.header = before.header
  instructions : after.instructions = before.instructions
  registers : before.registers.MarkedBy aliases after.registers

theorem Function.MarkedBy.isListed {aliases : List Alias} {before after : Function}
    (marked : MarkedBy aliases before after) (unmarked : before.Unmarked) {var : LocalVariable}
    (member : var ∈ after.registers.locals) (stands : var.target ≠ none) : var.IsListed aliases := by
  obtain ⟨position, there⟩ := List.mem_iff_getElem?.mp member
  obtain ⟨old, here, _⟩ := marked.registers.sameVariables.symm.exists_getElem? there
  rcases marked.registers.marks position old var here there with kept | listed
  · exact absurd (kept.trans (unmarked old (List.mem_of_getElem? here))) stands
  · exact listed

namespace Survey

variable (survey : Survey)

theorem begin_traced (isMain : Bool) (function : Function) (facts : Facts) :
    (Walk.start function.registers facts).Traced (survey.begin isMain function facts) := by
  rw [begin]
  split
  · exact Walk.returnedModule_traced survey _ _
  · exact .of_steady (.refl _)

/-- Each function is marked, and the aliases that it adds stay for those behind it. -/
theorem functions_traced (isFirst : Bool) (functions : List Function) (facts : Facts) :
    List.Forall₂ (Function.MarkedBy (survey.functions isFirst functions facts).2.aliases) functions
        (survey.functions isFirst functions facts).1 ∧
      facts.Adds (fun name => ∃ function ∈ (survey.functions isFirst functions facts).1,
        function.registers.Knows name) (survey.functions isFirst functions facts).2 := by
  induction functions generalizing isFirst facts with
  | nil => exact ⟨.nil, .of_eq rfl rfl⟩
  | cons function rest ih =>
      have walked := (begin_traced survey (isFirst && function.isMain) function facts).trans
        (Walk.run_traced survey _ function.instructions)
      obtain ⟨others, later⟩ := ih false
        ((survey.begin (isFirst && function.isMain) function facts).run survey
          function.instructions).facts
      refine ⟨.cons ⟨rfl, rfl, walked.marked.mono later.aliases_grow.subset⟩ others, ?_⟩
      refine (walked.facts.mono ?_).trans (later.mono ?_)
      · intro name known
        exact ⟨_, List.mem_cons_self, known⟩
      · rintro name ⟨other, member, known⟩
        exact ⟨other, List.mem_cons_of_mem _ member, known⟩

/-- The module that a first function returns is the only alias before its first instruction. -/
theorem begin_aliases {isMain : Bool} {function : Function} {name : String}
    (returned : (survey.begin isMain function .empty).facts.returned = some name) :
    (survey.begin isMain function .empty).facts.aliases = [⟨name, name⟩] := by
  rw [begin] at returned ⊢
  split at returned
  · rename_i main
    rw [if_pos main]
    rcases Walk.returnedModule_cases survey (Walk.start function.registers .empty)
      function.instructions with same | ⟨other, known, listed⟩
    · rw [same] at returned
      cases returned
    · cases known.symm.trans returned
      exact listed
  · cases returned

theorem functions_returned {functions : List Function} {name : String}
    (returned : (survey.functions true functions .empty).2.returned = some name) :
    (survey.functions true functions .empty).2.aliases.head? = some ⟨name, name⟩ := by
  cases functions with
  | nil => cases returned
  | cons function rest =>
      rw [functions_cons_facts] at returned ⊢
      generalize begun : survey.begin (true && function.isMain) function .empty = start at returned ⊢
      have grows := (Walk.run_grows survey start function.instructions).trans
        (functions_grows survey rest _)
      have listed : start.facts.aliases = [⟨name, name⟩] := by
        rw [← begun]
        apply begin_aliases
        rw [begun, ← grows.returned]
        exact returned
      have walked := (Walk.run_traced survey start function.instructions).facts.aliases_grow
      have later := (functions_traced survey false rest
        (start.run survey function.instructions).facts).2.aliases_grow
      obtain ⟨added, same⟩ := walked.trans later
      rw [← same, listed]
      rfl

end Survey

namespace Listing

/-- Marks on locals are all that a survey changes, and they agree with the aliases. Each mark that is
made is on a local that the source names, and is listed as an alias; each alias has the name of such a
marked local; a local that receives a module is listed under its own name; and the one that is returned
as the module is listed so before all others. If no local stands for anything beforehand, as in every
listing that is read from a text, this holds for all marks. -/
theorem survey_marks_listed (catalog : Catalog) (listing : Listing) :
    let marked := (listing.survey catalog).1
    let facts := (listing.survey catalog).2
    marked.dialect = listing.dialect ∧
      List.Forall₂ (Function.MarkedBy facts.aliases) listing.functions marked.functions ∧
      (∀ entry ∈ facts.aliases, ∃ function ∈ marked.functions, function.registers.Knows entry.name) ∧
      (∀ entry ∈ facts.requires, ∀ name, entry.receiver = some name → ⟨name, name⟩ ∈ facts.aliases) ∧
      (∀ name, facts.returned = some name → facts.aliases.head? = some ⟨name, name⟩) ∧
      ((∀ function ∈ listing.functions, function.Unmarked) →
        ∀ function ∈ marked.functions, ∀ var ∈ function.registers.locals, ∀ name,
          var.target = some name → var.isInternal = false ∧ ⟨var.name, name⟩ ∈ facts.aliases) ∧
      ∀ dialect text, parse dialect text = .ok listing →
        ∀ function ∈ listing.functions, function.Unmarked := by
  intro marked facts
  obtain ⟨functions, adds⟩ :=
    (listing.surveyOf catalog).functions_traced true listing.functions .empty
  refine ⟨rfl, functions, ?_, ?_, ?_, ?_, fun dialect text read => unmarked_of_parse read⟩
  · obtain ⟨added, same, names⟩ := adds.aliases
    intro entry member
    have new : entry ∈ [] ++ added := same ▸ member
    exact names entry new
  · intro entry member
    rcases adds.receivers entry member with before | received
    · cases before
    · exact received
  · intro name returned
    exact (listing.surveyOf catalog).functions_returned returned
  · intro unmarked function member var inside name stands
    obtain ⟨length, each⟩ := List.forall₂_iff_get.mp functions
    obtain ⟨⟨place, bound⟩, rfl⟩ := List.mem_iff_get.mp member
    have kept := each place (length ▸ bound) bound
    obtain ⟨named, other, known, entry⟩ := kept.isListed (unmarked _ (List.get_mem _ _)) inside
      (stands ▸ Option.some_ne_none name)
    cases known.symm.trans stands
    exact ⟨named, entry⟩

/-- A module is required into a local that is returned in the end, a library is kept in a second local,
and the third belongs to the compiler. -/
def moduleWithLoop : Listing where
  dialect := .lua51
  functions :=
    [{ header := "main <t.lua:0,0>"
       instructions :=
         [⟨1, 1, .getGlobal, 0, some (-1), none, some "require"⟩,
          ⟨2, 1, .loadK, 1, some (-2), none, some "\"foo\""⟩,
          ⟨3, 1, .call, 0, some 2, some 2, none⟩,
          ⟨4, 2, .getGlobal, 1, some (-3), none, some "string"⟩,
          ⟨5, 3, .getGlobal, 2, some (-3), none, some "string"⟩,
          ⟨6, 3, .forPrep, 2, some 1, none, none⟩,
          ⟨7, 4, .return, 0, some 2, none, none⟩,
          ⟨8, 4, .return, 0, some 1, none, none⟩]
       registers := ((Registers.empty.addLocal 0 "M" 4 9).addLocal 1 "s" 5 9).addLocal 2
         "(for index)" 6 9 }]

/-- The two locals of the source are marked and listed, and the one of the compiler is not, though a
library was loaded into its register. -/
theorem moduleWithLoop_marks_listed :
    (moduleWithLoop.facts Passage.oneLibrary).aliases =
        [⟨"M", "M"⟩, ⟨"M", "M"⟩, ⟨"s", "string"⟩] ∧
      ((moduleWithLoop.survey Passage.oneLibrary).1.functions.flatMap fun function =>
          function.registers.locals.map fun var => (var.name, var.target)) =
        [("M", some "M"), ("s", some "string"), ("(for index)", none)] ∧
      ∀ function ∈ (moduleWithLoop.survey Passage.oneLibrary).1.functions,
        ∀ var ∈ function.registers.locals, ∀ name, var.target = some name →
          var.isInternal = false ∧
            ⟨var.name, name⟩ ∈ (moduleWithLoop.facts Passage.oneLibrary).aliases := by
  have unmarked : ∀ function ∈ moduleWithLoop.functions, function.Unmarked := by
    simp [moduleWithLoop, Function.Unmarked, Registers.addLocal, Registers.empty]
  obtain ⟨_, _, _, _, _, listed, _⟩ := survey_marks_listed Passage.oneLibrary moduleWithLoop
  exact ⟨by decide, by decide, listed unmarked⟩

end Listing

end GlobalAudit
