import GlobalAudit.Proofs.FactGrowth
import GlobalAudit.Proofs.FirstFault

/-! Where names come from. A walk keeps names in many places: the anchor, the aliases that are
expected, what the locals stand for, the aliases of the file and the references. In all of them a name
is made of texts that the listing itself gives, a root and keys behind it. The roots are the globals
of the listing, the locals that receive required modules and the local that is returned. -/
namespace GlobalAudit

/-- The texts that names are made of. -/
structure Vocabulary where
  root : String → Prop
  key : String → Prop

namespace Vocabulary

variable {vocabulary : Vocabulary}

/-- The name is a root with any number of keys behind it. -/
def Spells (vocabulary : Vocabulary) (name : String) : Prop :=
  ∃ (root : String) (keys : List String), vocabulary.root root ∧
    (∀ key ∈ keys, vocabulary.key key) ∧ name = keys.foldl Dotted.extend root

theorem spells_of_root {name : String} (isRoot : vocabulary.root name) : vocabulary.Spells name := by
  refine ⟨name, [], isRoot, ?_, rfl⟩
  intro key member
  cases member

theorem Spells.extend {name key : String} (spelled : vocabulary.Spells name)
    (isKey : vocabulary.key key) : vocabulary.Spells (Dotted.extend name key) := by
  obtain ⟨root, keys, isRoot, areKeys, rfl⟩ := spelled
  refine ⟨root, keys ++ [key], isRoot, ?_, ?_⟩
  · rw [List.forall_mem_append]
    exact ⟨areKeys, by simpa using isKey⟩
  · rw [List.foldl_append]
    rfl

/-- The global or the key that an instruction names is in the vocabulary. -/
structure Covers (vocabulary : Vocabulary) (survey : Survey) (instruction : Instruction) : Prop where
  global : survey.role instruction = .globalRead ∨ survey.role instruction = .globalWrite →
    ∀ name, survey.dialect.target? instruction = some (.global name) → vocabulary.root name
  field : survey.role instruction = .globalRead ∨ survey.role instruction = .globalWrite →
    ∀ upvalue key, survey.dialect.target? instruction = some (.field upvalue key) →
      vocabulary.key key
  constant : survey.role instruction = .tableRead ∨ survey.role instruction = .tableWrite →
    ∀ key, instruction.constant? = some key → vocabulary.key key

/-- The locals that receive modules, and the one that is returned, are roots. -/
structure Fits (vocabulary : Vocabulary) (facts : Facts) : Prop where
  receiver : ∀ entry ∈ facts.requires, ∀ name, entry.receiver = some name → vocabulary.root name
  returned : ∀ name, facts.returned = some name → vocabulary.root name

end Vocabulary

/-- A vocabulary that fits later facts fits the earlier ones. -/
theorem Facts.Grows.fits {vocabulary : Vocabulary} {before after : Facts}
    (grows : Grows before after) (fits : vocabulary.Fits after) : vocabulary.Fits before where
  receiver := fun entry member => fits.receiver entry (grows.requires.subset member)
  returned := fun name found => fits.returned name (grows.returned.trans found)

/-! ## What locals and aliases stand for -/

theorem Registers.mem_promote {registers : Registers} {position : Nat} {target : Option String}
    {var : LocalVariable} (member : var ∈ (registers.promote position target).locals) :
    var ∈ registers.locals ∨
      ∃ old, registers.locals[position]? = some old ∧ var = old.promoted target := by
  obtain ⟨place, found⟩ := List.mem_iff_getElem?.mp member
  rw [promote, List.getElem?_modify, Option.map_eq_map] at found
  obtain ⟨old, there, rfl⟩ := Option.map_eq_some_iff.mp found
  by_cases here : position = place
  · rw [if_pos here]
    exact .inr ⟨old, here ▸ there, rfl⟩
  · rw [if_neg here]
    exact .inl (List.mem_of_getElem? there)

namespace Walk

variable {vocabulary : Vocabulary} {survey : Survey} {instruction : Instruction}
  {ahead : List Instruction} {walk : Walk}

/-- What the locals and the aliases stand for is spelled from the vocabulary. -/
structure Marked (vocabulary : Vocabulary) (walk : Walk) : Prop where
  locals : ∀ var ∈ walk.registers.locals, ∀ target, var.target = some target →
    vocabulary.Spells target
  aliases : ∀ entry ∈ walk.facts.aliases, vocabulary.Spells entry.target

theorem Marked.of_eq {after : Walk} (marked : walk.Marked vocabulary)
    (registers : after.registers = walk.registers)
    (aliases : after.facts.aliases = walk.facts.aliases) : after.Marked vocabulary :=
  ⟨registers ▸ marked.locals, aliases ▸ marked.aliases⟩

theorem Marked.promote (marked : walk.Marked vocabulary) {register : Int} {index : Nat}
    {target : Option String} {atStart : Bool}
    (new : ∀ name, (walk.promote register index target atStart).2 = some name →
      vocabulary.Spells (target.getD name)) :
    (walk.promote register index target atStart).1.Marked vocabulary := by
  rw [Walk.promote]
  cases held : walk.local? register index atStart with
  | none => exact marked
  | some position =>
      dsimp only
      cases there : walk.registers.locals[position]? with
      | none => exact marked
      | some found =>
          have spelled : vocabulary.Spells (target.getD found.name) := by
            apply new
            rw [Walk.promote, held]
            simp only [there]
          constructor
          · intro var member name stands
            rcases Registers.mem_promote member with old | ⟨old, here, rfl⟩
            · exact marked.locals var old name stands
            · cases there.symm.trans here
              cases stands
              exact spelled
          · intro entry member
            rcases List.mem_append.mp member with old | last
            · exact marked.aliases entry old
            · rw [List.mem_singleton.mp last]
              exact spelled

/-- The local that receives a required module stands for itself, and is among the requires. -/
theorem Marked.requireCall (marked : walk.Marked vocabulary)
    (fits : vocabulary.Fits (walk.requireCall survey instruction ahead).facts) :
    (walk.requireCall survey instruction ahead).Marked vocabulary := by
  rw [Walk.requireCall] at fits ⊢
  split
  · exact marked
  · rename_i name call found
    rw [found] at fits
    by_cases single : call.c = some 2
    · simp only [if_pos single] at fits ⊢
      have received : (walk.promote call.a call.index none false).1.Marked vocabulary := by
        apply marked.promote
        intro receiver known
        refine Vocabulary.spells_of_root (fits.receiver ⟨instruction.line, name, some receiver⟩ ?_
          receiver rfl)
        rw [known]
        exact List.mem_append_right _ (List.mem_singleton_self _)
      exact received.of_eq rfl rfl
    · simp only [if_neg single]
      exact marked.of_eq rfl rfl

theorem Marked.act (marked : walk.Marked vocabulary) (role : Role)
    (fits : vocabulary.Fits (walk.act survey role instruction ahead).facts) :
    (walk.act survey role instruction ahead).Marked vocabulary := by
  rcases act_steady survey instruction ahead walk role with steady | ⟨loaded, steady, calls⟩
  · exact marked.of_eq steady.registers steady.aliases
  · rw [calls] at fits ⊢
    exact (marked.of_eq steady.registers steady.aliases).requireCall fits

theorem Marked.settled (marked : walk.Marked vocabulary)
    (pending : ∀ entry ∈ walk.pending, vocabulary.Spells entry.name) :
    (walk.settled survey instruction).Marked vocabulary := by
  obtain ⟨anchor, same⟩ := exists_settled_eq survey instruction walk
  have settled : (walk.settle (survey.role instruction == .call) instruction).Marked vocabulary := by
    apply settle_preserves instruction walk _ (Marked vocabulary)
    · exact marked.of_eq rfl rfl
    · intro entry member other otherMarked
      exact otherMarked.promote fun _ _ => pending entry member
  rw [same]
  exact settled.of_eq rfl rfl

/-! ## All names of a walk -/

/-- All names that the walk keeps are spelled from the vocabulary. -/
structure Spelled (vocabulary : Vocabulary) (walk : Walk) : Prop extends Marked vocabulary walk where
  anchor : ∀ anchor, walk.anchor = some anchor → vocabulary.Spells anchor.name
  pending : ∀ entry ∈ walk.pending, vocabulary.Spells entry.name
  references : ∀ reference ∈ walk.facts.references, vocabulary.Spells reference.name

namespace Spelled

theorem settled (spelled : walk.Spelled vocabulary) :
    (walk.settled survey instruction).Spelled vocabulary where
  toMarked := spelled.toMarked.settled spelled.pending
  anchor := fun anchor held => spelled.anchor anchor (settled_anchor survey instruction walk held).1
  pending := by
    rw [settled_pending]
    exact fun entry member => spelled.pending entry (List.mem_filter.mp member).1
  references := by
    rw [settled_references]
    exact spelled.references

theorem alias_target (spelled : walk.Spelled vocabulary) {name : String} {entry : Alias}
    (found : Alias.find? name walk.facts.aliases = some entry) : vocabulary.Spells entry.target :=
  spelled.aliases entry (List.mem_reverse.mp (List.mem_of_find?_eq_some found))

theorem baseOf (spelled : walk.Spelled vocabulary) {register : Int} {name : String}
    (found : (walk.baseOf register instruction).2 = some name) : vocabulary.Spells name := by
  have known (stands : walk.aliasIn? register instruction.index = some name) :
      vocabulary.Spells name := by
    obtain ⟨position, _, marked⟩ := Option.bind_eq_some_iff.mp stands
    obtain ⟨var, there, target⟩ := Option.bind_eq_some_iff.mp marked
    exact spelled.locals var (List.mem_of_getElem? there) name target
  rw [Walk.baseOf] at found
  split at found
  · rename_i anchor held
    split at found
    · cases found
      exact spelled.anchor anchor held
    · exact known found
  · exact known found

theorem targetName? (spelled : walk.Spelled vocabulary) (covers : vocabulary.Covers survey instruction)
    (reaches : survey.role instruction = .globalRead ∨ survey.role instruction = .globalWrite)
    {name : String} (named : walk.targetName? survey instruction = some name) :
    vocabulary.Spells name := by
  rw [Walk.targetName?] at named
  split at named
  · cases named
  · rename_i target
    cases named
    exact Vocabulary.spells_of_root (covers.global reaches _ target)
  · rename_i upvalue field target
    obtain ⟨entry, found, rfl⟩ := Option.map_eq_some_iff.mp named
    exact (spelled.alias_target found).extend (covers.field reaches upvalue field target)

theorem fieldName? (spelled : walk.Spelled vocabulary) (covers : vocabulary.Covers survey instruction)
    (access : survey.role instruction = .tableRead ∨ survey.role instruction = .tableWrite)
    {register : Int} {name : String} (named : walk.fieldName? register instruction = some name) :
    vocabulary.Spells name := by
  obtain ⟨key, constant, based⟩ := Option.bind_eq_some_iff.mp named
  obtain ⟨base, found, rfl⟩ := Option.map_eq_some_iff.mp based
  exact (spelled.baseOf found).extend (covers.constant access key constant)

/-- What an instruction refers to. -/
theorem referred? (spelled : walk.Spelled vocabulary) (covers : vocabulary.Covers survey instruction)
    {name : String}
    (refers : walk.referred? survey (survey.role instruction) instruction = some name) :
    vocabulary.Spells name := by
  cases role : survey.role instruction with
  | globalRead =>
      rw [role] at refers
      exact spelled.targetName? covers (.inl role) refers
  | globalWrite =>
      rw [role, Walk.referred?] at refers
      split at refers
      · cases refers
      · exact spelled.targetName? covers (.inr role) refers
  | tableRead =>
      rw [role] at refers
      obtain ⟨table, _, named⟩ := Option.bind_eq_some_iff.mp refers
      exact spelled.fieldName? covers (.inl role) named
  | tableWrite =>
      rw [role] at refers
      exact spelled.fieldName? covers (.inr role) refers
  | upvalueRead | upvalueWrite | call | loadConstant | vararg | «return» | other =>
      rw [role] at refers
      cases refers

/-- What an instruction loads. -/
theorem loaded? (spelled : walk.Spelled vocabulary) (covers : vocabulary.Covers survey instruction)
    {name : String} (loads : walk.loaded? survey (survey.role instruction) instruction = some name) :
    vocabulary.Spells name := by
  cases role : survey.role instruction with
  | globalRead | tableRead =>
      apply spelled.referred? covers
      rw [role] at loads ⊢
      exact loads
  | upvalueRead =>
      rw [role] at loads
      obtain ⟨upvalue, _, known⟩ := Option.bind_eq_some_iff.mp loads
      obtain ⟨entry, found, rfl⟩ := Option.map_eq_some_iff.mp known
      exact spelled.alias_target found
  | globalWrite | tableWrite | upvalueWrite | call | loadConstant | vararg | «return» | other =>
      rw [role] at loads
      cases loads

/-- A step adds names that are spelled from the vocabulary, wherever it keeps them. -/
theorem step (spelled : walk.Spelled vocabulary) (covers : vocabulary.Covers survey instruction)
    (fits : vocabulary.Fits (walk.step survey instruction ahead).facts) :
    (walk.step survey instruction ahead).Spelled vocabulary := by
  have settled : (walk.settled survey instruction).Spelled vocabulary := spelled.settled
  have acted := act_acted survey instruction ahead (walk.settled survey instruction)
    (survey.role instruction)
  refine ⟨⟨?_, ?_⟩, ?_, ?_, ?_⟩
  · exact (settled.toMarked.act (survey.role instruction) fits).locals
  · exact (settled.toMarked.act (survey.role instruction) fits).aliases
  · intro anchor held
    rcases step_anchor survey instruction ahead walk held with
      ⟨loads, _⟩ | ⟨_, old, there, same, _, _⟩
    · exact settled.loaded? covers loads
    · rw [same]
      exact spelled.anchor old there
  · intro entry member
    rcases acted.pending with same | ⟨name, loads, expected⟩
    · exact settled.pending entry (same ▸ member)
    · have listed : entry ∈ (walk.settled survey instruction).pending.filter
          (fun entry => entry.register != instruction.a) ++
            [⟨instruction.a, name, instruction.index⟩] := expected ▸ member
      rcases List.mem_append.mp listed with old | new
      · exact settled.pending entry (List.mem_filter.mp old).1
      · rw [List.mem_singleton.mp new]
        exact settled.loaded? covers loads
  · intro reference member
    rw [step_references] at member
    rcases List.mem_append.mp member with old | new
    · exact spelled.references reference old
    · obtain ⟨name, refers, rfl⟩ := Option.map_eq_some_iff.mp (Option.mem_toList.mp new)
      exact settled.referred? covers refers

theorem run {code : List Instruction} (spelled : walk.Spelled vocabulary)
    (covers : ∀ instruction ∈ code, vocabulary.Covers survey instruction)
    (fits : vocabulary.Fits (walk.run survey code).facts) :
    (walk.run survey code).Spelled vocabulary := by
  induction code generalizing walk with
  | nil => exact spelled
  | cons instruction ahead ih =>
      obtain ⟨first, later⟩ := List.forall_mem_cons.mp covers
      exact ih (spelled.step first ((run_grows survey _ ahead).fits fits)) later fits

/-- The local that is returned stands for itself, and is the module. -/
theorem returnedModule {code : List Instruction} (spelled : walk.Spelled vocabulary)
    (fits : vocabulary.Fits (walk.returnedModule survey code).facts) :
    (walk.returnedModule survey code).Spelled vocabulary := by
  have calm := returnedModule_calm survey walk code
  refine ⟨?_, calm.anchor ▸ spelled.anchor, calm.pending ▸ spelled.pending,
    calm.references ▸ spelled.references⟩
  rw [Walk.returnedModule] at fits ⊢
  split
  · exact spelled.toMarked
  · rename_i result found
    have promoted : (∀ name, (walk.promote result.a result.index none false).2 = some name →
        vocabulary.root name) → (walk.promote result.a result.index none false).1.Marked vocabulary :=
      fun roots => spelled.toMarked.promote fun name known =>
        Vocabulary.spells_of_root (roots name known)
    rw [found] at fits
    dsimp only at fits
    generalize walk.promote result.a result.index none false = given at fits promoted
    obtain ⟨after, receiver⟩ := given
    cases receiver with
    | none => exact promoted fun name known => by cases known
    | some name =>
        refine (promoted fun other known => ?_).of_eq rfl rfl
        exact fits.returned other known

end Spelled

end Walk

/-! ## All names of a listing -/

/-- The aliases and the references are spelled from the vocabulary. -/
structure Facts.Spelled (vocabulary : Vocabulary) (facts : Facts) : Prop where
  aliases : ∀ entry ∈ facts.aliases, vocabulary.Spells entry.target
  references : ∀ reference ∈ facts.references, vocabulary.Spells reference.name

/-- No local stands for anything yet. -/
def Function.Unmarked (function : Function) : Prop :=
  ∀ var ∈ function.registers.locals, var.target = none

namespace Survey

variable {vocabulary : Vocabulary} {survey : Survey}

theorem begin_spelled {isMain : Bool} {function : Function} {facts : Facts}
    (unmarked : function.Unmarked) (spelled : facts.Spelled vocabulary)
    (fits : vocabulary.Fits (survey.begin isMain function facts).facts) :
    (survey.begin isMain function facts).Spelled vocabulary := by
  have start : (Walk.start function.registers facts).Spelled vocabulary := by
    refine ⟨⟨?_, spelled.aliases⟩, ?_, ?_, spelled.references⟩
    · intro var member target stands
      cases (unmarked var member).symm.trans stands
    · intro anchor held
      cases held
    · intro entry member
      cases member
  rw [begin] at fits ⊢
  split
  · rename_i main
    rw [if_pos main] at fits
    exact start.returnedModule fits
  · exact start

/-- The functions are walked one after the other, and each keeps to the vocabulary if it fits the
facts in the end. -/
theorem functions_spelled {functions : List Function} {isFirst : Bool} {facts : Facts}
    (unmarked : ∀ function ∈ functions, function.Unmarked)
    (covers : ∀ function ∈ functions, ∀ instruction ∈ function.instructions,
      vocabulary.Covers survey instruction)
    (spelled : facts.Spelled vocabulary)
    (fits : vocabulary.Fits (survey.functions isFirst functions facts).2) :
    (survey.functions isFirst functions facts).2.Spelled vocabulary := by
  induction functions generalizing isFirst facts with
  | nil => exact spelled
  | cons function rest ih =>
      obtain ⟨firstUnmarked, restUnmarked⟩ := List.forall_mem_cons.mp unmarked
      obtain ⟨firstCovers, restCovers⟩ := List.forall_mem_cons.mp covers
      rw [functions_cons_facts] at fits ⊢
      have fitsFirst := (functions_grows survey rest _).fits fits
      have begun := begin_spelled firstUnmarked spelled
        ((Walk.run_grows survey _ function.instructions).fits fitsFirst)
      have walked := begun.run firstCovers fitsFirst
      exact ih restUnmarked restCovers ⟨walked.aliases, walked.references⟩ fits

end Survey

namespace Listing

/-- A name can start with a global that an instruction of the listing reads or writes, with the
local that is returned as the module, or with a local that receives a required module. -/
inductive IsRoot (listing : Listing) (facts : Facts) (name : String) : Prop where
  | global (function : Function) (inside : function ∈ listing.functions)
      (instruction : Instruction) (member : instruction ∈ function.instructions)
      (role : listing.dialect.role? instruction.opcode = some .globalRead ∨
        listing.dialect.role? instruction.opcode = some .globalWrite)
      (target : listing.dialect.target? instruction = some (.global name))
  | returned (found : facts.returned = some name)
  | receiver (entry : Require) (member : entry ∈ facts.requires)
      (received : entry.receiver = some name)

/-- A name can go on with the constant key of a table access, or with the field of an upvalue that an
instruction reads or writes. -/
inductive IsKey (listing : Listing) (key : String) : Prop where
  | constant (function : Function) (inside : function ∈ listing.functions)
      (instruction : Instruction) (member : instruction ∈ function.instructions)
      (role : listing.dialect.role? instruction.opcode = some .tableRead ∨
        listing.dialect.role? instruction.opcode = some .tableWrite)
      (constant : instruction.constant? = some key)
  | field (function : Function) (inside : function ∈ listing.functions)
      (instruction : Instruction) (member : instruction ∈ function.instructions)
      (role : listing.dialect.role? instruction.opcode = some .globalRead ∨
        listing.dialect.role? instruction.opcode = some .globalWrite)
      (upvalue : String) (target : listing.dialect.target? instruction = some (.field upvalue key))

def vocabulary (listing : Listing) (facts : Facts) : Vocabulary :=
  ⟨listing.IsRoot facts, listing.IsKey⟩

theorem vocabulary_fits (listing : Listing) (facts : Facts) : (listing.vocabulary facts).Fits facts :=
  ⟨fun entry member _ received => .receiver entry member received, fun _ found => .returned found⟩

theorem vocabulary_covers {listing : Listing} {function : Function}
    (inside : function ∈ listing.functions) {instruction : Instruction}
    (member : instruction ∈ function.instructions) (facts : Facts) (catalog : Catalog) :
    (listing.vocabulary facts).Covers (listing.surveyOf catalog) instruction := by
  have known {role : Role} (proper : role ≠ .other) :
      (listing.surveyOf catalog).role instruction = role →
        listing.dialect.role? instruction.opcode = some role :=
    (Survey.role_eq_iff (listing.surveyOf catalog) instruction proper).mp
  constructor
  · intro role name target
    exact .global function inside instruction member
      (role.imp (known (by decide)) (known (by decide))) target
  · intro role upvalue key target
    exact .field function inside instruction member
      (role.imp (known (by decide)) (known (by decide))) upvalue target
  · intro role key constant
    exact .constant function inside instruction member
      (role.imp (known (by decide)) (known (by decide))) constant

/-! ## Listings that were read -/

theorem unmarked_addEntry {function : Function} (unmarked : function.Unmarked) (kind : Section)
    (line : List Char) : (function.addEntry kind line).Unmarked := by
  cases kind with
  | constants => exact unmarked
  | locals =>
      simp only [Function.addEntry]
      split
      · exact unmarked
      · intro var member
        rcases List.mem_append.mp member with old | new
        · exact unmarked var old
        · rw [List.mem_singleton.mp new]
  | upvalues =>
      simp only [Function.addEntry]
      split <;> exact unmarked

theorem keeps_unmarked (dialect : Dialect) : Keeps dialect Function.Unmarked := by
  refine ⟨?_, ?_, ?_⟩
  · intro header var member
    cases member
  · intro kind line function unmarked
    exact unmarked_addEntry unmarked kind line
  · intro instruction function _ unmarked
    exact unmarked

/-- Nothing is known of the locals of a listing that was just read. -/
theorem unmarked_of_parse {dialect : Dialect} {text : String} {listing : Listing}
    (read : parse dialect text = .ok listing) :
    ∀ function ∈ listing.functions, function.Unmarked := (keeps_unmarked dialect).parse read

/-- No name is made up. Every name that a listing refers to is a root of the listing with keys of the
listing behind it: a global that is read or written, the local that is returned or a local that
receives a required module, and behind it constant keys of table accesses and fields of upvalues. The
locals stand for nothing beforehand, which holds for every listing that is read from a text. -/
theorem references_spelled (catalog : Catalog) :
    (∀ listing : Listing, (∀ function ∈ listing.functions, function.Unmarked) →
        ∀ reference ∈ (listing.facts catalog).references,
          (listing.vocabulary (listing.facts catalog)).Spells reference.name) ∧
      ∀ dialect text listing, parse dialect text = .ok listing →
        ∀ function ∈ listing.functions, function.Unmarked := by
  refine ⟨?_, fun dialect text listing read => unmarked_of_parse read⟩
  intro listing unmarked
  have none : Facts.empty.Spelled (listing.vocabulary (listing.facts catalog)) := by
    constructor
    · intro entry member
      cases member
    · intro reference member
      cases member
  exact (Survey.functions_spelled unmarked
    (fun function inside instruction member => vocabulary_covers inside member _ catalog) none
    (vocabulary_fits listing (listing.facts catalog))).references

/-- A module is required into a local, a field of a field of it is written, and another function
reads a field of it through an upvalue. -/
def moduleUser : Listing where
  dialect := .lua52
  functions :=
    [{ header := "main <t.lua:0,0>"
       instructions :=
         [⟨1, 1, .getTabUp, 0, some 0, some (-1), some "_ENV \"require\""⟩,
          ⟨2, 1, .loadK, 1, some (-2), none, some "\"foo\""⟩,
          ⟨3, 1, .call, 0, some 2, some 2, none⟩,
          ⟨4, 2, .getTable, 1, some 0, some (-3), some "\"config\""⟩,
          ⟨5, 2, .setTable, 1, some (-4), some (-5), some "\"level\" -"⟩,
          ⟨6, 3, .return, 0, some 1, none, none⟩]
       registers := Registers.empty.addLocal 0 "m" 4 7 },
     { header := "function <t.lua:4,6>"
       instructions := [⟨1, 5, .getTabUp, 0, some 0, some (-1), some "m \"field\""⟩]
       registers := Registers.empty.addUpvalue 0 "m" }]

/-- Three of the names start with the local, and one of them has two keys. -/
theorem references_spelled_moduleUser :
    (moduleUser.facts .empty).references =
        [⟨1, "require", false⟩, ⟨2, "m.config", false⟩, ⟨2, "m.config.level", true⟩,
          ⟨5, "m.field", false⟩] ∧
      (moduleUser.vocabulary (moduleUser.facts .empty)).Spells "m.config.level" ∧
      (moduleUser.vocabulary (moduleUser.facts .empty)).Spells "m.field" := by
  have references : (moduleUser.facts .empty).references =
      [⟨1, "require", false⟩, ⟨2, "m.config", false⟩, ⟨2, "m.config.level", true⟩,
        ⟨5, "m.field", false⟩] := by decide
  have unmarked : ∀ function ∈ moduleUser.functions, function.Unmarked := by
    simp [moduleUser, Function.Unmarked, Registers.addLocal, Registers.addUpvalue, Registers.empty]
  have spelled := (references_spelled .empty).1 moduleUser unmarked
  refine ⟨references, spelled ⟨2, "m.config.level", true⟩ ?_, spelled ⟨5, "m.field", false⟩ ?_⟩
  · rw [references]
    decide
  · rw [references]
    decide

end Listing

end GlobalAudit
