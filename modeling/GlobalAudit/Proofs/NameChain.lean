import GlobalAudit.Proofs.Passage

/-! Names built over several instructions. A field access that finds the anchor in its register
extends the name of the anchor. That name goes back to the last instruction that loaded something
with a name: it stands on the same line, and no call lies between. What was loaded is still in its
register, except where a field read stores into the register without being noticed. -/
namespace GlobalAudit

/-- The register in which a field access looks for its table. -/
def Survey.tableOf? (survey : Survey) (instruction : Instruction) : Option Int :=
  match survey.role instruction with
  | .tableRead => instruction.b
  | .tableWrite => some instruction.a
  | _ => none

namespace Instruction

/-- The instruction stores into a register and no walk notices: the second register of a method
read, or register A of a field read without an operand B. -/
def StoresUnseen (instruction : Instruction) (register : Int) : Prop :=
  (instruction.opcode = .self ∧ register = registerBehind instruction.a 1) ∨
    ((instruction.opcode = .getTable ∨ instruction.opcode = .self) ∧ instruction.b = none ∧
      register = instruction.a)

theorem StoresUnseen.overwrites {instruction : Instruction} {register : Int}
    (stores : instruction.StoresUnseen register) : instruction.overwrites register = true := by
  rcases stores with ⟨opcode, rfl⟩ | ⟨opcode | opcode, _, rfl⟩ <;> simp [Instruction.overwrites, opcode]

end Instruction

/-- Field reads are the plain ones and those of methods. -/
theorem Survey.opcode_of_tableRead {survey : Survey} {instruction : Instruction}
    (reads : survey.role instruction = .tableRead) :
    instruction.opcode = .getTable ∨ instruction.opcode = .self := by
  obtain ⟨dialect, catalog⟩ := survey
  obtain ⟨index, line, opcode, a, b, c, comment⟩ := instruction
  cases opcode with
  | getTable => exact .inl rfl
  | self => exact .inr rfl
  | _ => cases dialect <;> contradiction

/-- Of the instructions that spare a register only unseen ones store into it. -/
theorem Walk.Spares.storesUnseen {survey : Survey} {instruction : Instruction} {register : Int}
    (spares : Walk.Spares survey instruction register)
    (stores : instruction.overwrites register = true) : instruction.StoresUnseen register := by
  rw [Walk.Spares] at spares
  split at spares
  · rename_i reads
    rcases Survey.opcode_of_tableRead reads with plain | method
    · have here : register = instruction.a := by simpa [Instruction.overwrites, plain] using stores
      exact .inr ⟨.inl plain, by simpa [here] using spares, here⟩
    · have here : register = instruction.a ∨ register = registerBehind instruction.a 1 := by
        simpa [Instruction.overwrites, method] using stores
      rcases here with here | second
      · exact .inr ⟨.inr method, by simpa [here] using spares, here⟩
      · exact .inl ⟨method, second⟩
  · cases spares.symm.trans stores

/-- The latest alias of a name is behind all others of that name. -/
theorem Alias.exists_of_find? {name : String} {aliases : List Alias} {entry : Alias}
    (found : Alias.find? name aliases = some entry) :
    entry.name = name ∧ ∃ early late, aliases = early ++ entry :: late ∧
      ∀ other ∈ late, other.name ≠ name := by
  obtain ⟨same, late, early, order, none⟩ := List.find?_eq_some_iff_append.mp found
  refine ⟨by simpa using same, early.reverse, late.reverse, ?_, ?_⟩
  · simpa using congrArg List.reverse order
  · intro other member
    simpa using none other (List.mem_reverse.mp member)

/-- An anchor in the register of the table, of the same line and not called, gives the name. -/
theorem Walk.fieldName?_of_anchor {walk : Walk} {instruction : Instruction} {anchor : Anchor}
    {key : String} (held : walk.anchor = some anchor) (line : anchor.line = instruction.line)
    (uncalled : anchor.called = false) (constant : instruction.constant? = some key) :
    walk.fieldName? anchor.register instruction = some (Dotted.extend anchor.name key) := by
  rw [fieldName?, constant, Option.bind_some, baseOf, held]
  simp [line, uncalled]

namespace Passage

variable {passage : Passage}

/-! ## Where an anchor comes from -/

/-- The last instruction before a position that loads something with a name. -/
structure LastLoad (passage : Passage) (position : Nat) (name : String) (source : Nat)
    (origin : Instruction) : Prop where
  before : source < position
  found : passage.code[source]? = some origin
  loads : passage.loads? source = some name
  last : ∀ between, source < between → between < position → passage.loads? between = none

theorem LastLoad.unique {position source other : Nat} {name otherName : String}
    {origin otherOrigin : Instruction} (first : passage.LastLoad position name source origin)
    (second : passage.LastLoad position otherName other otherOrigin) :
    source = other ∧ origin = otherOrigin := by
  have same : source = other := by
    rcases Nat.lt_trichotomy source other with early | same | late
    · cases (first.last other early second.before).symm.trans second.loads
    · exact same
    · cases (second.last source late first.before).symm.trans first.loads
  subst same
  exact ⟨rfl, Option.some.inj (first.found.symm.trans second.found)⟩

/-- The anchor before a position was set by the last such instruction, on its line and in its
register. None behind it is seen to store into the register, and if the anchor is not called, none
is a call. -/
structure Anchored (passage : Passage) (position : Nat) (anchor : Anchor) (source : Nat)
    (origin : Instruction) : Prop extends passage.LastLoad position anchor.name source origin where
  register : anchor.register = origin.a
  line : anchor.line = origin.line
  spared : ∀ between other, source < between → between < position →
    passage.code[between]? = some other → Walk.Spares passage.survey other origin.a
  uncalled : anchor.called = false → ∀ between other, source < between → between < position →
    passage.code[between]? = some other → passage.survey.role other ≠ .call

namespace Anchored

variable {position source : Nat} {anchor old : Anchor} {origin : Instruction}

/-- An anchor goes on behind an instruction that keeps it. -/
theorem succ (earlier : passage.Anchored position old source origin)
    (same : anchor = { old with called := anchor.called })
    (silent : passage.loads? position = none)
    (spares : ∀ other, passage.code[position]? = some other →
      Walk.Spares passage.survey other old.register)
    (uncalled : anchor.called = false → old.called = false ∧
      ∀ other, passage.code[position]? = some other → passage.survey.role other ≠ .call) :
    passage.Anchored (position + 1) anchor source origin where
  before := Nat.lt_succ_of_lt earlier.before
  found := earlier.found
  loads := by rw [same]; exact earlier.loads
  register := by rw [same]; exact earlier.register
  line := by rw [same]; exact earlier.line
  last := by
    intro between after inside
    rcases Nat.lt_succ_iff_lt_or_eq.mp inside with before | rfl
    · exact earlier.last between after before
    · exact silent
  spared := by
    intro between other after inside found
    rcases Nat.lt_succ_iff_lt_or_eq.mp inside with before | rfl
    · exact earlier.spared between other after before found
    · exact earlier.register ▸ spares other found
  uncalled := by
    intro free between other after inside found
    obtain ⟨oldFree, notCall⟩ := uncalled free
    rcases Nat.lt_succ_iff_lt_or_eq.mp inside with before | rfl
    · exact earlier.uncalled oldFree between other after before found
    · exact notCall other found

/-- The instruction just before has set the anchor. -/
theorem ofLoad {name : String} (found : passage.code[position]? = some origin)
    (loads : passage.loads? position = some name) :
    passage.Anchored (position + 1) ⟨origin.a, name, origin.line, false⟩ position origin where
  before := Nat.lt_succ_self position
  found := found
  loads := loads
  register := rfl
  line := rfl
  last := by
    intro between after inside
    omega
  spared := by
    intro between other after inside
    omega
  uncalled := by
    intro _ between other after inside
    omega

end Anchored

/-- Every anchor goes back to an instruction, by induction over the positions: a step sets the anchor
anew or keeps the one before. -/
theorem exists_anchored {position : Nat} {anchor : Anchor}
    (held : (passage.walk position).anchor = some anchor) :
    ∃ source origin, passage.Anchored position anchor source origin := by
  induction position generalizing anchor with
  | zero => cases (begin_calm passage).anchor.symm.trans held
  | succ position ih =>
      cases found : passage.code[position]? with
      | none =>
          rw [walk_succ_of_none found] at held
          obtain ⟨source, origin, earlier⟩ := ih held
          have silent : passage.loads? position = none := by rw [loads?, found, Option.bind_none]
          refine ⟨source, origin, earlier.succ rfl silent ?_ fun free => ⟨free, ?_⟩⟩
          · rw [found]
            intro other impossible
            cases impossible
          · rw [found]
            intro other impossible
            cases impossible
      | some instruction =>
          rw [walk_succ found] at held
          rcases Walk.step_anchor passage.survey instruction _ _ held with
            ⟨loads, set⟩ | ⟨silent, old, there, same, spares, uncalled⟩
          · rw [← loads?_of_found found] at loads
            rw [set]
            exact ⟨position, instruction, .ofLoad found loads⟩
          · rw [← loads?_of_found found] at silent
            obtain ⟨source, origin, earlier⟩ := ih there
            refine ⟨source, origin, earlier.succ same silent ?_ fun free => ⟨(uncalled free).1, ?_⟩⟩
            · intro other here
              cases found.symm.trans here
              exact spares
            · intro other here
              cases found.symm.trans here
              exact (uncalled free).2

/-! ## Extended names -/

/-- A field access refers to the field if it finds a name for its table, with the anchor as it was. -/
theorem references_of_access {position : Nat} {access : Instruction} {register : Int}
    (found : passage.code[position]? = some access)
    (table : passage.survey.tableOf? access = some register) :
    ((passage.walk position).settled passage.survey access).anchor =
        (passage.walk position).anchor ∧
      (passage.walk (position + 1)).facts.references = (passage.walk position).facts.references ++
        ((((passage.walk position).settled passage.survey access).fieldName? register access).map
          fun name => ⟨access.line, name, (passage.survey.role access).isWrite⟩).toList := by
  rw [walk_succ found, Walk.step_references]
  rw [Survey.tableOf?] at table
  split at table
  · rename_i reads
    refine ⟨Walk.settled_anchor_of_access _ _ _ (.inl reads), ?_⟩
    rw [reads, Walk.referred?, table, Option.bind_some]
  · rename_i writes
    refine ⟨Walk.settled_anchor_of_access _ _ _ (.inr writes), ?_⟩
    rw [writes, Walk.referred?, Option.some.inj table]
  · cases table

/-- A field access that extends the name of the anchor: the anchor is in the register of the table,
was set on the same line and is not called since. -/
structure Extension (passage : Passage) where
  position : Nat
  access : Instruction
  anchor : Anchor
  key : String
  found : passage.code[position]? = some access
  table : passage.survey.tableOf? access = some anchor.register
  constant : access.constant? = some key
  held : (passage.walk position).anchor = some anchor
  line : anchor.line = access.line
  uncalled : anchor.called = false

namespace Extension

/-- The reference that the access makes. -/
def reference (extension : passage.Extension) : Reference :=
  ⟨extension.access.line, Dotted.extend extension.anchor.name extension.key,
    (passage.survey.role extension.access).isWrite⟩

/-- The walk adds the extended name to the references and nothing else. -/
theorem references_eq (extension : passage.Extension) :
    (passage.walk (extension.position + 1)).facts.references =
      (passage.walk extension.position).facts.references ++ [extension.reference] := by
  obtain ⟨position, access, anchor, key, found, table, constant, held, line, uncalled⟩ := extension
  obtain ⟨kept, references⟩ := references_of_access found table
  rw [references, Walk.fieldName?_of_anchor (kept.trans held) line uncalled constant]
  rfl

/-- A name that is extended was loaded on the same line into the register of the table, and what was
loaded has not been called. -/
theorem exists_origin (extension : passage.Extension) :
    ∃ source origin, passage.LastLoad extension.position extension.anchor.name source origin ∧
      origin.line = extension.access.line ∧
      passage.survey.tableOf? extension.access = some origin.a ∧
      ∀ between other, source < between → between < extension.position →
        passage.code[between]? = some other →
        passage.survey.role other ≠ .call ∧ Walk.Spares passage.survey other origin.a := by
  obtain ⟨source, origin, anchored⟩ := exists_anchored extension.held
  refine ⟨source, origin, anchored.toLastLoad, ?_, ?_, ?_⟩
  · exact anchored.line.symm.trans extension.line
  · exact anchored.register ▸ extension.table
  · intro between other after inside found
    exact ⟨anchored.uncalled extension.uncalled between other after inside found,
      anchored.spared between other after inside found⟩

/-- A field access that refers to anything extends the name of the anchor, unless an alias is in the
register. -/
theorem exists_of_references {position : Nat} {access : Instruction} {register : Int}
    {reference : Reference} (found : passage.code[position]? = some access)
    (table : passage.survey.tableOf? access = some register)
    (refers : (passage.walk (position + 1)).facts.references =
      (passage.walk position).facts.references ++ [reference])
    (unknown : ((passage.walk position).settled passage.survey access).aliasIn? register
      access.index = none) :
    ∃ extension : passage.Extension, extension.position = position ∧
      extension.reference = reference := by
  obtain ⟨kept, references⟩ := references_of_access found table
  rw [refers, List.append_cancel_left_eq, eq_comm, Option.toList_eq_singleton_iff] at references
  obtain ⟨name, named, rfl⟩ := Option.map_eq_some_iff.mp references
  obtain ⟨key, constant, based⟩ := Option.bind_eq_some_iff.mp named
  obtain ⟨base, known, rfl⟩ := Option.map_eq_some_iff.mp based
  rw [Walk.baseOf, unknown] at known
  split at known
  · rename_i anchor held
    split at known
    · rename_i reaches
      obtain ⟨rfl, line, uncalled⟩ := reaches
      cases known
      exact ⟨⟨position, access, anchor, key, found, table, constant, kept ▸ held, line, uncalled⟩,
        rfl, rfl⟩
    · cases known
  · cases known

end Extension

/-- How an instruction comes by the name of what it loads. It refers to the name itself, or it loads
an upvalue whose name the latest alias of that name gives; aliases that the instruction before has
led to expect are there by then. -/
inductive Named (passage : Passage) (source : Nat) (origin : Instruction) (name : String) : Prop where
  | read
      (role : passage.survey.role origin = .globalRead ∨ passage.survey.role origin = .tableRead)
      (refers : (passage.walk (source + 1)).facts.references =
        (passage.walk source).facts.references ++ [⟨origin.line, name, false⟩])
  | upvalue (role : passage.survey.role origin = .upvalueRead) (upvalue : String)
      (called : (passage.walk source).upvalueName? origin = some upvalue)
      (early late : List Alias)
      (aliases : ((passage.walk source).settled passage.survey origin).facts.aliases =
        early ++ ⟨upvalue, name⟩ :: late)
      (latest : ∀ entry ∈ late, entry.name ≠ upvalue)

theorem named_of_loads {source : Nat} {origin : Instruction} {name : String}
    (found : passage.code[source]? = some origin) (loads : passage.loads? source = some name) :
    passage.Named source origin name := by
  have references := Walk.step_references passage.survey origin (passage.code.drop (source + 1))
    (passage.walk source)
  rw [← walk_succ found] at references
  rw [loads?_of_found found, Walk.loads?] at loads
  cases role : passage.survey.role origin with
  | globalRead =>
      rw [role, Walk.loaded?] at loads
      rw [role, loads] at references
      exact .read (.inl role) references
  | tableRead =>
      rw [role, Walk.loaded?] at loads
      rw [role, loads] at references
      exact .read (.inr role) references
  | upvalueRead =>
      rw [role, Walk.loaded?] at loads
      obtain ⟨upvalue, called, known⟩ := Option.bind_eq_some_iff.mp loads
      obtain ⟨entry, known, target⟩ := Option.map_eq_some_iff.mp known
      obtain ⟨same, early, late, order, latest⟩ := Alias.exists_of_find? known
      have unchanged := (Walk.settled_effect passage.survey origin (passage.walk source)).sameVariables
      rw [Walk.upvalueName?_of_sameVariables unchanged] at called
      refine .upvalue role upvalue called early late ?_ latest
      rw [order, ← same, ← target]
  | globalWrite | tableWrite | upvalueWrite | call | loadConstant | vararg | «return» | other =>
      rw [role] at loads
      cases loads

/-- What is loaded becomes the anchor. -/
theorem LastLoad.anchor {position source : Nat} {name : String} {origin : Instruction}
    (load : passage.LastLoad position name source origin) :
    (passage.walk (source + 1)).anchor = some ⟨origin.a, name, origin.line, false⟩ := by
  have loads := load.loads
  rw [loads?_of_found load.found] at loads
  rw [walk_succ load.found]
  exact (Walk.act_acted passage.survey origin _ _ _).loads name loads

/-- A field access that does not go through an alias in the register extends a name: it refers to the
name, a dot and its key. The name is that of what an earlier instruction of the line has loaded into
the register of the table; behind it nothing else is loaded that has a name, and nothing is called. -/
theorem extension_of_uncalled_load (passage : Passage) :
    (∀ position access register reference, passage.code[position]? = some access →
        passage.survey.tableOf? access = some register →
        (passage.walk (position + 1)).facts.references =
          (passage.walk position).facts.references ++ [reference] →
        ((passage.walk position).settled passage.survey access).aliasIn? register access.index =
          none →
        ∃ extension : passage.Extension, extension.position = position ∧
          extension.reference = reference) ∧
      ∀ extension : passage.Extension,
        (passage.walk (extension.position + 1)).facts.references =
            (passage.walk extension.position).facts.references ++ [extension.reference] ∧
          ∃ source origin,
            passage.LastLoad extension.position extension.anchor.name source origin ∧
            passage.Named source origin extension.anchor.name ∧
            (passage.walk (source + 1)).anchor =
              some ⟨origin.a, extension.anchor.name, origin.line, false⟩ ∧
            origin.line = extension.access.line ∧
            passage.survey.tableOf? extension.access = some origin.a ∧
            ∀ between other, source < between → between < extension.position →
              passage.code[between]? = some other → passage.survey.role other ≠ .call := by
  constructor
  · intro position access register reference found table refers unknown
    exact Extension.exists_of_references found table refers unknown
  · intro extension
    refine ⟨extension.references_eq, ?_⟩
    obtain ⟨source, origin, load, line, table, clear⟩ := extension.exists_origin
    refine ⟨source, origin, load, named_of_loads load.found load.loads, load.anchor, line, table, ?_⟩
    intro between other after inside found
    exact (clear between other after inside found).1

/-- An upvalue that is an alias is loaded, then a string for its field, then the field is written. -/
def fieldOfUpvalue : Passage where
  survey := ⟨.lua52, .empty⟩
  isMain := false
  function :=
    { header := "function <t.lua:2,4>"
      instructions :=
        [⟨1, 3, .getUpval, 0, some 0, none, some "M"⟩,
         ⟨2, 3, .loadK, 1, some (-1), none, some "\"x\""⟩,
         ⟨3, 3, .setTable, 0, some (-2), some 1, some "\"name\" -"⟩,
         ⟨4, 4, .return, 0, some 1, none, none⟩]
      registers := Registers.empty.addUpvalue 0 "M" }
  facts := Facts.empty.addAlias ⟨"M", "library"⟩

/-- The written field is named by what the upvalue stands for. -/
theorem fieldOfUpvalue_extends :
    (fieldOfUpvalue.walk 3).facts.references = [⟨3, "library.name", true⟩] ∧
      ∃ extension : fieldOfUpvalue.Extension,
        extension.position = 2 ∧ extension.reference = ⟨3, "library.name", true⟩ ∧
        ∃ source origin, fieldOfUpvalue.LastLoad 2 extension.anchor.name source origin ∧
          origin.line = 3 := by
  obtain ⟨extended, origins⟩ := extension_of_uncalled_load fieldOfUpvalue
  obtain ⟨extension, position, reference⟩ := extended 2
    ⟨3, 3, .setTable, 0, some (-2), some 1, some "\"name\" -"⟩ 0 ⟨3, "library.name", true⟩
    rfl (by decide) (by decide) (by decide)
  obtain ⟨_, source, origin, load, _, _, line, _⟩ := origins extension
  have here : extension.access.line = 3 := congrArg Reference.line reference
  exact ⟨by decide, extension, position, reference, source, origin, position ▸ load, line.trans here⟩

/-- What a name goes back to is still in its register when the name is extended, unless a field read
in between has stored there unseen: only the second register of a method read and register A of a
field read without an operand B escape. -/
theorem extension_overwritten_iff (passage : Passage) (extension : passage.Extension) :
    (∃ source origin, passage.LastLoad extension.position extension.anchor.name source origin) ∧
      ∀ source origin, passage.LastLoad extension.position extension.anchor.name source origin →
        passage.survey.tableOf? extension.access = some origin.a ∧
        (passage.walk (source + 1)).anchor =
          some ⟨origin.a, extension.anchor.name, origin.line, false⟩ ∧
        ∀ between other, source < between → between < extension.position →
          passage.code[between]? = some other →
          (other.overwrites origin.a = true ↔ other.StoresUnseen origin.a) := by
  obtain ⟨source, origin, load, _, table, clear⟩ := extension.exists_origin
  refine ⟨⟨source, origin, load⟩, ?_⟩
  intro other otherOrigin same
  obtain ⟨rfl, rfl⟩ := load.unique same
  refine ⟨table, load.anchor, ?_⟩
  intro between instruction after inside found
  constructor
  · exact (clear between instruction after inside found).2.storesUnseen
  · exact Instruction.StoresUnseen.overwrites

/-- A global is loaded into register 1, the method read stores there, and the last read looks for a
field of what is in register 1. -/
def methodInBetween : Passage where
  survey := ⟨.lua51, .empty⟩
  isMain := true
  function :=
    { header := "main <t.lua:0,0>"
      instructions :=
        [⟨1, 1, .getGlobal, 1, some (-1), none, some "a"⟩,
         ⟨2, 1, .self, 0, some 2, some (-2), some "\"m\""⟩,
         ⟨3, 1, .getTable, 3, some 1, some (-3), some "\"len\""⟩,
         ⟨4, 1, .return, 0, some 1, none, none⟩]
      registers := .empty }
  facts := .empty

namespace MethodInBetween

/-- The last read, which extends the name of the global. -/
def extension : methodInBetween.Extension where
  position := 2
  access := ⟨3, 1, .getTable, 3, some 1, some (-3), some "\"len\""⟩
  anchor := ⟨1, "a", 1, false⟩
  key := "len"
  found := rfl
  table := by decide
  constant := by decide
  held := by decide
  line := rfl
  uncalled := rfl

theorem lastLoad : methodInBetween.LastLoad 2 "a" 0
    ⟨1, 1, .getGlobal, 1, some (-1), none, some "a"⟩ := by
  refine ⟨by decide, rfl, by decide, ?_⟩
  intro between after inside
  have here : between = 1 := by omega
  rw [here]
  decide

end MethodInBetween

/-- The method read is one of those that store unseen. -/
theorem methodInBetween_stores_unseen :
    MethodInBetween.extension.reference = ⟨1, "a.len", false⟩ ∧
      (methodInBetween.walk 1).anchor = some ⟨1, "a", 1, false⟩ ∧
      Instruction.StoresUnseen ⟨2, 1, .self, 0, some 2, some (-2), some "\"m\""⟩ 1 := by
  obtain ⟨_, stored⟩ := extension_overwritten_iff methodInBetween MethodInBetween.extension
  obtain ⟨_, anchor, overwritten⟩ := stored 0 _ MethodInBetween.lastLoad
  refine ⟨by decide, anchor, ?_⟩
  exact (overwritten 1 _ (by decide) (by decide) rfl).mp (by decide)

/-- The global is not in register 1 any more, yet its name is extended. -/
theorem methodInBetween_extends :
    (methodInBetween.walk 4).facts.references = [⟨1, "a", false⟩, ⟨1, "a.len", false⟩] ∧
      ¬ ∀ (passage : Passage) (extension : passage.Extension) (source : Nat) (origin : Instruction),
        passage.LastLoad extension.position extension.anchor.name source origin →
        ∀ between other, source < between → between < extension.position →
          passage.code[between]? = some other → other.overwrites origin.a = false := by
  refine ⟨by decide, ?_⟩
  intro spared
  have free := spared methodInBetween MethodInBetween.extension 0 _ MethodInBetween.lastLoad 1
    ⟨2, 1, .self, 0, some 2, some (-2), some "\"m\""⟩ (by decide) (by decide) rfl
  exact absurd free (by decide)

end Passage

end GlobalAudit
