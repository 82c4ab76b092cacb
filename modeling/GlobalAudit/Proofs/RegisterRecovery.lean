import GlobalAudit.Bytecode.Registers
import Mathlib.Data.List.Induction
import Mathlib.Data.List.Nodup
import Mathlib.Data.List.Range

/-! Registers recovered from the ranges of locals. When the ranges are those of a stack, the locals
declared at an instruction fill the registers from zero on in order of declaration, however often
registers were reused before, and looking up a register finds the local that was declared. -/
namespace GlobalAudit

/-- A local as a listing gives it: its number, its name, and the instructions between which it is
declared. -/
structure LocalDeclaration where
  index : Nat
  name : String
  start : Nat
  stop : Nat
  deriving DecidableEq, Repr

def LocalVariable.declaration (var : LocalVariable) : LocalDeclaration :=
  ⟨var.index, var.name, var.start, var.stop⟩

namespace LocalDeclaration

/-- The order of declarations on a stack: the later one does not start before the earlier one, and
if it starts inside it, it does not outlive it. -/
structure Precedes (earlier later : LocalDeclaration) : Prop where
  ordered : earlier.start ≤ later.start
  nested : earlier.start ≤ later.start → later.start < earlier.stop → later.stop ≤ earlier.stop

instance (earlier later : LocalDeclaration) : Decidable (Precedes earlier later) :=
  decidable_of_iff (earlier.start ≤ later.start ∧
      (earlier.start ≤ later.start → later.start < earlier.stop → later.stop ≤ earlier.stop))
    ⟨fun ⟨ordered, nested⟩ => ⟨ordered, nested⟩, fun ⟨ordered, nested⟩ => ⟨ordered, nested⟩⟩

end LocalDeclaration

theorem LocalVariable.isDeclaredAt_iff (index : Nat) (var : LocalVariable) :
    var.isDeclaredAt index = true ↔ var.start ≤ index ∧ index < var.stop := by
  simp [isDeclaredAt]

/-- While a local is declared, the earlier ones that are declared are those that were when it
started. -/
theorem LocalDeclaration.Precedes.isDeclaredAt_start {var : LocalVariable}
    {later : LocalDeclaration} (precedes : Precedes var.declaration later) {index : Nat}
    (started : later.start ≤ index) (running : index < later.stop) :
    var.isDeclaredAt later.start = var.isDeclaredAt index := by
  have ordered : var.start ≤ later.start := precedes.ordered
  have nested : later.start < var.stop → later.stop ≤ var.stop := precedes.nested ordered
  rw [Bool.eq_iff_iff, LocalVariable.isDeclaredAt_iff, LocalVariable.isDeclaredAt_iff]
  constructor
  · rintro ⟨_, inside⟩
    exact ⟨ordered.trans started, running.trans_le (nested inside)⟩
  · rintro ⟨_, alive⟩
    exact ⟨ordered, started.trans_lt alive⟩

namespace Registers

def addDeclaration (registers : Registers) (declaration : LocalDeclaration) : Registers :=
  registers.addLocal declaration.index declaration.name declaration.start declaration.stop

/-- The registers of a function with these locals, in order of declaration. -/
def ofDeclarations (declarations : List LocalDeclaration) : Registers :=
  declarations.foldl addDeclaration empty

theorem ofDeclarations_concat (declarations : List LocalDeclaration) (last : LocalDeclaration) :
    ofDeclarations (declarations ++ [last]) = (ofDeclarations declarations).addDeclaration last :=
  List.foldl_concat ..

/-! ## The positions in each register -/

/-- The locals in a register with their positions, by looking at all of them. -/
def scan (slot : Nat) (registers : Registers) : List (LocalVariable × Nat) :=
  registers.locals.zipIdx.filter fun entry => entry.1.slot == slot

theorem scan_sorted (slot : Nat) (registers : Registers) :
    (registers.scan slot).Pairwise fun first second => first.2 < second.2 := by
  have all := List.pairwise_lt_range' (s := 0) (n := registers.locals.length)
  rw [← List.zipIdx_map_snd 0 registers.locals, List.pairwise_map] at all
  exact all.filter _

/-- The positions kept for each register are those of the locals in it. -/
def Indexed (registers : Registers) : Prop :=
  ∀ slot, registers.bySlot.getD slot [] = (registers.scan slot).map Prod.snd

theorem indexed_empty : empty.Indexed := by
  intro slot
  rfl

theorem scan_addLocal (slot index : Nat) (name : String) (start stop : Nat)
    (registers : Registers) :
    (registers.addLocal index name start stop).scan slot = registers.scan slot ++
      if registers.slotAt start = slot then
        [(⟨registers.slotAt start, index, name, start, stop, none⟩, registers.locals.length)]
      else [] := by
  by_cases same : registers.slotAt start = slot
  · simp [scan, addLocal, List.zipIdx_append, same]
  · simp [scan, addLocal, List.zipIdx_append, same]

theorem Indexed.addLocal {registers : Registers} (indexed : registers.Indexed) (index : Nat)
    (name : String) (start stop : Nat) : (registers.addLocal index name start stop).Indexed := by
  intro slot
  rw [scan_addLocal, List.map_append, ← indexed slot, Registers.addLocal, Std.TreeMap.getD_insert]
  by_cases same : registers.slotAt start = slot
  · simp [same]
  · simp [same]

theorem indexed_ofDeclarations (declarations : List LocalDeclaration) :
    (ofDeclarations declarations).Indexed := by
  induction declarations using List.reverseRecOn with
  | nil => exact indexed_empty
  | append_singleton declarations last ih =>
      rw [ofDeclarations_concat]
      exact Indexed.addLocal ih last.index last.name last.start last.stop

/-- The candidates for a register are the named ones among the locals in it. -/
theorem Indexed.candidates {registers : Registers} (indexed : registers.Indexed) (slot : Nat) :
    registers.candidates slot =
      ((registers.scan slot).map Prod.swap).filter fun candidate => !candidate.2.isInternal := by
  have entries : ∀ entry ∈ registers.scan slot,
      (registers.locals[entry.2]?.map fun var => (entry.2, var)) = some entry.swap := by
    intro entry member
    have found : registers.locals[entry.2]? = some entry.1 :=
      List.mem_zipIdx_iff_getElem?.mp (List.mem_filter.mp member).1
    rw [found]
    rfl
  rw [Registers.candidates, indexed slot, List.filterMap_map]
  congr 1
  rw [← List.filterMap_eq_map]
  exact List.filterMap_congr entries

/-! ## A stack of locals -/

theorem declarations_ofDeclarations (declarations : List LocalDeclaration) :
    (ofDeclarations declarations).locals.map LocalVariable.declaration = declarations := by
  induction declarations using List.reverseRecOn with
  | nil => rfl
  | append_singleton declarations last ih =>
      rw [ofDeclarations_concat, addDeclaration, addLocal, List.map_append, ih]
      rfl

/-- The register of a new local, counted at any instruction at which it is declared. -/
theorem slotAt_start {registers : Registers} {later : LocalDeclaration}
    (stacked : ∀ var ∈ registers.locals, var.declaration.Precedes later) {index : Nat}
    (started : later.start ≤ index) (running : index < later.stop) :
    registers.slotAt later.start =
      (registers.locals.filter (LocalVariable.isDeclaredAt index)).length := by
  rw [slotAt]
  congr 1
  apply List.filter_congr
  intro var member
  exact (stacked var member).isDeclaredAt_start started running

/-- The locals declared at an instruction are in the registers from zero on. -/
theorem slots_of_declared {declarations : List LocalDeclaration}
    (stacked : declarations.Pairwise LocalDeclaration.Precedes) (index : Nat) :
    let declared := (ofDeclarations declarations).locals.filter (LocalVariable.isDeclaredAt index)
    declared.map LocalVariable.slot = List.range declared.length := by
  induction declarations using List.reverseRecOn with
  | nil => rfl
  | append_singleton declarations last ih =>
      obtain ⟨before, _, across⟩ := List.pairwise_append.mp stacked
      have below : ∀ var ∈ (ofDeclarations declarations).locals, var.declaration.Precedes last := by
        intro var member
        apply across _ _ last (List.mem_singleton_self last)
        rw [← declarations_ofDeclarations declarations]
        exact List.mem_map_of_mem member
      simp only [ofDeclarations_concat, addDeclaration, addLocal, List.filter_append,
        List.map_append, ih before]
      by_cases inside : last.start ≤ index ∧ index < last.stop
      · have fits := slotAt_start below inside.1 inside.2
        simp [LocalVariable.isDeclaredAt, inside, fits, List.range_succ]
      · have outside : LocalVariable.isDeclaredAt index
            ⟨(ofDeclarations declarations).slotAt last.start, last.index, last.name, last.start,
              last.stop, none⟩ = false := by
          rw [Bool.eq_false_iff, ne_eq, LocalVariable.isDeclaredAt_iff]
          exact inside
        simp [outside]

/-- At one instruction no register has two locals. -/
theorem declared_unique {declarations : List LocalDeclaration}
    (stacked : declarations.Pairwise LocalDeclaration.Precedes) {index : Nat}
    {first second : LocalVariable × Nat}
    (firstFound : first ∈ (ofDeclarations declarations).locals.zipIdx)
    (firstDeclared : first.1.isDeclaredAt index = true)
    (secondFound : second ∈ (ofDeclarations declarations).locals.zipIdx)
    (secondDeclared : second.1.isDeclaredAt index = true)
    (same : first.1.slot = second.1.slot) : first = second := by
  have slots : (((ofDeclarations declarations).locals.zipIdx.filter
      fun entry => entry.1.isDeclaredAt index).map fun entry => entry.1.slot).Nodup := by
    have forget := List.filter_map (l := (ofDeclarations declarations).locals.zipIdx)
      (f := Prod.fst) (p := LocalVariable.isDeclaredAt index)
    rw [List.zipIdx_map_fst] at forget
    have filled := slots_of_declared stacked index
    simp only [forget, List.map_map] at filled
    have range : (List.map _ _).Nodup := filled ▸ List.nodup_range
    exact range
  exact List.inj_on_of_nodup_map slots (List.mem_filter.mpr ⟨firstFound, firstDeclared⟩)
    (List.mem_filter.mpr ⟨secondFound, secondDeclared⟩) same

/-- A register holds the named local that is declared in it. -/
theorem find?_declared {declarations : List LocalDeclaration}
    (stacked : declarations.Pairwise LocalDeclaration.Precedes) {index position : Nat}
    {var : LocalVariable} (found : (ofDeclarations declarations).locals[position]? = some var)
    (declared : var.isDeclaredAt index = true) (named : var.isInternal = false) :
    (ofDeclarations declarations).find? var.slot index false = some position := by
  have member : (var, position) ∈ (ofDeclarations declarations).locals.zipIdx :=
    List.mem_zipIdx_iff_getElem?.mpr found
  have candidate : (position, var) ∈ (ofDeclarations declarations).candidates var.slot := by
    rw [(indexed_ofDeclarations declarations).candidates]
    simp [scan, member, named]
  -- There is a first declared candidate, and it can only be this one.
  cases first : ((ofDeclarations declarations).candidates var.slot).find?
      fun candidate => candidate.2.isDeclaredAt index with
  | none =>
      have absent := List.find?_eq_none.mp first _ candidate
      exact absurd declared absent
  | some other =>
      have otherDeclared : other.2.isDeclaredAt index = true := by
        simpa using List.find?_some first
      have otherMember := List.mem_of_find?_eq_some first
      rw [(indexed_ofDeclarations declarations).candidates, List.mem_filter, List.mem_map]
        at otherMember
      obtain ⟨⟨entry, scanned, rfl⟩, _⟩ := otherMember
      obtain ⟨entryMember, sameSlot⟩ := List.mem_filter.mp scanned
      have same : entry = (var, position) :=
        declared_unique stacked entryMember otherDeclared member declared (beq_iff_eq.mp sameSlot)
      simp only [find?, first, same]
      rfl

/-- Of locals on a stack, those declared at an instruction are in the registers 0, 1, 2 and so on in
order of declaration, and each of them that the source names is what its register is found to hold
there. -/
theorem declared_locals_fill_registers (declarations : List LocalDeclaration)
    (stacked : declarations.Pairwise LocalDeclaration.Precedes) (index : Nat) :
    let registers := ofDeclarations declarations
    let declared := registers.locals.filter (LocalVariable.isDeclaredAt index)
    registers.locals.map LocalVariable.declaration = declarations ∧
      declared.map LocalVariable.slot = List.range declared.length ∧
      ∀ position var, registers.locals[position]? = some var →
        var.isDeclaredAt index = true → var.isInternal = false →
        registers.find? var.slot index false = some position := by
  intro registers declared
  refine ⟨declarations_ofDeclarations declarations, slots_of_declared stacked index, ?_⟩
  intro position var found isDeclared named
  exact find?_declared stacked found isDeclared named

/-- Two loops after each other inside a function with a parameter: the second reuses the registers
of the first, and one local is never declared. -/
def twoLoops : List LocalDeclaration :=
  [⟨0, "t", 1, 20⟩, ⟨1, "(for index)", 3, 8⟩, ⟨2, "(for limit)", 3, 8⟩, ⟨3, "i", 4, 7⟩,
    ⟨4, "unused", 9, 9⟩, ⟨5, "x", 9, 20⟩, ⟨6, "(for index)", 11, 18⟩, ⟨7, "j", 12, 17⟩]

theorem declared_locals_of_twoLoops :
    twoLoops.Pairwise LocalDeclaration.Precedes ∧
      ((ofDeclarations twoLoops).locals.filter (LocalVariable.isDeclaredAt 13)).map
          LocalVariable.slot = [0, 1, 2, 3] ∧
      (ofDeclarations twoLoops).find? 3 13 false = some 7 := by
  have stacked : twoLoops.Pairwise LocalDeclaration.Precedes := by decide
  obtain ⟨_, slots, finds⟩ := declared_locals_fill_registers twoLoops stacked 13
  exact ⟨stacked, slots, finds 7 ⟨3, 7, "j", 12, 17, none⟩ (by decide) (by decide) (by decide)⟩

end Registers

end GlobalAudit
