import GlobalAudit.Proofs.AliasSettling

/-!
# Registers that are used again

One register serves many locals, one after the other. While a local that the source names is declared,
its register is found to hold that local. A local of the compiler is never found, and while it is
declared its register should be found to hold nothing. But ranges are looked at with one more
instruction around them, so a named local that stops where the compiler's local starts, or starts where
it stops, is found at the instruction at which they meet.
-/
namespace GlobalAudit

theorem LocalVariable.isLiveAt_iff (index : Nat) (var : LocalVariable) :
    var.isLiveAt index = true ↔ var.start - 1 ≤ index ∧ index ≤ var.stop := by
  rw [isLiveAt, Bool.and_eq_true, decide_eq_true_eq, decide_eq_true_eq]
  rfl

namespace Registers

variable {registers : Registers} {slot index position : Nat} {var : LocalVariable}

/-! ## Candidates -/

theorem Indexed.mem_candidates_iff (indexed : registers.Indexed) :
    (position, var) ∈ registers.candidates slot ↔
      registers.locals[position]? = some var ∧ var.slot = slot ∧ var.isInternal = false := by
  rw [indexed.candidates, List.mem_filter, List.mem_map]
  constructor
  · rintro ⟨⟨entry, scanned, same⟩, named⟩
    obtain ⟨member, slots⟩ := List.mem_filter.mp scanned
    cases same
    exact ⟨List.mem_zipIdx_iff_getElem?.mp member, beq_iff_eq.mp slots, by simpa using named⟩
  · rintro ⟨there, same, named⟩
    have scanned : (var, position) ∈ registers.scan slot :=
      List.mem_filter.mpr ⟨List.mem_zipIdx_iff_getElem?.mpr there, beq_iff_eq.mpr same⟩
    exact ⟨⟨(var, position), scanned, rfl⟩, by simpa using named⟩

/-- Candidates come in the order of their positions. -/
theorem Indexed.candidates_sorted (indexed : registers.Indexed) (slot : Nat) :
    (registers.candidates slot).Pairwise fun first second => first.1 < second.1 := by
  rw [indexed.candidates]
  apply List.Pairwise.filter
  rw [List.pairwise_map]
  exact registers.scan_sorted slot

/-- Where later candidates do not start earlier, the latest is the last. -/
theorem latest?_eq_getLast? {candidates : List (Nat × LocalVariable)}
    (sorted : candidates.Pairwise fun first second => first.2.liveFrom ≤ second.2.liveFrom) :
    latest? candidates = candidates.getLast? := by
  induction candidates using List.reverseRecOn with
  | nil => rfl
  | append_singleton candidates last ih =>
      obtain ⟨before, _, across⟩ := List.pairwise_append.mp sorted
      rw [List.getLast?_concat, latest?, List.foldl_concat]
      split
      · rfl
      · rename_i kept found
        rw [if_pos]
        exact across kept (mem_of_latest? found) last (List.mem_singleton_self last)

theorem getLast?_eq_some_iff {candidates : List (Nat × LocalVariable)}
    (sorted : candidates.Pairwise fun first second => first.1 < second.1)
    {candidate : Nat × LocalVariable} :
    candidates.getLast? = some candidate ↔
      candidate ∈ candidates ∧ ∀ other ∈ candidates, other.1 ≤ candidate.1 := by
  induction candidates using List.reverseRecOn with
  | nil => simp
  | append_singleton candidates last _ =>
      obtain ⟨_, _, across⟩ := List.pairwise_append.mp sorted
      have behind : ∀ other ∈ candidates, other.1 < last.1 := fun other member =>
        across other member last (List.mem_singleton_self last)
      rw [List.getLast?_concat]
      constructor
      · intro same
        cases same
        refine ⟨List.mem_append_right _ (List.mem_singleton_self _), ?_⟩
        intro other member
        rcases List.mem_append.mp member with early | final
        · exact Nat.le_of_lt (behind other early)
        · rw [List.mem_singleton.mp final]
      · rintro ⟨member, bound⟩
        rcases List.mem_append.mp member with early | final
        · have last_le := bound last (List.mem_append_right _ (List.mem_singleton_self _))
          exact absurd (behind candidate early) (Nat.not_lt.mpr last_le)
        · rw [List.mem_singleton.mp final]

/-! ## Locals on a stack -/

section Stack

variable {declarations : List LocalDeclaration}

/-- The register of a local, counted among those declared before it. -/
theorem slot_eq_length (found : (ofDeclarations declarations).locals[position]? = some var) :
    var.slot = (((ofDeclarations declarations).locals.take position).filter
      (LocalVariable.isDeclaredAt var.start)).length := by
  induction declarations using List.reverseRecOn with
  | nil => cases found
  | append_singleton declarations last ih =>
      rw [ofDeclarations_concat, addDeclaration, addLocal] at found ⊢
      dsimp only at found ⊢
      rcases Nat.lt_or_ge position (ofDeclarations declarations).locals.length with early | late
      · rw [List.getElem?_append_left early] at found
        rw [List.take_append_of_le_length (Nat.le_of_lt early)]
        exact ih found
      · rw [List.getElem?_append_right late, List.getElem?_singleton] at found
        split at found
        · rename_i zero
          have here : position = (ofDeclarations declarations).locals.length := by omega
          cases found
          rw [here, List.take_left]
          rfl
        · cases found

theorem precedes_of_lt (stacked : declarations.Pairwise LocalDeclaration.Precedes) {early late : Nat}
    {first second : LocalVariable} (before : early < late)
    (foundFirst : (ofDeclarations declarations).locals[early]? = some first)
    (foundSecond : (ofDeclarations declarations).locals[late]? = some second) :
    first.declaration.Precedes second.declaration := by
  rw [← declarations_ofDeclarations declarations, List.pairwise_map] at stacked
  obtain ⟨insideFirst, rfl⟩ := List.getElem?_eq_some_iff.mp foundFirst
  obtain ⟨insideSecond, rfl⟩ := List.getElem?_eq_some_iff.mp foundSecond
  exact List.pairwise_iff_getElem.mp stacked early late insideFirst insideSecond before

/-- A local that starts inside an earlier one is in a higher register. -/
theorem slot_lt_of_start_inside (stacked : declarations.Pairwise LocalDeclaration.Precedes)
    {early late : Nat} {first second : LocalVariable} (before : early < late)
    (foundFirst : (ofDeclarations declarations).locals[early]? = some first)
    (foundSecond : (ofDeclarations declarations).locals[late]? = some second)
    (inside : second.start < first.stop) : first.slot < second.slot := by
  have started : first.start ≤ second.start :=
    (precedes_of_lt stacked before foundFirst foundSecond).ordered
  -- What counts for the register of the first counts for the second too, and so does the first.
  have below : ((ofDeclarations declarations).locals.take early).filter
      (LocalVariable.isDeclaredAt first.start) =
        ((ofDeclarations declarations).locals.take early).filter
          (LocalVariable.isDeclaredAt second.start) := by
    apply List.filter_congr
    intro var member
    obtain ⟨place, there⟩ := List.mem_iff_getElem?.mp member
    rw [List.getElem?_take] at there
    split at there
    · rename_i lower
      exact (precedes_of_lt stacked lower there foundFirst).isDeclaredAt_start started inside
    · cases there
  have counted : ((ofDeclarations declarations).locals.take (early + 1)).filter
      (LocalVariable.isDeclaredAt second.start) =
        ((ofDeclarations declarations).locals.take early).filter
          (LocalVariable.isDeclaredAt second.start) ++ [first] := by
    have declared : first.isDeclaredAt second.start = true :=
      (LocalVariable.isDeclaredAt_iff _ _).mpr ⟨started, inside⟩
    rw [List.take_add_one, foundFirst, List.filter_append]
    simp [declared]
  have part : ((ofDeclarations declarations).locals.take (early + 1)).Sublist
      ((ofDeclarations declarations).locals.take late) := List.take_sublist_take_left before
  have more := (part.filter (LocalVariable.isDeclaredAt second.start)).length_le
  rw [counted, List.length_append, ← below, ← slot_eq_length foundFirst,
    ← slot_eq_length foundSecond] at more
  exact more

end Stack

/-! ## Neighbours in a register -/

/-- At the instruction a local meets another one: it stops as the other starts, or starts behind the
last instruction of the other. -/
inductive Meets (index : Nat) (var held : LocalVariable) : Prop where
  | before (starts : var.start = index) (stops : held.stop = index) (ordered : held.start ≤ index)
  | behind (stops : var.stop = index + 1) (starts : held.start = index + 1)
      (ordered : index ≤ held.stop)

theorem Meets.isLiveAt {held : LocalVariable} (meets : Meets index var held) :
    held.isLiveAt index = true := by
  rw [LocalVariable.isLiveAt_iff]
  cases meets with
  | before starts stops ordered => omega
  | behind stops starts ordered => omega

/-- A position that holds a named local of the register which meets the local. -/
def Neighbour (registers : Registers) (var : LocalVariable) (index place : Nat) : Prop :=
  ∃ held, registers.locals[place]? = some held ∧ held.slot = var.slot ∧ held.isInternal = false ∧
    Meets index var held

section Stack

variable {declarations : List LocalDeclaration} {place other : Nat} {held : LocalVariable}

/-- Another local of the register that is live around an instruction meets the declared one there. -/
theorem meets_of_isLiveAt (stacked : declarations.Pairwise LocalDeclaration.Precedes)
    (found : (ofDeclarations declarations).locals[place]? = some var)
    (declared : var.isDeclaredAt index = true)
    (there : (ofDeclarations declarations).locals[other]? = some held) (same : held.slot = var.slot)
    (differs : other ≠ place) (live : held.isLiveAt index = true) : Meets index var held := by
  have apart : ¬ held.isDeclaredAt index = true := by
    intro both
    have one : (held, other) = (var, place) :=
      declared_unique stacked (List.mem_zipIdx_iff_getElem?.mpr there) both
        (List.mem_zipIdx_iff_getElem?.mpr found) declared same
    exact differs (Prod.mk.inj one).2
  rw [LocalVariable.isDeclaredAt_iff] at declared apart
  rw [LocalVariable.isLiveAt_iff] at live
  rcases Nat.lt_or_gt_of_ne differs with early | late
  · have precedes := precedes_of_lt stacked early there found
    have ordered : held.start ≤ var.start := precedes.ordered
    have nested : var.start < held.stop → var.stop ≤ held.stop := precedes.nested ordered
    exact .before (by omega) (by omega) (by omega)
  · have outside : ¬ held.start < var.stop := by
      intro inside
      have higher := slot_lt_of_start_inside stacked late found there inside
      exact absurd same (Nat.ne_of_gt higher)
    exact .behind (by omega) (by omega) (by omega)

/-- While a local of the compiler is declared, the candidates for its register that are live are its
neighbours. -/
theorem mem_live_candidates_iff (stacked : declarations.Pairwise LocalDeclaration.Precedes)
    (found : (ofDeclarations declarations).locals[place]? = some var)
    (declared : var.isDeclaredAt index = true) (internal : var.isInternal = true) (other : Nat) :
    (∃ held, (other, held) ∈ ((ofDeclarations declarations).candidates var.slot).filter
        fun candidate => candidate.2.isLiveAt index) ↔
      (ofDeclarations declarations).Neighbour var index other := by
  simp only [List.mem_filter, (indexed_ofDeclarations declarations).mem_candidates_iff]
  constructor
  · rintro ⟨held, ⟨there, same, named⟩, live⟩
    refine ⟨held, there, same, named, meets_of_isLiveAt stacked found declared there same ?_ live⟩
    rintro rfl
    cases found.symm.trans there
    rw [internal] at named
    cases named
  · rintro ⟨held, there, same, named, meets⟩
    exact ⟨held, ⟨there, same, named⟩, meets.isLiveAt⟩

/-- No candidate for the register of a local of the compiler is declared together with it. -/
theorem find?_declared_eq_none (stacked : declarations.Pairwise LocalDeclaration.Precedes)
    (found : (ofDeclarations declarations).locals[place]? = some var)
    (declared : var.isDeclaredAt index = true) (internal : var.isInternal = true) :
    ((ofDeclarations declarations).candidates var.slot).find?
      (fun candidate => candidate.2.isDeclaredAt index) = none := by
  rw [List.find?_eq_none]
  rintro ⟨place', held⟩ member both
  obtain ⟨there, same, named⟩ := (indexed_ofDeclarations declarations).mem_candidates_iff.mp member
  have one : (held, place') = (var, place) :=
    declared_unique stacked (List.mem_zipIdx_iff_getElem?.mpr there) both
      (List.mem_zipIdx_iff_getElem?.mpr found) declared same
  cases one
  rw [internal] at named
  cases named

/-- On a stack the candidates for a register come in the order in which they start. -/
theorem candidates_sorted_liveFrom (stacked : declarations.Pairwise LocalDeclaration.Precedes)
    (slot : Nat) : ((ofDeclarations declarations).candidates slot).Pairwise
      fun first second => first.2.liveFrom ≤ second.2.liveFrom := by
  have indexed := indexed_ofDeclarations declarations
  refine (indexed.candidates_sorted slot).imp_of_mem ?_
  intro first second firstMember secondMember before
  obtain ⟨thereFirst, _⟩ := indexed.mem_candidates_iff.mp firstMember
  obtain ⟨thereSecond, _⟩ := indexed.mem_candidates_iff.mp secondMember
  have ordered : first.2.start ≤ second.2.start :=
    (precedes_of_lt stacked before thereFirst thereSecond).ordered
  exact Nat.sub_le_sub_right ordered 1

/-- While a local of the compiler is declared, the last live candidate for its register is found. -/
theorem find?_internal (stacked : declarations.Pairwise LocalDeclaration.Precedes)
    (found : (ofDeclarations declarations).locals[place]? = some var)
    (declared : var.isDeclaredAt index = true) (internal : var.isInternal = true) :
    (ofDeclarations declarations).find? var.slot index false =
      ((((ofDeclarations declarations).candidates var.slot).filter
        fun candidate => candidate.2.isLiveAt index).getLast?).map Prod.fst := by
  simp only [find?, Bool.false_eq_true, if_false,
    find?_declared_eq_none stacked found declared internal,
    latest?_eq_getLast? ((candidates_sorted_liveFrom stacked var.slot).filter _)]

theorem find?_internal_eq_some_iff (stacked : declarations.Pairwise LocalDeclaration.Precedes)
    (found : (ofDeclarations declarations).locals[place]? = some var)
    (declared : var.isDeclaredAt index = true) (internal : var.isInternal = true) :
    (ofDeclarations declarations).find? var.slot index false = some other ↔
      (ofDeclarations declarations).Neighbour var index other ∧
        ∀ later, (ofDeclarations declarations).Neighbour var index later → later ≤ other := by
  have sorted := ((indexed_ofDeclarations declarations).candidates_sorted var.slot).filter
    fun candidate => candidate.2.isLiveAt index
  have neighbours := mem_live_candidates_iff stacked found declared internal
  rw [find?_internal stacked found declared internal]
  simp only [Option.map_eq_some_iff, getLast?_eq_some_iff sorted]
  constructor
  · rintro ⟨⟨place', held⟩, ⟨member, bound⟩, rfl⟩
    refine ⟨(neighbours place').mp ⟨held, member⟩, ?_⟩
    intro later neighbour
    obtain ⟨rival, behind⟩ := (neighbours later).mpr neighbour
    exact bound _ behind
  · rintro ⟨neighbour, bound⟩
    obtain ⟨held, member⟩ := (neighbours other).mpr neighbour
    refine ⟨(other, held), ⟨member, ?_⟩, rfl⟩
    rintro ⟨later, rival⟩ behind
    exact bound later ((neighbours later).mp ⟨rival, behind⟩)

theorem find?_internal_eq_none_iff (stacked : declarations.Pairwise LocalDeclaration.Precedes)
    (found : (ofDeclarations declarations).locals[place]? = some var)
    (declared : var.isDeclaredAt index = true) (internal : var.isInternal = true) :
    (ofDeclarations declarations).find? var.slot index false = none ↔
      ∀ other, ¬ (ofDeclarations declarations).Neighbour var index other := by
  have neighbours := mem_live_candidates_iff stacked found declared internal
  rw [find?_internal stacked found declared internal, Option.map_eq_none_iff,
    List.getLast?_eq_none_iff, List.eq_nil_iff_forall_not_mem]
  constructor
  · intro empty other neighbour
    obtain ⟨held, member⟩ := (neighbours other).mpr neighbour
    exact empty _ member
  · rintro alone ⟨other, held⟩ member
    exact alone other ((neighbours other).mp ⟨held, member⟩)

end Stack

/-! ## What is found while a local is declared -/

/-- No instruction is in the declared ranges of both locals. -/
def DisjointRanges (first second : LocalVariable) : Prop :=
  ∀ index, ¬ (first.isDeclaredAt index = true ∧ second.isDeclaredAt index = true)

/-- While a local is declared, its register is found to hold this local if the source names it. Of a
local of the compiler this is the last of the named locals of the register that meet it at the
instruction, and nothing if there is none. So another local of the register is found only at the first
and the last instruction of a local of the compiler. -/
theorem reused_register_found_iff (declarations : List LocalDeclaration)
    (stacked : declarations.Pairwise LocalDeclaration.Precedes) {place index : Nat}
    {var : LocalVariable} (found : (ofDeclarations declarations).locals[place]? = some var)
    (declared : var.isDeclaredAt index = true) :
    let registers := ofDeclarations declarations
    (var.isInternal = false → registers.find? var.slot index false = some place) ∧
      (∀ other held, registers.locals[other]? = some held → held.slot = var.slot →
        DisjointRanges var held →
        (registers.find? var.slot index false = some other ↔
          var.isInternal = true ∧ registers.Neighbour var index other ∧
            ∀ later, registers.Neighbour var index later → later ≤ other)) ∧
      (registers.find? var.slot index false = none ↔
        var.isInternal = true ∧ ∀ other, ¬ registers.Neighbour var index other) := by
  intro registers
  cases internal : var.isInternal with
  | false =>
      have finds := find?_declared stacked found declared internal
      refine ⟨fun _ => finds, ?_, ?_⟩
      · intro other held there _ disjoint
        simp only [Bool.false_eq_true, false_and, iff_false]
        intro confused
        cases finds.symm.trans confused
        cases found.symm.trans there
        exact disjoint index ⟨declared, declared⟩
      · simp [registers, finds]
  | true =>
      refine ⟨fun named => absurd named (by decide), ?_, ?_⟩
      · intro other held _ _ _
        simp only [true_and]
        exact find?_internal_eq_some_iff stacked found declared internal
      · simp only [true_and]
        exact find?_internal_eq_none_iff stacked found declared internal

/-- A loop, and a local declared where the loop ends. -/
def loopThenLocal : List LocalDeclaration := [⟨0, "(for index)", 4, 8⟩, ⟨1, "v", 8, 12⟩]

theorem disjointRanges_loopThenLocal :
    DisjointRanges ⟨0, 0, "(for index)", 4, 8, none⟩ ⟨0, 1, "v", 8, 12, none⟩ := by
  rintro index ⟨first, second⟩
  rw [LocalVariable.isDeclaredAt_iff] at first second
  dsimp only at first second
  omega

/-- The two meet at the last instruction of the loop only. -/
theorem neighbour_loopThenLocal_iff {index place : Nat} :
    (ofDeclarations loopThenLocal).Neighbour ⟨0, 0, "(for index)", 4, 8, none⟩ index place ↔
      index = 7 ∧ place = 1 := by
  constructor
  · rintro ⟨held, there, _, named, meets⟩
    match place with
    | 0 =>
        cases there
        cases named
    | 1 =>
        cases there
        cases meets with
        | before starts stops ordered => cases starts.trans stops.symm
        | behind stops starts ordered =>
            cases starts
            exact ⟨rfl, rfl⟩
    | _ + 2 => cases there
  · rintro ⟨rfl, rfl⟩
    exact ⟨⟨0, 1, "v", 8, 12, none⟩, rfl, rfl, rfl, .behind rfl rfl (by decide)⟩

/-- Inside the loop nothing is found, but at its last instruction it is the local behind it. -/
theorem loopThenLocal_found :
    loopThenLocal.Pairwise LocalDeclaration.Precedes ∧
      (ofDeclarations loopThenLocal).find? 0 5 false = none ∧
      (ofDeclarations loopThenLocal).find? 0 7 false = some 1 := by
  have stacked : loopThenLocal.Pairwise LocalDeclaration.Precedes := by decide
  have loop : (ofDeclarations loopThenLocal).locals[0]? = some ⟨0, 0, "(for index)", 4, 8, none⟩ := rfl
  have early : LocalVariable.isDeclaredAt 5 ⟨0, 0, "(for index)", 4, 8, none⟩ = true := rfl
  have late : LocalVariable.isDeclaredAt 7 ⟨0, 0, "(for index)", 4, 8, none⟩ = true := rfl
  refine ⟨stacked, ?_, ?_⟩
  · refine (reused_register_found_iff loopThenLocal stacked loop early).2.2.mpr ⟨rfl, ?_⟩
    intro other neighbour
    exact absurd (neighbour_loopThenLocal_iff.mp neighbour).1 (by decide)
  · refine ((reused_register_found_iff loopThenLocal stacked loop late).2.1 1 _ rfl rfl
      disjointRanges_loopThenLocal).mpr ⟨rfl, neighbour_loopThenLocal_iff.mpr ⟨rfl, rfl⟩, ?_⟩
    intro later neighbour
    exact Nat.le_of_eq (neighbour_loopThenLocal_iff.mp neighbour).2

/-- So two locals that share a register are confused at an instruction at which one of them is
declared. -/
theorem loopThenLocal_confused :
    ¬ ∀ declarations : List LocalDeclaration, declarations.Pairwise LocalDeclaration.Precedes →
      ∀ (place other index : Nat) (var held : LocalVariable),
        (ofDeclarations declarations).locals[place]? = some var →
        (ofDeclarations declarations).locals[other]? = some held → held.slot = var.slot →
        DisjointRanges var held → var.isDeclaredAt index = true →
        (ofDeclarations declarations).find? var.slot index false ≠ some other := by
  intro apart
  exact apart loopThenLocal (by decide) 0 1 7 _ _ rfl rfl rfl disjointRanges_loopThenLocal rfl rfl

end Registers

end GlobalAudit
