import GlobalAudit.Proofs.RegisterReuse
import Mathlib.Data.List.Find

/-!
# Registers by number

The positions of the locals in each register are kept beside the locals themselves. Whatever is added or
promoted, in whatever order, they are the positions that a look at all locals gives, and so a register
is found to hold what a scan of all locals finds, also where ranges overlap or end before they start.
-/
namespace GlobalAudit.Registers

/-- What is done to the variables of a function while its listing is read and walked. -/
inductive Operation where
  | addLocal (index : Nat) (name : String) (start stop : Nat)
  | addUpvalue (slot : Nat) (name : String)
  | promote (position : Nat) (target : Option String)
  deriving DecidableEq, Repr

def perform (registers : Registers) : Operation → Registers
  | .addLocal index name start stop => registers.addLocal index name start stop
  | .addUpvalue slot name => registers.addUpvalue slot name
  | .promote position target => registers.promote position target

/-- The variables after operations in order, from none on. -/
def ofOperations (operations : List Operation) : Registers := operations.foldl perform empty

theorem ofOperations_concat (operations : List Operation) (last : Operation) :
    ofOperations (operations ++ [last]) = (ofOperations operations).perform last :=
  List.foldl_concat ..

/-! ## Operations -/

variable {registers : Registers} {slot index position : Nat} {var : LocalVariable}

theorem Indexed.perform (indexed : registers.Indexed) (operation : Operation) :
    (registers.perform operation).Indexed := by
  cases operation with
  | addLocal index name start stop => exact indexed.addLocal index name start stop
  | addUpvalue slot name => exact indexed
  | promote position target => exact (SameVariables.promote registers position target).indexed indexed

theorem indexed_ofOperations (operations : List Operation) : (ofOperations operations).Indexed := by
  induction operations using List.reverseRecOn with
  | nil => exact indexed_empty
  | append_singleton operations last ih =>
      rw [ofOperations_concat]
      exact ih.perform last

/-- An operation leaves a local as it is, but for the name that it stands for. -/
theorem exists_perform (found : registers.locals[position]? = some var) (operation : Operation) :
    ∃ target, (registers.perform operation).locals[position]? = some { var with target } := by
  cases operation with
  | addLocal index name start stop =>
      obtain ⟨inside, _⟩ := List.getElem?_eq_some_iff.mp found
      refine ⟨var.target, ?_⟩
      change (registers.locals ++ [_])[position]? = some var
      rw [List.getElem?_append_left inside, found]
  | addUpvalue slot name => exact ⟨var.target, found⟩
  | promote place target =>
      change ∃ target', (registers.locals.modify place _)[position]? = _
      rw [List.getElem?_modify, found]
      by_cases here : place = position
      · exact ⟨some (target.getD var.name), by simp [here, LocalVariable.promoted]⟩
      · exact ⟨var.target, by simp [here]⟩

/-! ## Positions -/

theorem Indexed.mem_bySlot_iff (indexed : registers.Indexed) :
    position ∈ registers.bySlot.getD slot [] ↔
      ∃ var, registers.locals[position]? = some var ∧ var.slot = slot := by
  simp [indexed slot, scan, List.mem_zipIdx_iff_getElem?]

theorem Indexed.bySlot_sorted (indexed : registers.Indexed) (slot : Nat) :
    (registers.bySlot.getD slot []).Pairwise (· < ·) := by
  rw [indexed slot, List.pairwise_map]
  exact registers.scan_sorted slot

/-! ## Looking at all locals -/

/-- None of the candidates starts later. -/
def isLatestOf (candidates : List (Nat × LocalVariable)) (best : Nat × LocalVariable) : Bool :=
  candidates.all fun other => other.2.liveFrom ≤ best.2.liveFrom

theorem isLatestOf_iff {candidates : List (Nat × LocalVariable)} {best : Nat × LocalVariable} :
    isLatestOf candidates best = true ↔
      ∀ other ∈ candidates, other.2.liveFrom ≤ best.2.liveFrom := by
  simp [isLatestOf]

theorem latest?_concat (candidates : List (Nat × LocalVariable)) (last : Nat × LocalVariable) :
    latest? (candidates ++ [last]) =
      match latest? candidates with
      | none => some last
      | some kept => if kept.2.liveFrom ≤ last.2.liveFrom then some last else latest? candidates :=
  List.foldl_concat ..

theorem latest?_eq_none_iff {candidates : List (Nat × LocalVariable)} :
    latest? candidates = none ↔ candidates = [] := by
  induction candidates using List.reverseRecOn with
  | nil => exact ⟨fun _ => rfl, fun _ => rfl⟩
  | append_singleton candidates last _ =>
      rw [latest?_concat]
      split
      · simp
      · rename_i kept found
        split <;> simp [found]

/-- Going through candidates with the best one so far finds the last of those that start latest. -/
theorem latest?_eq_find? (candidates : List (Nat × LocalVariable)) :
    latest? candidates = candidates.reverse.find? (isLatestOf candidates) := by
  induction candidates using List.reverseRecOn with
  | nil => rfl
  | append_singleton candidates last ih =>
      rw [latest?_concat, List.reverse_concat, List.find?_cons]
      cases found : latest? candidates with
      | none =>
          cases latest?_eq_none_iff.mp found
          simp [isLatestOf]
      | some kept =>
          have member : kept ∈ candidates := mem_of_latest? found
          have most : ∀ other ∈ candidates, other.2.liveFrom ≤ kept.2.liveFrom :=
            isLatestOf_iff.mp (List.find?_some (ih ▸ found))
          by_cases later : kept.2.liveFrom ≤ last.2.liveFrom
          · have chosen : isLatestOf (candidates ++ [last]) last = true := by
              rw [isLatestOf_iff, List.forall_mem_append, List.forall_mem_singleton]
              exact ⟨fun other there => (most other there).trans later, Nat.le_refl _⟩
            simp only [later, if_true, chosen]
          · have passed : isLatestOf (candidates ++ [last]) last = false := by
              rw [Bool.eq_false_iff, ne_eq, isLatestOf_iff]
              exact fun all => later (all kept (List.mem_append_left _ member))
            -- What starts latest among the earlier ones starts behind the last one.
            have same : ∀ other ∈ candidates.reverse,
                isLatestOf (candidates ++ [last]) other = isLatestOf candidates other := by
              intro other _
              rw [Bool.eq_iff_iff, isLatestOf_iff, isLatestOf_iff, List.forall_mem_append,
                List.forall_mem_singleton]
              refine ⟨And.left, fun all => ⟨all, ?_⟩⟩
              have := all kept member
              omega
            simp only [later, if_false, passed]
            rw [List.find?_congr same, ← ih, found]

/-- The locals in a register that the source names, with their positions. -/
def namedIn (slot : Nat) (registers : Registers) : List (LocalVariable × Nat) :=
  registers.locals.zipIdx.filter fun entry => entry.1.slot == slot && !entry.1.isInternal

/-- What a register holds, by looking at all locals. At the start of a function it is the first that has
not ended. Later it is the first that is declared at the instruction, and failing that, of those that are
live there, the last one that starts latest. -/
def scanFor (slot index : Nat) (atStart : Bool) (registers : Registers) : Option Nat :=
  let named := registers.namedIn slot
  let live := named.filter fun entry => entry.1.liveFrom ≤ index && index ≤ entry.1.liveTo
  let held :=
    if atStart then named.find? fun entry => index ≤ entry.1.liveTo
    else (named.find? fun entry => entry.1.start ≤ index && index < entry.1.stop).or
      (live.reverse.find? fun best => live.all fun other => other.1.liveFrom ≤ best.1.liveFrom)
  held.map Prod.snd

theorem Indexed.candidates_eq_map (indexed : registers.Indexed) (slot : Nat) :
    registers.candidates slot = (registers.namedIn slot).map Prod.swap := by
  rw [indexed.candidates, List.filter_map, scan, List.filter_filter, namedIn]
  congr 1
  apply List.filter_congr
  intro entry _
  exact Bool.and_comm _ _

theorem latest?_map_swap (live : List (LocalVariable × Nat)) :
    latest? (live.map Prod.swap) = (live.reverse.find? fun best =>
      live.all fun other => other.1.liveFrom ≤ best.1.liveFrom).map Prod.swap := by
  rw [latest?_eq_find?, ← List.map_reverse, List.find?_map]
  congr 2
  funext best
  exact List.all_map

theorem Indexed.find?_eq_scanFor (indexed : registers.Indexed) (slot index : Nat) (atStart : Bool) :
    registers.find? slot index atStart = registers.scanFor slot index atStart := by
  have position (found : Option (LocalVariable × Nat)) :
      (found.map Prod.swap).map Prod.fst = found.map Prod.snd := Option.map_map ..
  unfold find? scanFor
  simp only [indexed.candidates_eq_map, List.find?_map, List.filter_map, latest?_map_swap, position,
    Function.comp_def, Prod.snd_swap, LocalVariable.isDeclaredAt, LocalVariable.isLiveAt]
  cases atStart with
  | true => rfl
  | false =>
      simp only [Bool.false_eq_true, if_false]
      cases (registers.namedIn slot).find? fun entry =>
        decide (entry.1.start ≤ index) && decide (index < entry.1.stop) with
      | none => rfl
      | some entry => rfl

/-- After any operations the positions kept for a register are those of the locals in it, in ascending
order and inside the list of locals, an operation changes no local but for the name that it stands for,
and every search finds what a scan of all locals finds. -/
theorem slot_index_agrees (operations : List Operation) :
    let registers := ofOperations operations
    (∀ slot, (registers.bySlot.getD slot []).Pairwise (· < ·) ∧
        ∀ position, position ∈ registers.bySlot.getD slot [] ↔
          ∃ var, registers.locals[position]? = some var ∧ var.slot = slot) ∧
      (∀ (slot : Nat) (positions : List Nat), registers.bySlot[slot]? = some positions →
        ∀ position ∈ positions, position < registers.locals.length) ∧
      (∀ (operation : Operation) (position : Nat) (var : LocalVariable),
        registers.locals[position]? = some var →
        ∃ target, (registers.perform operation).locals[position]? = some { var with target }) ∧
      ∀ slot index atStart,
        registers.find? slot index atStart = registers.scanFor slot index atStart := by
  intro registers
  have indexed : registers.Indexed := indexed_ofOperations operations
  refine ⟨fun slot => ⟨indexed.bySlot_sorted slot, fun position => indexed.mem_bySlot_iff⟩, ?_, ?_, ?_⟩
  · intro slot positions kept position member
    have stored : position ∈ registers.bySlot.getD slot [] := by
      rwa [Std.TreeMap.getD_eq_getD_getElem?, kept]
    obtain ⟨var, found, _⟩ := indexed.mem_bySlot_iff.mp stored
    exact (List.getElem?_eq_some_iff.mp found).1
  · intro operation position var found
    exact exists_perform found operation
  · exact indexed.find?_eq_scanFor

/-- Two locals of one register that start together and are never declared. -/
def tiedLocals : List Operation :=
  [.addLocal 0 "x" 6 6, .promote 0 (some "m"), .addUpvalue 0 "u", .addLocal 1 "y" 6 6]

theorem slot_index_of_tiedLocals :
    (ofOperations tiedLocals).bySlot[0]? = some [0, 1] ∧ 1 < (ofOperations tiedLocals).locals.length ∧
      (∃ target, ((ofOperations tiedLocals).perform (.promote 1 none)).locals[1]? =
        some ⟨0, 1, "y", 6, 6, target⟩) ∧
      (ofOperations tiedLocals).find? 0 6 false = some 1 ∧
      (ofOperations tiedLocals).find? 0 6 true = some 0 := by
  obtain ⟨_, inside, kept, search⟩ := slot_index_agrees tiedLocals
  have stored : (ofOperations tiedLocals).bySlot[0]? = some [0, 1] := by decide
  refine ⟨stored, inside 0 [0, 1] stored 1 (by decide), kept (.promote 1 none) 1 ⟨0, 1, "y", 6, 6, none⟩ rfl,
    (search 0 6 false).trans (by decide), (search 0 6 true).trans (by decide)⟩

end GlobalAudit.Registers
