import GlobalAudit.Json.Basic
import Mathlib.Data.List.Sort
import Mathlib.Data.String.Basic
import Mathlib.Order.Basic

/-!
# Order of texts by bytes

Texts are compared character by character, which is the same as comparing their bytes in UTF-8 one by
one: of two characters, the one with the smaller code point has the smaller byte at the first place
where their encodings differ. The members of JSON objects are in this order, and members that come in
it stay as they are.
-/
namespace GlobalAudit

namespace Text

/-- The bytes of a text in UTF-8. -/
def bytes (text : String) : List UInt8 := text.toUTF8.data.toList

theorem bytes_eq_flatMap (text : String) :
    bytes text = text.toList.flatMap String.utf8EncodeChar := by
  have encoded (chars : List Char) :
      bytes (String.ofList chars) = chars.flatMap String.utf8EncodeChar := by
    rw [bytes, String.toUTF8_eq_toByteArray, String.toByteArray_ofList, List.utf8Encode,
      List.data_toByteArray]
  rw [← encoded, String.ofList_toList]

/-- Bytes are compared first by first. -/
theorem ofNat_cons_lt_iff {first second : Nat} (fits : first < 256) (fitsToo : second < 256)
    (rest more : List UInt8) :
    UInt8.ofNat first :: rest < UInt8.ofNat second :: more ↔
      first < second ∨ first = second ∧ rest < more := by
  rw [List.cons_lt_cons_iff, UInt8.lt_iff_toNat_lt, ← UInt8.toNat_inj, UInt8.toNat_ofNat',
    UInt8.toNat_ofNat', Nat.mod_eq_of_lt fits, Nat.mod_eq_of_lt fitsToo]

/-- Encodings differ at some place, and there the smaller character has the smaller byte. -/
theorem utf8EncodeChar_append_lt {first second : Char} (less : first < second)
    (rest more : List UInt8) :
    String.utf8EncodeChar first ++ rest < String.utf8EncodeChar second ++ more := by
  have codes : first.val.toNat < second.val.toNat := less
  have bound : second.val.toNat < 0x110000 := by
    rcases second.valid with low | high
    · omega
    · exact high.2
  unfold String.utf8EncodeChar
  dsimp only
  -- An encoding has one to four bytes. A longer one starts with a greater byte; for encodings of one
  -- length the bytes are the digits of the code points to the base 64, the highest first.
  split_ifs <;>
    simp (disch := omega) only [List.cons_append, List.nil_append, ofNat_cons_lt_iff,
      Nat.mod_eq_of_lt] <;>
    omega

theorem flatMap_utf8EncodeChar_lt {first second : List Char} (less : first < second) :
    first.flatMap String.utf8EncodeChar < second.flatMap String.utf8EncodeChar := by
  induction first generalizing second with
  | nil =>
      cases second with
      | nil => exact absurd less (List.lt_irrefl _)
      | cons c rest =>
          obtain ⟨byte, more, encoded⟩ :=
            List.exists_cons_of_ne_nil (String.utf8EncodeChar_ne_nil (c := c))
          rw [List.flatMap_nil, List.flatMap_cons, encoded, List.cons_append]
          exact List.nil_lt_cons byte _
  | cons c rest ih =>
      cases second with
      | nil => exact absurd less (List.not_lt_nil _)
      | cons d more =>
          rw [List.flatMap_cons, List.flatMap_cons]
          rcases List.cons_lt_cons_iff.mp less with smaller | ⟨rfl, later⟩
          · exact utf8EncodeChar_append_lt smaller _ _
          · exact List.append_left_lt (ih later)

/-- One text is before another exactly when its bytes are. -/
theorem bytes_lt_bytes_iff {first second : String} : bytes first < bytes second ↔ first < second := by
  have forward {first second : String} (less : first < second) : bytes first < bytes second := by
    rw [bytes_eq_flatMap, bytes_eq_flatMap]
    exact flatMap_utf8EncodeChar_lt (String.lt_iff_toList_lt.mp less)
  refine ⟨?_, forward⟩
  intro less
  rcases lt_trichotomy first second with before | rfl | behind
  · exact before
  · exact absurd less (List.lt_irrefl _)
  · exact absurd less (List.lt_asymm (forward behind))

end Text

theorem pairwise_mergeSort_key {α : Type} (key : α → String) (items : List α) :
    (items.mergeSort fun first second => decide (key first ≤ key second)).Pairwise
      fun first second => key first ≤ key second := by
  refine (List.pairwise_mergeSort ?_ ?_ items).imp of_decide_eq_true
  · intro first second third
    simpa using le_trans
  · intro first second
    simpa using le_total (key first) (key second)

/-- Lists that ascend by names and have the same members are equal. -/
theorem eq_of_ascending {α : Type} {first second : List (String × α)}
    (ascending : first.Pairwise fun early late => early.1 < late.1)
    (ascendingToo : second.Pairwise fun early late => early.1 < late.1)
    (same : ∀ member, member ∈ first ↔ member ∈ second) : first = second := by
  have antisymm : Std.Antisymm fun early late : String × α => early.1 < late.1 :=
    ⟨fun _ _ less more => absurd less (lt_asymm more)⟩
  have irrefl : Std.Irrefl fun early late : String × α => early.1 < late.1 :=
    ⟨fun _ => lt_irrefl _⟩
  exact ascending.eq_of_mem_iff ascendingToo same

theorem Json.pairwise_lastByName {α : Type} (members : List (String × α)) :
    (lastByName members).Pairwise fun first second => first.1 < second.1 := by
  refine Std.TreeMap.ordered_keys_toList.imp ?_
  intro first second less
  exact compare_lt_iff_lt.mp less

/-- No member is lost where names are different. -/
theorem Json.mem_lastByName_iff {α : Type} {members : List (String × α)}
    (distinct : (members.map Prod.fst).Nodup) (member : String × α) :
    member ∈ lastByName members ↔ member ∈ members := by
  have apart : members.Pairwise fun first second => ¬ compare first.1 second.1 = .eq := by
    refine (List.pairwise_map.mp distinct).imp ?_
    intro first second differ same
    exact differ (Std.LawfulEqOrd.compare_eq_iff_eq.mp same)
  have kept {name : String} {value : α} (member : (name, value) ∈ members) :
      (Std.TreeMap.ofList members compare)[name]? = some value :=
    Std.TreeMap.getElem?_ofList_of_mem Std.ReflCmp.compare_self apart member
  obtain ⟨name, value⟩ := member
  rw [lastByName, Std.TreeMap.mem_toList_iff_getElem?_eq_some]
  refine ⟨?_, kept⟩
  intro found
  by_cases named : name ∈ members.map Prod.fst
  · obtain ⟨⟨_, other⟩, member, rfl⟩ := List.mem_map.mp named
    have same : other = value := Option.some.inj ((kept member).symm.trans found)
    exact same ▸ member
  · rw [Std.TreeMap.getElem?_ofList_of_contains_eq_false (by simpa using named)] at found
    cases found

/-- Members with ascending names are kept in their order. -/
theorem Json.lastByName_of_ascending {α : Type} {members : List (String × α)}
    (ascending : members.Pairwise fun first second => first.1 < second.1) :
    lastByName members = members := by
  have distinct : (members.map Prod.fst).Nodup :=
    List.pairwise_map.mpr (ascending.imp fun less => ne_of_lt less)
  exact eq_of_ascending (pairwise_lastByName members) ascending (mem_lastByName_iff distinct)

theorem Json.orderedItems_of_ordered {items : List Json}
    (each : ∀ item ∈ items, item.ordered = item) : orderedItems items = items := by
  induction items with
  | nil => rfl
  | cons item rest ih =>
      obtain ⟨first, later⟩ := List.forall_mem_cons.mp each
      rw [orderedItems, first, ih later]

theorem Json.orderedMembers_eq_map (members : List (String × Json)) :
    orderedMembers members = members.map fun member => (member.1, member.2.ordered) := by
  induction members with
  | nil => rfl
  | cons member rest ih => exact congrArg _ ih

/-- An object is in order if its names ascend and its values are in order. -/
theorem Json.ordered_object {members : List (String × Json)}
    (ascending : members.Pairwise fun first second => first.1 < second.1)
    (each : ∀ member ∈ members, member.2.ordered = member.2) :
    (Json.object members).ordered = .object members := by
  have same : orderedMembers members = members := by
    rw [orderedMembers_eq_map]
    refine (List.map_congr_left ?_).trans (List.map_id members)
    intro member listed
    rw [each member listed]
    rfl
  rw [ordered, same, lastByName_of_ascending ascending]

end GlobalAudit
