import GlobalAudit.Text.Wildcard
import Mathlib.Data.List.Infix
import Mathlib.Logic.Relation

/-! Exactness of wildcard matching. A pattern stands for the names that fall into consecutive
pieces, one for each of its characters. The matcher goes back to the last star only: when it meets a
further star, what the star before could still take is left to the new one. -/
namespace GlobalAudit.Text.Wildcard

/-! ## Pieces -/

/-- The pieces of a name that a character of the pattern stands for. -/
def StandsFor (p : Char) (piece : List Char) : Prop :=
  if p = '*' then True else if p = '?' then piece.length = 1 else piece = [p]

/-- The name falls into consecutive pieces, one for each character of the pattern. -/
def Splits (pattern name : List Char) : Prop :=
  ∃ pieces, List.Forall₂ StandsFor pattern pieces ∧ pieces.flatten = name

section Pieces

variable {p c : Char} {rest name later : List Char}

theorem splits_nil_iff : Splits [] name ↔ name = [] := by
  constructor
  · rintro ⟨pieces, each, whole⟩
    cases each
    exact whole.symm
  · rintro rfl
    exact ⟨[], .nil, rfl⟩

theorem splits_cons_iff :
    Splits (p :: rest) name ↔
      ∃ piece late, name = piece ++ late ∧ StandsFor p piece ∧ Splits rest late := by
  constructor
  · rintro ⟨pieces, each, whole⟩
    cases each with
    | @cons _ piece _ pieces stands others =>
        exact ⟨piece, pieces.flatten, whole.symm, stands, pieces, others, rfl⟩
  · rintro ⟨piece, late, rfl, stands, pieces, each, rfl⟩
    exact ⟨piece :: pieces, .cons stands each, rfl⟩

theorem splits_star_iff : Splits ('*' :: rest) name ↔ ∃ late, late <:+ name ∧ Splits rest late := by
  rw [splits_cons_iff]
  constructor
  · rintro ⟨piece, late, rfl, _, split⟩
    exact ⟨late, List.suffix_append piece late, split⟩
  · rintro ⟨late, ⟨piece, rfl⟩, split⟩
    exact ⟨piece, late, rfl, trivial, split⟩

/-- A character other than the star stands for single characters. -/
theorem standsFor_plain_iff (plain : p ≠ '*') {piece : List Char} :
    StandsFor p piece ↔ ∃ c, piece = [c] ∧ (p = '?' ∨ p = c) := by
  rw [StandsFor, if_neg plain]
  by_cases any : p = '?'
  · rw [if_pos any, List.length_eq_one_iff]
    simp only [any, true_or, and_true]
  · rw [if_neg any]
    simp only [any, false_or, exists_eq_right']

theorem splits_plain_iff (plain : p ≠ '*') :
    Splits (p :: rest) name ↔
      ∃ c later, name = c :: later ∧ (p = '?' ∨ p = c) ∧ Splits rest later := by
  rw [splits_cons_iff]
  constructor
  · rintro ⟨piece, late, rfl, stands, split⟩
    obtain ⟨c, rfl, accepted⟩ := (standsFor_plain_iff plain).mp stands
    exact ⟨c, late, rfl, accepted, split⟩
  · rintro ⟨c, later, rfl, accepted, split⟩
    exact ⟨[c], later, rfl, (standsFor_plain_iff plain).mpr ⟨c, rfl, accepted⟩, split⟩

/-- Only stars stand for nothing. -/
theorem splits_nil_name_iff {pattern : List Char} :
    Splits pattern [] ↔ pattern.all (· == '*') = true := by
  induction pattern with
  | nil => exact iff_of_true (splits_nil_iff.mpr rfl) rfl
  | cons p rest ih =>
      by_cases star : p = '*'
      · subst star
        rw [splits_star_iff]
        simp only [List.suffix_nil, exists_eq_left, ih, List.all_cons, beq_self_eq_true,
          Bool.true_and]
      · rw [splits_plain_iff star]
        simp [star]

/-- A part of the pattern without stars takes as many characters of the name as it has itself. -/
theorem exists_of_starless {front back : List Char} (starless : '*' ∉ front)
    (split : Splits (front ++ back) name) :
    ∃ early late, name = early ++ late ∧ early.length = front.length ∧ Splits back late := by
  induction front generalizing name with
  | nil => exact ⟨[], name, rfl, rfl, split⟩
  | cons p front ih =>
      obtain ⟨plain, starless⟩ := not_or.mp (mt List.mem_cons.mpr starless)
      obtain ⟨c, later, rfl, _, split⟩ := (splits_plain_iff (Ne.symm plain)).mp split
      obtain ⟨early, late, rfl, same, split⟩ := ih starless split
      exact ⟨c :: early, late, rfl, congrArg Nat.succ same, split⟩

end Pieces

/-! ## The plain matcher -/

/-- Matching by trying, at each star, every rest of the name. -/
def naive : List Char → List Char → Bool
  | [], name => name.isEmpty
  | p :: rest, name =>
    if p = '*' then name.tails.any (naive rest)
    else
      match name with
      | [] => false
      | c :: later => (p == '?' || p == c) && naive rest later

theorem naive_iff {pattern name : List Char} : naive pattern name = true ↔ Splits pattern name := by
  induction pattern generalizing name with
  | nil => rw [naive, splits_nil_iff, List.isEmpty_iff]
  | cons p rest ih =>
      by_cases star : p = '*'
      · subst star
        simp only [naive, if_true, List.any_eq_true, List.mem_tails, splits_star_iff, ih]
      · rw [splits_plain_iff star]
        cases name with
        | nil => simp [naive, star]
        | cons c later => simp [naive, star, ih]

/-! ## The matcher with one place to go back to -/

theorem accept?_cons_eq_none_iff {c p : Char} {rest : List Char} :
    accept? c (p :: rest) = none ↔ ¬ (p = '?' ∨ p = c) := by
  rw [accept?, ite_eq_right_iff]
  simp only [reduceCtorEq, imp_false]

theorem exists_of_accept? {c : Char} {pattern rest : List Char}
    (accepted : accept? c pattern = some rest) : ∃ p, pattern = p :: rest ∧ (p = '?' ∨ p = c) := by
  cases pattern with
  | nil => cases accepted
  | cons p tail =>
      rw [accept?, Option.ite_none_right_eq_some] at accepted
      obtain ⟨fitting, same⟩ := accepted
      cases same
      exact ⟨p, rfl, fitting⟩

/-- Where a character is refused before the next star, the name is refused. -/
theorem not_splits_of_refused {c : Char} {pattern later : List Char}
    (plain : ∀ rest, pattern ≠ '*' :: rest) (refused : accept? c pattern = none) :
    ¬ Splits pattern (c :: later) := by
  cases pattern with
  | nil => exact fun split => List.cons_ne_nil _ _ (splits_nil_iff.mp split)
  | cons p rest =>
      have noStar : p ≠ '*' := fun star => plain rest (star ▸ rfl)
      rw [splits_plain_iff noStar]
      rintro ⟨d, others, whole, fitting, _⟩
      cases whole
      exact accept?_cons_eq_none_iff.mp refused fitting

/-- What the retry place can still offer: its star takes at least one character more. -/
def Offers : Option Retry → Prop
  | some ⟨again, _ :: shorter⟩ => Splits ('*' :: again) shorter
  | _ => False

/-- A star takes nothing, or something that its retry place offers. -/
theorem splits_star_iff_offers {again name : List Char} :
    Splits ('*' :: again) name ↔ Splits again name ∨ Offers (some ⟨again, name⟩) := by
  cases name with
  | nil => simp [splits_star_iff, Offers]
  | cons c later =>
      rw [Offers, splits_star_iff, splits_star_iff]
      simp only [List.suffix_cons_iff, or_and_right, exists_or, exists_eq_left]

/-- The matcher has come from the retry place to where it is without a star on the way, so it has
gone equally far in the pattern and in the name. -/
def Aligned (pattern name : List Char) : Option Retry → Prop
  | none => True
  | some ⟨again, held⟩ => ∃ passed taken, '*' ∉ passed ∧ passed.length = taken.length ∧
      again = passed ++ pattern ∧ held = taken ++ name

namespace Aligned

variable {pattern name rest later : List Char} {p c : Char} {retry : Option Retry}

theorem here (pattern name : List Char) : Aligned pattern name (some ⟨pattern, name⟩) :=
  ⟨[], [], List.not_mem_nil, rfl, rfl, rfl⟩

theorem advance (aligned : Aligned (p :: rest) (c :: later) retry) (plain : p ≠ '*') :
    Aligned rest later retry := by
  cases retry with
  | none => trivial
  | some place =>
      obtain ⟨passed, taken, starless, level, again, held⟩ := aligned
      refine ⟨passed ++ [p], taken ++ [c], ?_, ?_, ?_, ?_⟩
      · rw [List.mem_append, List.mem_singleton, not_or]
        exact ⟨starless, Ne.symm plain⟩
      · rw [List.length_append, List.length_append, level]
        rfl
      · rw [again, List.append_assoc]
        rfl
      · rw [held, List.append_assoc]
        rfl

/-- What the retry place offers leads, behind what was passed since, to a rest of the name that is
shorter than the present one. -/
theorem exists_of_offers (aligned : Aligned pattern name retry) (offers : Offers retry) :
    ∃ late, late <:+ name ∧ late.length < name.length ∧ Splits pattern late := by
  obtain _ | ⟨again, _ | ⟨d, shorter⟩⟩ := retry
  · exact offers.elim
  · exact offers.elim
  · obtain ⟨passed, taken, starless, level, rfl, held⟩ := aligned
    obtain ⟨tried, ⟨skipped, whole⟩, split⟩ := splits_star_iff.mp offers
    obtain ⟨early, late, rfl, same, split⟩ := exists_of_starless starless split
    -- both rests end the held name, and the offered one is shorter by what the star takes more
    have size := congrArg List.length held
    rw [← whole] at size
    simp only [List.length_cons, List.length_append] at size
    have ends : late <:+ taken ++ name := by
      rw [← held, ← whole]
      exact ⟨d :: (skipped ++ early), by simp⟩
    have below : late.length < name.length := by omega
    have inside : late <:+ name :=
      List.suffix_of_suffix_length_le ends (List.suffix_append taken name) below.le
    exact ⟨late, inside, below, split⟩

end Aligned

/-- The matcher accepts exactly when the rest of the name splits, or when the retry place offers a
split. -/
theorem run_iff {pattern name : List Char} {retry : Option Retry}
    (aligned : Aligned pattern name retry) :
    run pattern name retry = true ↔ Splits pattern name ∨ Offers retry := by
  fun_induction run pattern name retry with
  | case1 pattern retry =>
      have nothing : ¬ Offers retry := fun offers => by
        obtain ⟨late, _, below, _⟩ := aligned.exists_of_offers offers
        exact Nat.not_lt_zero _ below
      rw [← splits_nil_name_iff, or_iff_left nothing]
  | case2 retry c later rest ih =>
      -- the new star can take all that the star before it could have taken
      have covered (offers : Offers retry) : Splits ('*' :: rest) (c :: later) := by
        obtain ⟨late, ends, _, split⟩ := aligned.exists_of_offers offers
        obtain ⟨last, shorter, split⟩ := splits_star_iff.mp split
        exact splits_star_iff.mpr ⟨last, shorter.trans ends, split⟩
      rw [ih (.here rest (c :: later)), ← splits_star_iff_offers, or_iff_left_of_imp covered]
  | case3 retry c later pattern plain rest accepted ih =>
      obtain ⟨p, rfl, fitting⟩ := exists_of_accept? accepted
      have noStar : p ≠ '*' := fun star => plain rest (star ▸ rfl)
      rw [ih (aligned.advance noStar), splits_plain_iff noStar]
      simp [fitting]
  | case4 c later pattern plain refused again d shorter ih =>
      rw [ih (.here again shorter), ← splits_star_iff_offers,
        or_iff_right (not_splits_of_refused plain refused)]
      rfl
  | case5 retry c later pattern plain refused exhausted =>
      have nothing : ¬ Offers retry := by
        obtain _ | ⟨again, _ | ⟨d, shorter⟩⟩ := retry
        · exact id
        · exact id
        · exact fun _ => exhausted again d shorter rfl
      simp [not_splits_of_refused plain refused, nothing]

/-! ## Positions -/

/-- Where a matcher that counts positions stands: in the pattern and in the name, and the last star
with the position up to which it has taken the name. -/
structure Cursor where
  pattern : Nat
  name : Nat
  star : Option (Nat × Nat)

/-- What a turn of the matching over positions leads to. -/
inductive Turn where
  | answer (accepted : Bool)
  | next (cursor : Cursor)

namespace Cursor

def start : Cursor := ⟨0, 0, none⟩

/-- Goes back to the last star, which takes one character more. -/
def back (cursor : Cursor) : Turn :=
  match cursor.star with
  | some (star, taken) => .next ⟨star + 1, taken + 1, some (star, taken + 1)⟩
  | none => .answer false

/-- One turn of the matching over positions. -/
def turn (pattern name : List Char) (cursor : Cursor) : Turn :=
  match name[cursor.name]? with
  | none => .answer ((pattern.drop cursor.pattern).all (· == '*'))
  | some c =>
    match pattern[cursor.pattern]? with
    | none => cursor.back
    | some p =>
      if p = '*' then .next ⟨cursor.pattern + 1, cursor.name, some (cursor.pattern, cursor.name)⟩
      else if p = '?' ∨ p = c then .next ⟨cursor.pattern + 1, cursor.name + 1, cursor.star⟩
      else cursor.back

/-- Turns lead from one place to another. -/
def Leads (pattern name : List Char) : Cursor → Cursor → Prop :=
  Relation.ReflTransGen fun before after => turn pattern name before = .next after

/-- The positions are in the pattern and in the name, or just behind them. -/
structure InRange (pattern name : List Char) (cursor : Cursor) : Prop where
  inPattern : cursor.pattern ≤ pattern.length
  inName : cursor.name ≤ name.length
  ofStar : ∀ star taken, cursor.star = some (star, taken) →
    star < pattern.length ∧ taken ≤ cursor.name

section Turns

variable {pattern name : List Char} {cursor after : Cursor}

theorem exists_of_back (gone : cursor.back = .next after) :
    ∃ star taken, cursor.star = some (star, taken) ∧
      after = ⟨star + 1, taken + 1, some (star, taken + 1)⟩ := by
  rw [back] at gone
  split at gone
  · rename_i star taken held
    exact ⟨star, taken, held, (Turn.next.inj gone).symm⟩
  · cases gone

/-- A turn reads a character of the name. It passes a star, passes another character of the pattern
together with the one that it reads, or goes back. -/
theorem turn_cases (turned : turn pattern name cursor = .next after) :
    cursor.name < name.length ∧
      ((cursor.pattern < pattern.length ∧
          after = ⟨cursor.pattern + 1, cursor.name, some (cursor.pattern, cursor.name)⟩) ∨
        (cursor.pattern < pattern.length ∧
          after = ⟨cursor.pattern + 1, cursor.name + 1, cursor.star⟩) ∨
        ∃ star taken, cursor.star = some (star, taken) ∧
          after = ⟨star + 1, taken + 1, some (star, taken + 1)⟩) := by
  rw [turn] at turned
  split at turned
  · cases turned
  · rename_i c read
    refine ⟨(List.getElem?_eq_some_iff.mp read).1, ?_⟩
    split at turned
    · exact .inr (.inr (exists_of_back turned))
    · rename_i p ahead
      have inside := (List.getElem?_eq_some_iff.mp ahead).1
      split at turned
      · exact .inl ⟨inside, (Turn.next.inj turned).symm⟩
      · split at turned
        · exact .inr (.inl ⟨inside, (Turn.next.inj turned).symm⟩)
        · exact .inr (.inr (exists_of_back turned))

theorem InRange.turn (inRange : InRange pattern name cursor)
    (turned : turn pattern name cursor = .next after) : InRange pattern name after := by
  obtain ⟨read, ⟨inside, rfl⟩ | ⟨inside, rfl⟩ | ⟨star, taken, held, rfl⟩⟩ := turn_cases turned
  · refine ⟨inside, inRange.inName, ?_⟩
    rintro star taken ⟨⟩
    exact ⟨inside, Nat.le_refl _⟩
  · refine ⟨inside, read, ?_⟩
    intro star taken held
    obtain ⟨starInside, behind⟩ := inRange.ofStar star taken held
    exact ⟨starInside, Nat.le_succ_of_le behind⟩
  · obtain ⟨starInside, behind⟩ := inRange.ofStar star taken held
    refine ⟨starInside, Nat.lt_of_le_of_lt behind read, ?_⟩
    rintro star taken ⟨⟩
    exact ⟨starInside, Nat.le_refl _⟩

theorem InRange.leads (inRange : InRange pattern name cursor)
    (leads : Leads pattern name cursor after) : InRange pattern name after := by
  induction leads with
  | refl => exact inRange
  | tail _ turned ih => exact ih.turn turned

theorem inRange_start (pattern name : List Char) : InRange pattern name start := by
  refine ⟨Nat.zero_le _, Nat.zero_le _, ?_⟩
  rintro star taken ⟨⟩

/-- The retry place that the last star stands for. -/
def retry (pattern name : List Char) (cursor : Cursor) : Option Retry :=
  cursor.star.map fun place => ⟨pattern.drop (place.1 + 1), name.drop place.2⟩

theorem drop_succ_of_drop {text rest : List Char} {position : Nat} {c : Char}
    (here : text.drop position = c :: rest) : text.drop (position + 1) = rest := by
  rw [← List.tail_drop, here, List.tail_cons]

theorem turn_of_refused {c : Char} {ahead later : List Char}
    (ofName : name.drop cursor.name = c :: later) (ofPattern : pattern.drop cursor.pattern = ahead)
    (plain : ∀ rest, ahead ≠ '*' :: rest) (refused : accept? c ahead = none) :
    Cursor.turn pattern name cursor = cursor.back := by
  simp only [Cursor.turn, ← List.head?_drop, ofName, ofPattern, List.head?_cons]
  cases ahead with
  | nil => rfl
  | cons p rest =>
      have noStar : p ≠ '*' := fun star => plain rest (star ▸ rfl)
      simp only [List.head?_cons, if_neg noStar, if_neg (accept?_cons_eq_none_iff.mp refused)]

/-- The turns come to an end with the answer of the matcher for what is left. -/
theorem exists_answer (inRange : InRange pattern name cursor) {ahead later : List Char}
    {held : Option Retry} (ofPattern : pattern.drop cursor.pattern = ahead)
    (ofName : name.drop cursor.name = later) (ofStar : cursor.retry pattern name = held) :
    ∃ last, Leads pattern name cursor last ∧
      Cursor.turn pattern name last = .answer (run ahead later held) := by
  -- each call of the matcher is one turn, so its recursion shows that the turns end
  fun_induction run ahead later held generalizing cursor with
  | case1 ahead held =>
      refine ⟨cursor, .refl, ?_⟩
      simp only [Cursor.turn, ← List.head?_drop, ofName, List.head?_nil, ofPattern]
  | case2 held c later rest ih =>
      have turned : Cursor.turn pattern name cursor =
          .next ⟨cursor.pattern + 1, cursor.name, some (cursor.pattern, cursor.name)⟩ := by
        simp only [Cursor.turn, ← List.head?_drop, ofName, ofPattern, List.head?_cons, if_true]
      have behind := drop_succ_of_drop ofPattern
      have place : retry pattern name
          ⟨cursor.pattern + 1, cursor.name, some (cursor.pattern, cursor.name)⟩ =
            some ⟨rest, c :: later⟩ := by
        rw [retry, Option.map_some, behind, ofName]
      obtain ⟨last, leads, answered⟩ := ih (inRange.turn turned) behind ofName place
      exact ⟨last, .head turned leads, answered⟩
  | case3 held c later ahead plain rest accepted ih =>
      obtain ⟨p, rfl, fitting⟩ := exists_of_accept? accepted
      have noStar : p ≠ '*' := fun star => plain rest (star ▸ rfl)
      have turned : Cursor.turn pattern name cursor =
          .next ⟨cursor.pattern + 1, cursor.name + 1, cursor.star⟩ := by
        simp only [Cursor.turn, ← List.head?_drop, ofName, ofPattern, List.head?_cons,
          if_neg noStar, if_pos fitting]
      have behind := drop_succ_of_drop ofPattern
      have left := drop_succ_of_drop ofName
      obtain ⟨last, leads, answered⟩ := ih (inRange.turn turned) behind left ofStar
      exact ⟨last, .head turned leads, answered⟩
  | case4 c later ahead plain refused again d shorter ih =>
      obtain ⟨⟨star, taken⟩, held, place⟩ := Option.map_eq_some_iff.mp ofStar
      obtain ⟨behind, left⟩ := Retry.mk.inj place
      have turned : Cursor.turn pattern name cursor =
          .next ⟨star + 1, taken + 1, some (star, taken + 1)⟩ := by
        rw [turn_of_refused ofName ofPattern plain refused, back, held]
      have fewer := drop_succ_of_drop left
      have shown : retry pattern name ⟨star + 1, taken + 1, some (star, taken + 1)⟩ =
          some ⟨again, shorter⟩ := by
        rw [retry, Option.map_some, behind, fewer]
      obtain ⟨last, leads, answered⟩ := ih (inRange.turn turned) behind fewer shown
      exact ⟨last, .head turned leads, answered⟩
  | case5 held c later ahead plain refused exhausted =>
      refine ⟨cursor, .refl, ?_⟩
      rw [turn_of_refused ofName ofPattern plain refused, back]
      cases kept : cursor.star with
      | none => rfl
      | some place =>
          -- the star is not behind the present position, where the name has a character left
          obtain ⟨_, behind⟩ := inRange.ofStar place.1 place.2 kept
          have inside : cursor.name < name.length := by
            rw [← List.drop_eq_nil_iff.not.trans Nat.not_le, ofName]
            exact List.cons_ne_nil _ _
          have left := List.drop_eq_getElem_cons (Nat.lt_of_le_of_lt behind inside)
          rw [retry, kept, Option.map_some, left] at ofStar
          exact (exhausted _ _ _ ofStar.symm).elim

/-- Turns lead to one answer. -/
theorem answer_unique {first second : Cursor} {accepted other : Bool}
    (toFirst : Leads pattern name cursor first) (toSecond : Leads pattern name cursor second)
    (atFirst : Cursor.turn pattern name first = .answer accepted)
    (atSecond : Cursor.turn pattern name second = .answer other) : accepted = other := by
  have ends {last after : Cursor} {answer : Bool} (leads : Leads pattern name last after)
      (atLast : Cursor.turn pattern name last = .answer answer) : last = after := by
    obtain same | ⟨next, turned, _⟩ := leads.cases_head
    · exact same
    · cases atLast.symm.trans turned
  have unique : Relator.RightUnique fun before after =>
      Cursor.turn pattern name before = .next after :=
    fun _ _ _ left right => Turn.next.inj (left.symm.trans right)
  have same : first = second := by
    rcases toFirst.total_of_right_unique unique toSecond with leads | leads
    · exact ends leads atFirst
    · exact (ends leads atSecond).symm
  subst same
  exact Turn.answer.inj (atFirst.symm.trans atSecond)

end Turns

end Cursor

/-- Matching is exact: a name fits a pattern if and only if it falls into pieces, one for each
character of the pattern, and so if and only if the plain matcher accepts it. Counting positions,
the matching comes to an end with this answer. No position ever goes beyond the end of its text, and
for what is left behind the positions the answer is always the same. -/
theorem fits_exact (pattern name : String) :
    (fits pattern name = true ↔ Splits pattern.toList name.toList) ∧
      fits pattern name = naive pattern.toList name.toList ∧
      (∃ last, Cursor.Leads pattern.toList name.toList .start last ∧
        last.turn pattern.toList name.toList = .answer (fits pattern name)) ∧
      ∀ cursor, Cursor.Leads pattern.toList name.toList .start cursor →
        cursor.pattern ≤ pattern.toList.length ∧ cursor.name ≤ name.toList.length ∧
        run (pattern.toList.drop cursor.pattern) (name.toList.drop cursor.name)
          (cursor.retry pattern.toList name.toList) = fits pattern name := by
  have exact : fits pattern name = true ↔ Splits pattern.toList name.toList := by
    have aligned : Aligned pattern.toList name.toList none := trivial
    rw [fits, run_iff aligned]
    exact or_iff_left id
  have inRange := Cursor.inRange_start pattern.toList name.toList
  obtain ⟨last, leadsLast, answered⟩ := Cursor.exists_answer inRange rfl rfl rfl
  refine ⟨exact, ?_, ⟨last, leadsLast, answered⟩, ?_⟩
  · rw [Bool.eq_iff_iff, exact, naive_iff]
  · intro cursor leads
    have reached := inRange.leads leads
    obtain ⟨final, leadsFinal, finalAnswer⟩ := Cursor.exists_answer reached rfl rfl rfl
    exact ⟨reached.inPattern, reached.inName,
      Cursor.answer_unique (leads.trans leadsFinal) leadsLast finalAnswer answered⟩

end GlobalAudit.Text.Wildcard
