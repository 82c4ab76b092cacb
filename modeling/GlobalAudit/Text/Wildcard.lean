/-! Wildcard patterns for file names: a star stands for any run of characters, a question mark for
exactly one, and every other character for itself. The matcher keeps one place to go back to, the
last star it passed, because a later star can make up for whatever an earlier one would take. -/
namespace GlobalAudit.Text.Wildcard

/-- Where to resume on a mismatch: the pattern behind the last star, and the name from the first
character that this star has not taken. -/
structure Retry where
  pattern : List Char
  name : List Char

/-- How much of the name the retry place can still give up. -/
def reach : Option Retry → Nat
  | none => 0
  | some retry => retry.name.length

/-- The pattern behind its first character, when that character stands for `c`. -/
def accept? (c : Char) : List Char → Option (List Char)
  | [] => none
  | p :: rest => if p = '?' ∨ p = c then some rest else none

theorem length_of_accept? {c : Char} {pattern rest : List Char}
    (h : accept? c pattern = some rest) : rest.length < pattern.length := by
  cases pattern with
  | nil => simp [accept?] at h
  | cons p tail =>
    rw [accept?] at h
    split at h
    · cases h
      simp
    · cases h

def run (pattern name : List Char) (retry : Option Retry) : Bool :=
  match name with
  | [] => pattern.all (· == '*')
  | c :: later =>
    match pattern with
    | '*' :: rest => run rest (c :: later) (some ⟨rest, c :: later⟩)
    | plain =>
      match _accepted : accept? c plain with
      | some rest => run rest later retry
      | none =>
        match retry with
        | some ⟨again, _ :: shorter⟩ => run again shorter (some ⟨again, shorter⟩)
        | _ => false
termination_by (max (reach retry) name.length, pattern.length)
decreasing_by
  · simp only [Prod.lex_def, reach, List.length_cons]
    omega
  · have := length_of_accept? _accepted
    simp only [Prod.lex_def, List.length_cons]
    omega
  · simp only [Prod.lex_def, reach, List.length_cons]
    omega

/-- Whether the whole name fits the pattern. -/
def fits (pattern name : String) : Bool := run pattern.toList name.toList none

/-- Whether a name asks for matching at all. -/
def isPattern (name : String) : Bool := name.toList.any fun c => c == '*' || c == '?'

end GlobalAudit.Text.Wildcard
