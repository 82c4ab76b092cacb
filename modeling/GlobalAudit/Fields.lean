/-! Names and what is kept under them. Named entries are in order of first arrival: putting a value
under a name that is present replaces the value in its place, and a new name goes to the end. -/
namespace GlobalAudit

abbrev Fields (α : Type) := List (String × α)

namespace Fields

variable {α : Type}

def get? (name : String) : Fields α → Option α
  | [] => none
  | (key, value) :: rest => if key = name then some value else get? name rest

def put (name : String) (value : α) : Fields α → Fields α
  | [] => [(name, value)]
  | (key, old) :: rest =>
    if key = name then (key, value) :: rest else (key, old) :: put name value rest

/-- A name that is present keeps its value. -/
def putNew (name : String) (value : α) (fields : Fields α) : Fields α :=
  if (get? name fields).isSome then fields else fields ++ [(name, value)]

/-- Entries put one after the other. -/
def ofList (entries : List (String × α)) : Fields α :=
  entries.foldl (fun fields (name, value) => put name value fields) []

def names (fields : Fields α) : List String := fields.map Prod.fst

/-- No name occurs twice. -/
def Distinct (fields : Fields α) : Prop := (names fields).Nodup

@[simp] theorem get?_put_self (name : String) (value : α) (fields : Fields α) :
    get? name (put name value fields) = some value := by
  induction fields with
  | nil => simp [put, get?]
  | cons entry rest ih =>
    by_cases same : entry.1 = name
    · simp [put, get?, same]
    · simp [put, get?, same, ih]

theorem get?_put_of_ne {name other : String} (differ : other ≠ name) (value : α)
    (fields : Fields α) : get? other (put name value fields) = get? other fields := by
  induction fields with
  | nil => simp [put, get?, Ne.symm differ]
  | cons entry rest ih =>
    by_cases same : entry.1 = name
    · simp [put, get?, same, Ne.symm differ]
    · by_cases hit : entry.1 = other
      · simp [put, get?, hit, differ]
      · simp [put, get?, same, hit, ih]

theorem get?_eq_none_iff (name : String) (fields : Fields α) :
    get? name fields = none ↔ name ∉ names fields := by
  induction fields with
  | nil => simp [get?, names]
  | cons entry rest ih =>
    by_cases same : entry.1 = name
    · simp [get?, names, same]
    · have step : name ≠ entry.1 := fun h => same h.symm
      simp only [get?, same, if_false, ih]
      simp [names, step]

/-- Names that are present keep their places, and a new one is last. -/
theorem names_put (name : String) (value : α) (fields : Fields α) :
    names (put name value fields) =
      if name ∈ names fields then names fields else names fields ++ [name] := by
  induction fields with
  | nil => simp [put, names]
  | cons entry rest ih =>
    by_cases same : entry.1 = name
    · simp [put, names, same]
    · have step : name ≠ entry.1 := fun h => same h.symm
      have tail : names (put name value (entry :: rest)) =
          entry.1 :: names (put name value rest) := by
        simp [put, same, names]
      rw [tail, ih]
      by_cases present : name ∈ names rest
      · have whole : name ∈ names (entry :: rest) := List.mem_cons_of_mem _ present
        rw [if_pos present, if_pos whole]
        rfl
      · have whole : name ∉ names (entry :: rest) := by
          intro found
          rcases List.mem_cons.1 found with here | later
          · exact step here
          · exact present later
        rw [if_neg present, if_neg whole]
        rfl

theorem Distinct.put {fields : Fields α} (distinct : Distinct fields) (name : String) (value : α) :
    Distinct (put name value fields) := by
  unfold Distinct at *
  rw [names_put]
  by_cases present : name ∈ names fields
  · rwa [if_pos present]
  · rw [if_neg present, List.nodup_append]
    refine ⟨distinct, by simp, ?_⟩
    intro left inFields right inNew same
    simp only [List.mem_singleton] at inNew
    subst inNew same
    exact present inFields

end Fields

/-! ## Dotted names

A name such as `socket.http` stands for the list of its segments; its root is the first of them. Every
string is a dotted name, and empty segments count. -/

namespace Dotted

def segments (name : String) : List String := (name.toList.splitOn '.').map String.ofList

/-- Whether there is more than one segment. -/
def isDotted (name : String) : Bool := name.toList.contains '.'

/-- The first segment. -/
def root (name : String) : String := String.ofList (name.toList.takeWhile (· != '.'))

/-- A field of what `name` names. -/
def extend (name field : String) : String := name ++ "." ++ field

end Dotted

end GlobalAudit
