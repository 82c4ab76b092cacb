import GlobalAudit.Catalog.Basic
import GlobalAudit.Proofs.Dotted

/-! Putting a shape at the end of a path. Seen from a level above its end, this is the same with the
rest of the path, in the fields of that level; below a fork in the path nothing changes. -/
namespace GlobalAudit

namespace Fields

variable {α : Type}

/-- Fields before and after one of them is updated: the others stay as they are where they are, and
the one that is updated is the last if it is new. -/
structure UpdatedAt (name : String) (before after : Fields α) : Prop where
  kept : ∀ (position : Nat) (entry : String × α), before[position]? = some entry →
    entry.1 ≠ name → after[position]? = some entry
  order : names after = if name ∈ names before then names before else names before ++ [name]

theorem getElem?_put_of_ne {name : String} {fields : Fields α} {position : Nat}
    {entry : String × α} (found : fields[position]? = some entry) (differ : entry.1 ≠ name)
    (value : α) : (put name value fields)[position]? = some entry := by
  induction fields generalizing position with
  | nil => cases found
  | cons first rest ih =>
      rw [put]
      cases position with
      | zero =>
          cases found
          rw [if_neg differ]
          rfl
      | succ position =>
          by_cases same : first.1 = name
          · rw [if_pos same]
            exact found
          · rw [if_neg same]
            exact ih found

theorem updatedAt_put (name : String) (value : α) (fields : Fields α) :
    UpdatedAt name fields (put name value fields) :=
  ⟨fun _ _ found differ => getElem?_put_of_ne found differ value, names_put name value fields⟩

end Fields

namespace Shape

/-! ## Levels -/

theorem follow?_append (front rest : List String) (shape : Shape) :
    shape.follow? (front ++ rest) = (shape.follow? front).bind (follow? rest) := by
  induction front generalizing shape with
  | nil => rfl
  | cons name front ih =>
      rw [List.cons_append, follow?, follow?, Option.bind_assoc]
      exact congrArg _ (funext ih)

/-- The fields where a path leads, none where no table is. -/
def fieldsAt (path : List String) (shape : Shape) : Fields Shape :=
  (shape.follow? path).elim [] fields

theorem fieldsAt_cons (name : String) (path : List String) (fields : Fields Shape) :
    (table fields).fieldsAt (name :: path) = (table (fieldsUnder name fields)).fieldsAt path := by
  have nothing (shape : Shape) (bare : shape.fields = []) (closed : ∀ label, shape.field? label = none) :
      shape.fieldsAt path = (table []).fieldsAt path := by
    cases path with
    | nil => exact bare
    | cons label rest =>
        rw [fieldsAt, follow?, closed]
        rfl
  rw [fieldsAt, follow?, field?, fieldsUnder]
  cases Fields.get? name fields with
  | none => cases path <;> rfl
  | some shape =>
      cases shape with
      | table inner => rfl
      | scalar kind => exact nothing (scalar kind) rfl fun _ => rfl
      | own => exact nothing own rfl fun _ => rfl

/-- A path goes on through the fields where its front leads. -/
theorem follow?_append_cons (front : List String) (name : String) (rest : List String)
    (shape : Shape) :
    shape.follow? (front ++ name :: rest) =
      (table (shape.fieldsAt front)).follow? (name :: rest) := by
  rw [follow?_append, fieldsAt]
  cases shape.follow? front with
  | none => rfl
  | some reached => cases reached <;> rfl

/-! ## Updates -/

variable (shape : Shape)

/-- At each level of the path one field is updated. -/
theorem exists_putAt_cons (name : String) (rest : List String) (fields : Fields Shape) :
    ∃ value, putAt shape (name :: rest) fields = Fields.put name value fields := by
  cases rest with
  | nil => exact ⟨_, rfl⟩
  | cons next rest => exact ⟨_, rfl⟩

/-- A level above the end of the path is a table whose fields are updated along the rest of the
path. The tables on the way are made where there are none. -/
theorem follow?_putAt_above (above : List String) (next : String) (rest : List String)
    (fields : Fields Shape) :
    (table (putAt shape (above ++ next :: rest) fields)).follow? above =
      some (table (putAt shape (next :: rest) ((table fields).fieldsAt above))) := by
  induction above generalizing fields with
  | nil => rfl
  | cons name above ih =>
      have level : putAt shape (name :: (above ++ next :: rest)) fields =
          Fields.put name (table (putAt shape (above ++ next :: rest) (fieldsUnder name fields)))
            fields := by
        rw [putAt]
        simp
      rw [List.cons_append, level, follow?, field?, Fields.get?_put_self, Option.bind_some, ih,
        fieldsAt_cons]

/-- A level above the end of the path keeps the order of its fields, with the next name on the path
behind them if it is new. -/
theorem names_putAt_above (above : List String) (next : String) (rest : List String)
    (fields : Fields Shape) :
    Fields.names ((table (putAt shape (above ++ next :: rest) fields)).fieldsAt above) =
      if next ∈ Fields.names ((table fields).fieldsAt above)
      then Fields.names ((table fields).fieldsAt above)
      else Fields.names ((table fields).fieldsAt above) ++ [next] := by
  obtain ⟨value, updated⟩ := exists_putAt_cons shape next rest ((table fields).fieldsAt above)
  rw [fieldsAt, follow?_putAt_above, updated]
  exact Fields.names_put next value _

/-- At the end of the path is the shape, so what is below belongs to the shape. -/
theorem follow?_putAt_below {path : List String} (proper : path ≠ []) (rest : List String)
    (fields : Fields Shape) :
    (table (putAt shape path fields)).follow? (path ++ rest) = shape.follow? rest := by
  obtain ⟨above, last, rfl⟩ := (List.eq_nil_or_concat path).resolve_left proper
  rw [List.concat_eq_append, List.append_assoc, List.singleton_append, follow?_append,
    follow?_putAt_above, Option.bind_some, putAt, follow?, field?, Fields.get?_put_self,
    Option.bind_some]

/-- Two paths of which neither starts with the other fork somewhere. -/
theorem exists_fork {first second : List String} (notFirst : ¬ first <+: second)
    (notSecond : ¬ second <+: first) :
    ∃ common left right leftRest rightRest, left ≠ right ∧
      first = common ++ left :: leftRest ∧ second = common ++ right :: rightRest := by
  induction first generalizing second with
  | nil => exact absurd List.nil_prefix notFirst
  | cons left leftRest ih =>
      cases second with
      | nil => exact absurd List.nil_prefix notSecond
      | cons right rightRest =>
          by_cases same : left = right
          · subst same
            rw [List.cons_prefix_cons, not_and] at notFirst notSecond
            obtain ⟨common, left', right', leftRest', rightRest', differ, rfl, rfl⟩ :=
              ih (notFirst rfl) (notSecond rfl)
            exact ⟨left :: common, left', right', leftRest', rightRest', differ, rfl, rfl⟩
          · exact ⟨[], left, right, leftRest, rightRest, same, rfl, rfl⟩

/-- Beyond a fork nothing changes. -/
theorem follow?_putAt_of_fork {path other : List String} (notPath : ¬ path <+: other)
    (notOther : ¬ other <+: path) (fields : Fields Shape) :
    (table (putAt shape path fields)).follow? other = (table fields).follow? other := by
  obtain ⟨common, left, right, leftRest, rightRest, differ, rfl, rfl⟩ :=
    exists_fork notPath notOther
  obtain ⟨value, updated⟩ := exists_putAt_cons shape left leftRest ((table fields).fieldsAt common)
  calc (table (putAt shape (common ++ left :: leftRest) fields)).follow?
          (common ++ right :: rightRest)
      = (table (Fields.put left value ((table fields).fieldsAt common))).follow?
          (right :: rightRest) := by
        rw [follow?_append, follow?_putAt_above, Option.bind_some, updated]
    _ = (table ((table fields).fieldsAt common)).follow? (right :: rightRest) := by
        rw [follow?, follow?, field?, field?, Fields.get?_put_of_ne differ.symm]
    _ = (table fields).follow? (common ++ right :: rightRest) :=
        (follow?_append_cons common right rightRest _).symm

end Shape

namespace Catalog

/-- The update at one level of a path, in a catalog. -/
theorem exists_insertPath_above (catalog : Catalog) {path : String} (shape : Shape)
    {above : List String} {next : String} {rest : List String}
    (split : Dotted.segments path = above ++ next :: rest) :
    ∃ after, (Shape.table (catalog.insertPath path shape).globals).follow? above =
        some (.table after) ∧
      Fields.UpdatedAt next ((Shape.table catalog.globals).fieldsAt above) after := by
  obtain ⟨value, updated⟩ := Shape.exists_putAt_cons shape next rest
    ((Shape.table catalog.globals).fieldsAt above)
  refine ⟨_, ?_, updated ▸ Fields.updatedAt_put next value _⟩
  rw [insertPath, Shape.putPath, split, Shape.follow?_putAt_above]

/-- Inserting under a dotted name, and what another dotted name leads to afterwards. The name itself
leads to the shape and names below it into the shape. A name above it leads to a table, with the
fields that the table had in their places; all other names lead where they did. -/
theorem insertPath_lawful (catalog : Catalog) (path other : String) (shape : Shape) :
    (catalog.insertPath path shape).find? path = some shape ∧
      (∀ rest, Dotted.segments other = Dotted.segments path ++ rest →
        (catalog.insertPath path shape).find? other = shape.follow? rest) ∧
      (∀ next rest, Dotted.segments path = Dotted.segments other ++ next :: rest →
        ∃ after, (catalog.insertPath path shape).find? other = some (.table after) ∧
          ∀ before, catalog.find? other = some (.table before) →
            Fields.UpdatedAt next before after) ∧
      (¬ Dotted.segments path <+: Dotted.segments other →
        ¬ Dotted.segments other <+: Dotted.segments path →
        (catalog.insertPath path shape).find? other = catalog.find? other) ∧
      ∀ above next rest, Dotted.segments path = above ++ next :: rest →
        ∃ after, (Shape.table (catalog.insertPath path shape).globals).follow? above =
            some (.table after) ∧
          Fields.UpdatedAt next ((Shape.table catalog.globals).fieldsAt above) after := by
  have proper : Dotted.segments path ≠ [] := by
    obtain ⟨rest, split⟩ := Dotted.segments_eq_root_cons path
    rw [split]
    exact List.cons_ne_nil _ _
  refine ⟨?_, ?_, ?_, ?_, ?_⟩
  · have atEnd := Shape.follow?_putAt_below shape proper [] catalog.globals
    rwa [List.append_nil] at atEnd
  · intro rest split
    rw [find?, split]
    exact Shape.follow?_putAt_below shape proper rest catalog.globals
  · intro next rest split
    obtain ⟨after, reached, updated⟩ := catalog.exists_insertPath_above shape split
    refine ⟨after, reached, ?_⟩
    intro before found
    rw [find?] at found
    rwa [Shape.fieldsAt, found] at updated
  · exact fun notPath notOther => Shape.follow?_putAt_of_fork shape notPath notOther catalog.globals
  · exact fun above next rest split => catalog.exists_insertPath_above shape split

/-- A library whose second field is no table. -/
def library : Catalog :=
  ⟨[("lib", .table [("open", .scalar .function), ("io", .scalar .any), ("path", .scalar .string)])]⟩

/-- A table takes the place of that field, between the two that stay. -/
theorem insertPath_lawful_library :
    (library.insertPath "lib.io.file" (.table [("size", .scalar .number)])).find? "lib.io.file" =
        some (.table [("size", .scalar .number)]) ∧
      (library.insertPath "lib.io.file" (.table [("size", .scalar .number)])).find?
          "lib.io.file.size" = some (.scalar .number) ∧
      (∃ after, (library.insertPath "lib.io.file" (.table [("size", .scalar .number)])).find? "lib" =
          some (.table after) ∧
        Fields.UpdatedAt "io"
          [("open", .scalar .function), ("io", .scalar .any), ("path", .scalar .string)] after) ∧
      (library.insertPath "lib.io.file" (.table [("size", .scalar .number)])).find? "lib.path" =
        some (.scalar .string) := by
  have laws (other : String) :=
    insertPath_lawful library "lib.io.file" other (.table [("size", .scalar .number)])
  obtain ⟨here, below, _⟩ := laws "lib.io.file.size"
  obtain ⟨_, _, above, _⟩ := laws "lib"
  obtain ⟨_, _, _, apart, _⟩ := laws "lib.path"
  refine ⟨here, below ["size"] (by decide), ?_, apart (by decide) (by decide)⟩
  obtain ⟨after, reached, updated⟩ := above "io" ["file"] (by decide)
  exact ⟨after, reached, updated _ rfl⟩

end Catalog

end GlobalAudit
