import GlobalAudit.Proofs.PathUpdate
import GlobalAudit.Visibility

/-! What becomes of a dotted name. Its first segment is bound in a layer or in the catalog, and the
others lead on through tables, as far as there are fields for them. A name of which nothing is known
behind a table is only undefined if more than its last segment is missing; what is reported then is
the part of the name up to the first segment that is missing. -/
namespace GlobalAudit

namespace Visibility

/-! ## Bindings -/

/-- A name is bound in the innermost layer that has it, or in the catalog if none has it. No barrier
lies further in. -/
inductive Binds (scope : Visibility) (name : String) (shape : Shape) : Prop where
  | layer (inner : List Layer) (layer : Layer) (outer : List Layer)
      (order : scope.layers = inner ++ layer :: outer)
      (clear : ∀ other ∈ inner, other.barrier = false ∧ Fields.get? name other.entries = none)
      (here : Fields.get? name layer.entries = some shape)
  | base (clear : ∀ other ∈ scope.layers,
        other.barrier = false ∧ Fields.get? name other.entries = none)
      (here : scope.base.get? name = some shape)

theorem binds_cons_iff {base : Catalog} {first : Layer} {outer : List Layer} {name : String}
    {shape : Shape} :
    Binds ⟨base, first :: outer⟩ name shape ↔
      Fields.get? name first.entries = some shape ∨
        (first.barrier = false ∧ Fields.get? name first.entries = none) ∧
          Binds ⟨base, outer⟩ name shape := by
  constructor
  · rintro (⟨inner, layer, later, order, clear, here⟩ | ⟨clear, here⟩)
    · cases inner with
      | nil =>
          obtain ⟨rfl, _⟩ := List.cons.inj order
          exact .inl here
      | cons other inner =>
          obtain ⟨rfl, rest⟩ := List.cons.inj order
          obtain ⟨open', clear⟩ := List.forall_mem_cons.mp clear
          exact .inr ⟨open', .layer inner layer later rest clear here⟩
    · obtain ⟨open', clear⟩ := List.forall_mem_cons.mp clear
      exact .inr ⟨open', .base clear here⟩
  · rintro (here | ⟨open', ⟨inner, layer, later, order, clear, here⟩ | ⟨clear, here⟩⟩)
    · refine .layer [] first outer rfl ?_ here
      intro other member
      cases member
    · exact .layer (first :: inner) layer later (congrArg _ order)
        (List.forall_mem_cons.mpr ⟨open', clear⟩) here
    · exact .base (List.forall_mem_cons.mpr ⟨open', clear⟩) here

/-- Looking a name up finds its binding. -/
theorem lookup_eq_some_iff (scope : Visibility) (name : String) (shape : Shape) :
    scope.lookup name = some shape ↔ scope.Binds name shape := by
  obtain ⟨base, layers⟩ := scope
  rw [lookup]
  induction layers with
  | nil =>
      constructor
      · refine .base ?_
        intro other member
        cases member
      · rintro (⟨inner, layer, outer, order, _, _⟩ | ⟨_, here⟩)
        · exact absurd order.symm (by simp)
        · exact here
  | cons first outer ih =>
      rw [binds_cons_iff, ← ih, lookupIn]
      cases Fields.get? name first.entries with
      | some found => simp
      | none => cases first.barrier <;> simp

theorem lookup_eq_none_iff (scope : Visibility) (name : String) :
    scope.lookup name = none ↔ ∀ shape, ¬ scope.Binds name shape := by
  rw [Option.eq_none_iff_forall_ne_some]
  exact forall_congr' fun shape => not_congr (scope.lookup_eq_some_iff name shape)

end Visibility

namespace Shape

/-! ## Following the segments -/

theorem resolve_of_field? {shape inner : Shape} {segment : String}
    (found : shape.field? segment = some inner) (walked : String) (rest : List String) :
    shape.resolve walked (segment :: rest) =
      inner.resolve (Dotted.extend walked segment) rest := by
  cases shape with
  | table fields =>
      have here : Fields.get? segment fields = some inner := found
      rw [resolve, here]
  | scalar kind => cases found
  | own => cases found

/-- Resolving goes on where the first segments lead. -/
theorem resolve_append {shape inner : Shape} {front : List String}
    (reached : shape.follow? front = some inner) (walked : String) (rest : List String) :
    shape.resolve walked (front ++ rest) = inner.resolve (front.foldl Dotted.extend walked) rest := by
  induction front generalizing shape walked with
  | nil =>
      cases reached
      rfl
  | cons segment front ih =>
      obtain ⟨next, found, reached⟩ := Option.bind_eq_some_iff.mp reached
      rw [List.cons_append, resolve_of_field? found, ih reached]
      rfl

/-- A shape at which a path may stop: it is no table, or it is a table without a field for the
segment that is left. -/
def Stops (shape : Shape) (segment : String) (behind : List String) : Prop :=
  (∀ fields, shape ≠ .table fields) ∨ (shape.field? segment = none ∧ behind = [])

theorem resolve_of_follow? {shape inner : Shape} {path : List String}
    (reached : shape.follow? path = some inner) (walked : String) :
    shape.resolve walked path = .defined inner := by
  have whole := resolve_append reached walked []
  rwa [List.append_nil, resolve] at whole

theorem resolve_of_stops {shape inner : Shape} {front behind : List String} {segment : String}
    (reached : shape.follow? front = some inner) (stops : inner.Stops segment behind)
    (walked : String) : shape.resolve walked (front ++ segment :: behind) = .beyond inner := by
  rw [resolve_append reached]
  cases inner with
  | table fields =>
      rcases stops with plain | ⟨absent, rfl⟩
      · exact absurd rfl (plain fields)
      · have missing : Fields.get? segment fields = none := absent
        rw [resolve, missing]
        rfl
  | scalar kind => rfl
  | own => rfl

theorem resolve_of_missing {shape : Shape} {front behind : List String} {segment : String}
    {fields : Fields Shape} (reached : shape.follow? front = some (.table fields))
    (missing : Fields.get? segment fields = none) (more : behind ≠ []) (walked : String) :
    shape.resolve walked (front ++ segment :: behind) =
      .undefined ((front ++ [segment]).foldl Dotted.extend walked) := by
  have unfinished : ¬ behind.isEmpty = true := fun ended => more (List.isEmpty_iff.mp ended)
  rw [resolve_append reached, resolve, missing]
  simp only [if_neg unfinished, List.foldl_append, List.foldl_cons, List.foldl_nil]

/-- A path that does not lead to its end leads to a shape without a field for the next segment. -/
theorem exists_of_follow?_eq_none {shape : Shape} {path : List String}
    (lost : shape.follow? path = none) :
    ∃ front segment behind inner, path = front ++ segment :: behind ∧
      shape.follow? front = some inner ∧ inner.field? segment = none := by
  induction path generalizing shape with
  | nil => cases lost
  | cons segment rest ih =>
      cases found : shape.field? segment with
      | none => exact ⟨[], segment, rest, shape, rfl, rfl, found⟩
      | some next =>
          rw [follow?, found, Option.bind_some] at lost
          obtain ⟨front, last, behind, inner, rfl, reached, absent⟩ := ih lost
          refine ⟨segment :: front, last, behind, inner, rfl, ?_, absent⟩
          rw [follow?, found, Option.bind_some, reached]

/-- What lies on the way to something is a table. -/
theorem exists_table_of_follow? {shape inner : Shape} {segment : String} {rest : List String}
    (reached : shape.follow? (segment :: rest) = some inner) : ∃ fields, shape = .table fields := by
  cases shape with
  | table fields => exact ⟨fields, rfl⟩
  | scalar kind => cases reached
  | own => cases reached

end Shape

namespace Dotted

/-- The number of bytes of segments and the dots between them, added up from the left. -/
def offset : List String → Nat
  | [] => 0
  | first :: rest =>
    rest.foldl (fun walked segment => walked + (1 + segment.utf8ByteSize)) first.utf8ByteSize

theorem utf8ByteSize_intercalate (path : List String) :
    (".".intercalate path).utf8ByteSize = offset path := by
  cases path with
  | nil => rfl
  | cons first rest =>
      rw [intercalate_cons, offset]
      induction rest generalizing first with
      | nil => rfl
      | cons second rest ih =>
          have size : (extend first second).utf8ByteSize =
              first.utf8ByteSize + (1 + second.utf8ByteSize) := by
            rw [extend, String.utf8ByteSize_append, String.utf8ByteSize_append, Nat.add_assoc]
            rfl
          rw [List.foldl_cons, ih, size]
          rfl

/-- The first segments of a name, joined, start the name. -/
theorem exists_append_of_segments {name : String} {taken behind : List String}
    (split : segments name = taken ++ behind) (proper : taken ≠ []) :
    ∃ text, name = ".".intercalate taken ++ text := by
  by_cases ended : behind = []
  · refine ⟨"", ?_⟩
    rw [← intercalate_segments name, split, ended, List.append_nil, String.append_empty]
  · refine ⟨"." ++ ".".intercalate behind, ?_⟩
    rw [← intercalate_segments name, split, String.intercalate_append_of_ne_nil proper ended,
      String.append_assoc]

end Dotted

namespace Visibility

/-! ## Outcomes -/

/-- A first segment and those behind it lead to a shape, through tables from the binding of the
first. -/
def Reaches (scope : Visibility) (root : String) (front : List String) (shape : Shape) : Prop :=
  ∃ start, scope.Binds root start ∧ start.follow? front = some shape

/-- The outcome for a name with these segments. -/
inductive Resolves (scope : Visibility) (root : String) (rest : List String) : Resolution → Prop where
  | unbound (absent : ∀ shape, ¬ scope.Binds root shape) : Resolves scope root rest (.undefined root)
  | defined {shape : Shape} (reached : scope.Reaches root rest shape) :
      Resolves scope root rest (.defined shape)
  | beyond {shape : Shape} {front behind : List String} {segment : String}
      (split : rest = front ++ segment :: behind) (reached : scope.Reaches root front shape)
      (stops : shape.Stops segment behind) : Resolves scope root rest (.beyond shape)
  | undefined {fields : Fields Shape} {front behind : List String} {segment : String}
      (split : rest = front ++ segment :: behind) (more : behind ≠ [])
      (reached : scope.Reaches root front (.table fields))
      (missing : Fields.get? segment fields = none) :
      Resolves scope root rest (.undefined (".".intercalate (root :: (front ++ [segment]))))

variable {scope : Visibility} {name root : String} {rest : List String}

theorem resolve_of_binds {start : Shape} (path : Dotted.segments name = root :: rest)
    (binds : scope.Binds root start) : scope.resolve name = start.resolve root rest := by
  have bound : scope.lookup root = some start := (scope.lookup_eq_some_iff root start).mpr binds
  simp only [resolve, path, bound]

theorem resolves_resolve (path : Dotted.segments name = root :: rest) :
    scope.Resolves root rest (scope.resolve name) := by
  cases bound : scope.lookup root with
  | none =>
      simp only [resolve, path, bound]
      exact .unbound ((scope.lookup_eq_none_iff root).mp bound)
  | some start =>
      have binds : scope.Binds root start := (scope.lookup_eq_some_iff root start).mp bound
      rw [resolve_of_binds path binds]
      cases reached : start.follow? rest with
      | some shape =>
          rw [Shape.resolve_of_follow? reached]
          exact .defined ⟨start, binds, reached⟩
      | none =>
          obtain ⟨front, segment, behind, inner, rfl, reached, absent⟩ :=
            Shape.exists_of_follow?_eq_none reached
          by_cases stops : inner.Stops segment behind
          · rw [Shape.resolve_of_stops reached stops]
            exact .beyond rfl ⟨start, binds, reached⟩ stops
          · obtain ⟨tabular, unfinished⟩ := not_or.mp stops
            obtain ⟨fields, rfl⟩ : ∃ fields, inner = .table fields := by simpa using tabular
            have more : behind ≠ [] := fun ended => unfinished ⟨absent, ended⟩
            rw [Shape.resolve_of_missing reached absent more, ← Dotted.intercalate_cons]
            exact .undefined rfl more ⟨start, binds, reached⟩ absent

/-- A name is resolved to its outcome and to nothing else. -/
theorem resolve_eq_iff (path : Dotted.segments name = root :: rest) (outcome : Resolution) :
    scope.resolve name = outcome ↔ scope.Resolves root rest outcome := by
  constructor
  · rintro rfl
    exact resolves_resolve path
  · intro resolves
    cases resolves with
    | unbound absent =>
        simp only [resolve, path, (scope.lookup_eq_none_iff root).mpr absent]
    | defined reached =>
        obtain ⟨start, binds, reached⟩ := reached
        rw [resolve_of_binds path binds, Shape.resolve_of_follow? reached]
    | beyond split reached stops =>
        obtain ⟨start, binds, reached⟩ := reached
        rw [resolve_of_binds path binds, split, Shape.resolve_of_stops reached stops]
    | undefined split more reached missing =>
        obtain ⟨start, binds, reached⟩ := reached
        rw [resolve_of_binds path binds, split, Shape.resolve_of_missing reached missing more,
          Dotted.intercalate_cons]

theorem resolve_eq_defined_iff (path : Dotted.segments name = root :: rest) (shape : Shape) :
    scope.resolve name = .defined shape ↔ scope.Reaches root rest shape := by
  rw [resolve_eq_iff path]
  constructor
  · rintro ⟨⟩
    assumption
  · exact .defined

theorem resolve_eq_defined_iff_lookup (path : Dotted.segments name = root :: rest) (shape : Shape) :
    scope.resolve name = .defined shape ↔
      ∃ start, scope.lookup root = some start ∧ start.follow? rest = some shape := by
  rw [resolve_eq_defined_iff path]
  exact exists_congr fun start => and_congr_left fun _ => (scope.lookup_eq_some_iff root start).symm

theorem resolve_eq_beyond_iff (path : Dotted.segments name = root :: rest) (shape : Shape) :
    scope.resolve name = .beyond shape ↔
      ∃ front segment behind, rest = front ++ segment :: behind ∧ scope.Reaches root front shape ∧
        shape.Stops segment behind := by
  rw [resolve_eq_iff path]
  constructor
  · rintro (_ | _ | ⟨split, reached, stops⟩ | _)
    exact ⟨_, _, _, split, reached, stops⟩
  · rintro ⟨front, segment, behind, split, reached, stops⟩
    exact .beyond split reached stops

theorem resolve_eq_undefined_iff (path : Dotted.segments name = root :: rest) (missing : String) :
    scope.resolve name = .undefined missing ↔
      (missing = root ∧ ∀ shape, ¬ scope.Binds root shape) ∨
        ∃ front segment behind fields, missing = ".".intercalate (root :: (front ++ [segment])) ∧
          rest = front ++ segment :: behind ∧ behind ≠ [] ∧
          scope.Reaches root front (.table fields) ∧ Fields.get? segment fields = none := by
  rw [resolve_eq_iff path]
  constructor
  · rintro (absent | _ | _ | ⟨split, more, reached, absent⟩)
    · exact .inl ⟨rfl, absent⟩
    · exact .inr ⟨_, _, _, _, rfl, split, more, reached, absent⟩
  · rintro (⟨rfl, absent⟩ | ⟨front, segment, behind, fields, rfl, split, more, reached, absent⟩)
    · exact .unbound absent
    · exact .undefined split more reached absent

/-- The root alone is never what several segments are joined to. -/
theorem root_ne_intercalate (path : Dotted.segments name = root :: rest) (front : List String)
    (segment : String) : root ≠ ".".intercalate (root :: (front ++ [segment])) := by
  have plain : Dotted.isDotted root = false :=
    Dotted.isDotted_of_mem_segments (path ▸ List.mem_cons_self)
  intro same
  rw [same, Dotted.intercalate_cons, List.foldl_append, List.foldl_cons, List.foldl_nil,
    Dotted.isDotted_extend] at plain
  cases plain

theorem resolve_eq_undefined_root_iff (path : Dotted.segments name = root :: rest) :
    scope.resolve name = .undefined root ↔ ∀ shape, ¬ scope.Binds root shape := by
  rw [resolve_eq_undefined_iff path]
  constructor
  · rintro (⟨_, absent⟩ | ⟨front, segment, _, _, same, _⟩)
    · exact absent
    · exact absurd same (root_ne_intercalate path front segment)
  · exact fun absent => .inl ⟨rfl, absent⟩

/-- The name is undefined at a segment in its middle exactly if the segments before lead to a table
without it. -/
theorem resolve_eq_undefined_middle_iff {front behind : List String} {segment : String}
    (path : Dotted.segments name = root :: (front ++ segment :: behind)) (more : behind ≠ []) :
    scope.resolve name = .undefined (".".intercalate (root :: (front ++ [segment]))) ↔
      ∃ fields, scope.Reaches root front (.table fields) ∧ Fields.get? segment fields = none := by
  rw [resolve_eq_undefined_iff path]
  constructor
  · rintro (⟨same, _⟩ | ⟨front', segment', behind', fields, same, split, _, reached, absent⟩)
    · exact absurd same.symm (root_ne_intercalate path front segment)
    · -- Both joined names have the segments that they were joined from.
      have mine := Dotted.segments_intercalate_of_split (root :: (front ++ [segment])) behind
        (by simpa using path) (List.cons_ne_nil _ _)
      have theirs := Dotted.segments_intercalate_of_split (root :: (front' ++ [segment'])) behind'
        (by simpa [split] using path) (List.cons_ne_nil _ _)
      rw [same, theirs] at mine
      obtain ⟨rfl, last⟩ := List.append_inj' (List.cons.inj mine).2 rfl
      cases last
      exact ⟨fields, reached, absent⟩
  · rintro ⟨fields, reached, absent⟩
    exact .inr ⟨front, segment, behind, fields, rfl, rfl, more, reached, absent⟩

/-- On the way to a table there are tables only. -/
theorem Reaches.exists_table {front more : List String} {fields : Fields Shape}
    (reached : scope.Reaches root (front ++ more) (.table fields)) :
    ∃ inner, scope.Reaches root front (.table inner) := by
  obtain ⟨start, binds, reached⟩ := reached
  rw [Shape.follow?_append] at reached
  obtain ⟨shape, before, behind⟩ := Option.bind_eq_some_iff.mp reached
  cases more with
  | nil =>
      cases behind
      exact ⟨fields, start, binds, before⟩
  | cons segment rest =>
      obtain ⟨inner, rfl⟩ := Shape.exists_table_of_follow? behind
      exact ⟨inner, start, binds, before⟩

/-- What is missing is the name up to one of its segments, and any shorter part of the name leads to
a table. -/
theorem exists_of_undefined {missing : String} (path : Dotted.segments name = root :: rest)
    (outcome : scope.resolve name = .undefined missing) :
    ∃ taken behind, Dotted.segments name = taken ++ behind ∧ (taken = [root] ∨ behind ≠ []) ∧
      taken ≠ [] ∧ missing = ".".intercalate taken ∧
      ∀ shorter, shorter ≠ [] → shorter ≠ taken → shorter <+: taken →
        ∃ fields, scope.resolve (".".intercalate shorter) = .defined (.table fields) := by
  rcases (resolve_eq_undefined_iff path missing).mp outcome with
    ⟨rfl, _⟩ | ⟨front, segment, behind, fields, rfl, rfl, more, reached, _⟩
  · refine ⟨[missing], rest, path, .inl rfl, List.cons_ne_nil _ _,
      String.intercalate_singleton.symm, ?_⟩
    intro shorter some other start
    rcases List.prefix_cons_iff.mp start with none | ⟨more, rfl, ends⟩
    · exact absurd none some
    · exact absurd (congrArg _ (List.prefix_nil.mp ends)) other
  · have split : Dotted.segments name = root :: (front ++ [segment]) ++ behind := by simpa using path
    refine ⟨root :: (front ++ [segment]), behind, split, .inr more, List.cons_ne_nil _ _, rfl, ?_⟩
    intro shorter some other start
    obtain ⟨first, before, rfl⟩ := List.exists_cons_of_ne_nil some
    obtain ⟨rfl, startRest⟩ := List.cons_prefix_cons.mp start
    rcases List.prefix_concat_iff.mp startRest with whole | ⟨between, rfl⟩
    · exact absurd (congrArg _ whole) other
    · obtain ⟨inner, there⟩ := reached.exists_table
      have segments := Dotted.segments_intercalate_of_split (first :: before)
        (between ++ segment :: behind) (by simpa using path) some
      exact ⟨inner, (resolve_eq_defined_iff segments _).mpr there⟩

/-- Without layers a name is defined as what it leads to in the catalog. -/
theorem resolve_ofCatalog_eq_defined_iff (catalog : Catalog)
    (path : Dotted.segments name = root :: rest) (shape : Shape) :
    (ofCatalog catalog).resolve name = .defined shape ↔ catalog.find? name = some shape := by
  rw [resolve_eq_defined_iff_lookup path, Catalog.find?, path, Shape.follow?,
    Option.bind_eq_some_iff]
  rfl

/-- A dotted name in layers over a catalog. The root is looked up in the innermost layer that has it,
down to a barrier. The name is undefined at its root if that is not bound, defined if its segments
lead to a shape, beyond a shape that is no table or lacks the last segment only, and else undefined at
the first segment that is missing. What is missing is cut off the name behind a whole segment. -/
theorem resolve_outcomes (scope : Visibility) (name : String) :
    (∀ root shape, scope.lookup root = some shape ↔ scope.Binds root shape) ∧
      ∃ root rest, Dotted.segments name = root :: rest ∧
        (scope.resolve name = .undefined root ↔ ∀ shape, ¬ scope.Binds root shape) ∧
        (∀ shape, scope.resolve name = .defined shape ↔ scope.Reaches root rest shape) ∧
        (∀ shape, scope.resolve name = .beyond shape ↔
          ∃ front segment behind, rest = front ++ segment :: behind ∧
            scope.Reaches root front shape ∧ shape.Stops segment behind) ∧
        (∀ front segment behind, rest = front ++ segment :: behind → behind ≠ [] →
          (scope.resolve name = .undefined (".".intercalate (root :: (front ++ [segment]))) ↔
            ∃ fields, scope.Reaches root front (.table fields) ∧
              Fields.get? segment fields = none)) ∧
        (∀ missing, scope.resolve name = .undefined missing →
          ∃ taken behind, Dotted.segments name = taken ++ behind ∧
            (taken = [root] ∨ behind ≠ []) ∧ missing = ".".intercalate taken ∧
            missing.utf8ByteSize = Dotted.offset taken ∧ (∃ text, name = missing ++ text) ∧
            ∀ shorter, shorter ≠ [] → shorter ≠ taken → shorter <+: taken →
              ∃ fields, scope.resolve (".".intercalate shorter) = .defined (.table fields)) ∧
        ∀ shape, (ofCatalog scope.base).resolve name = .defined shape ↔
          scope.base.find? name = some shape := by
  obtain ⟨rest, path⟩ := Dotted.segments_eq_root_cons name
  refine ⟨scope.lookup_eq_some_iff, Dotted.root name, rest, path,
    resolve_eq_undefined_root_iff path, resolve_eq_defined_iff path, resolve_eq_beyond_iff path,
    ?_, ?_, resolve_ofCatalog_eq_defined_iff scope.base path⟩
  · rintro front segment behind rfl more
    exact resolve_eq_undefined_middle_iff path more
  · intro missing outcome
    obtain ⟨taken, behind, split, middle, proper, rfl, shorter⟩ := exists_of_undefined path outcome
    exact ⟨taken, behind, split, middle, rfl, Dotted.utf8ByteSize_intercalate taken,
      Dotted.exists_append_of_segments split proper, shorter⟩

/-- A library in a layer with a barrier, under a layer with nothing in it. -/
def fenced : Visibility :=
  ⟨⟨[("print", .scalar .function)]⟩,
    [⟨[], false⟩, ⟨[("lib", .table [("io", .table [])])], true⟩]⟩

/-- The library has no such field; the letters of its name take more than one byte. -/
theorem resolve_outcomes_fenced :
    fenced.resolve "lib.größe.maß" = .undefined "lib.größe" ∧
      "lib.größe".utf8ByteSize = Dotted.offset ["lib", "größe"] ∧
      ∃ fields, fenced.resolve "lib" = .defined (.table fields) := by
  obtain ⟨_, root, rest, path, _, _, _, middle, undefined, _⟩ :=
    resolve_outcomes fenced "lib.größe.maß"
  have segments : Dotted.segments "lib.größe.maß" = ["lib", "größe", "maß"] := by decide
  obtain ⟨rfl, rfl⟩ := List.cons.inj (segments.symm.trans path)
  have binds : fenced.Binds "lib" (.table [("io", .table [])]) :=
    .layer [⟨[], false⟩] ⟨[("lib", .table [("io", .table [])])], true⟩ [] rfl
      (by simp [Fields.get?]) rfl
  have outcome := (middle [] "größe" ["maß"] rfl (List.cons_ne_nil _ _)).mpr
    ⟨[("io", .table [])], ⟨_, binds, rfl⟩, rfl⟩
  obtain ⟨taken, behind, split, _, joined, bytes, _, shorter⟩ := undefined _ outcome
  have whole : taken = ["lib", "größe"] := by
    have proper : taken ≠ [] := by
      rintro rfl
      exact absurd joined (by decide)
    have again := Dotted.segments_intercalate_of_split taken behind split proper
    rw [← joined] at again
    exact again.symm.trans (by decide)
  subst whole
  exact ⟨outcome, bytes, shorter ["lib"] (by decide) (by decide) (by decide)⟩

end Visibility

end GlobalAudit
