import GlobalAudit.Command.Options
import GlobalAudit.Proofs.Text

/-!
# Spellings of options

How an argument is read depends on the options so far and on the argument alone; what stands behind it
matters only when it wants a value. So an argument can be written in another way wherever it is read as an
argument: a bundle of short options as two arguments, and a value that is attached to its option as an
argument of its own.
-/
namespace GlobalAudit.Options

/-! ## One argument -/

/-- What an argument does. -/
inductive Reading where
  | refused (fault : UsageError)
  /-- A page was asked for, which ends the reading. -/
  | page (options : Options)
  /-- All arguments behind it are paths. -/
  | lastOption
  | next (options : Options)
  /-- The next argument is the value of an option. -/
  | wants (parameter : Parameter) (option : String) (options : Options)

namespace Reading

/-- Options that were changed, or the reason why they cannot be. -/
def ofChange : Except UsageError Options → Reading
  | .error fault => .refused fault
  | .ok options => .next options

def ofBundle : Except UsageError BundleEnd → Reading
  | .error fault => .refused fault
  | .ok (.stop options) => .page options
  | .ok (.done options) => .next options
  | .ok (.wants parameter option options) => .wants parameter option options

end Reading

/-- Reads one argument. -/
def read (options : Options) (argument : String) : Reading :=
  match Argument.of argument with
  | .endOfOptions => .lastOption
  | .path => .next { options with paths := options.paths ++ [argument] }
  | .word name attached =>
    match Meaning.ofWord? name with
    | none => .refused (.unknownOption argument)
    | some (.page mode) => .page { options with mode }
    | some (.switch switch) => .ofChange (options.apply switch)
    | some (.parameter parameter) =>
      match attached with
      | some value => .ofChange (options.assign parameter value)
      | none => .wants parameter ("--" ++ name) options
  | .letters letters => .ofBundle (options.bundle letters)

/-- Reads the arguments behind one that has been read. -/
def Reading.resume (options : Options) (rest : List String) : Reading → Except UsageError Options
  | .refused fault => .error fault
  | .page changed => .ok changed
  | .lastOption => finish { options with paths := options.paths ++ rest }
  | .next changed => changed.parseFrom rest
  | .wants parameter option changed =>
    match rest with
    | [] => .error (.missingValue option)
    | value :: later =>
      match changed.assign parameter value with
      | .error fault => .error fault
      | .ok changed => changed.parseFrom later

theorem parseFrom_cons (options : Options) (argument : String) (rest : List String) :
    options.parseFrom (argument :: rest) = (options.read argument).resume options rest := by
  rw [parseFrom, read]
  cases Argument.of argument with
  | endOfOptions => rfl
  | path => rfl
  | word name attached =>
      dsimp only
      cases Meaning.ofWord? name with
      | none => rfl
      | some meaning =>
          cases meaning with
          | page mode => rfl
          | switch switch =>
              dsimp only
              cases options.apply switch <;> rfl
          | parameter parameter =>
              cases attached with
              | none => cases rest <;> rfl
              | some value =>
                  dsimp only
                  cases options.assign parameter value <;> rfl
  | letters letters =>
      dsimp only
      cases options.bundle letters with
      | error fault => rfl
      | ok ending => cases ending <;> rfl

/-! ## Positions -/

/-- How the argument behind some others is read. -/
inductive Position where
  /-- As an argument, with the options so far. -/
  | argument (options : Options)
  /-- As the value of an option. -/
  | value (parameter : Parameter) (option : String) (options : Options)
  /-- As a path, behind two dashes. -/
  | path (options : Options)
  /-- Not at all, since the reading has ended. -/
  | nowhere (result : Except UsageError Options)

/-- Where the reading is behind some arguments. -/
def positionAfter (options : Options) : List String → Position
  | [] => .argument options
  | argument :: rest =>
    match options.read argument with
    | .refused fault => .nowhere (.error fault)
    | .page changed => .nowhere (.ok changed)
    | .lastOption => .path { options with paths := options.paths ++ rest }
    | .next changed => changed.positionAfter rest
    | .wants parameter option changed =>
      match rest with
      | [] => .value parameter option changed
      | value :: later =>
        match changed.assign parameter value with
        | .error fault => .nowhere (.error fault)
        | .ok changed => changed.positionAfter later

/-- Reads on from a position. -/
def Position.resume (rest : List String) : Position → Except UsageError Options
  | .argument options => options.parseFrom rest
  | .value parameter option options => (Reading.wants parameter option options).resume options rest
  | .path options => finish { options with paths := options.paths ++ rest }
  | .nowhere result => result

/-- Arguments count for those behind them by the position that they lead to, and by nothing else. -/
theorem parseFrom_append (options : Options) (before rest : List String) :
    options.parseFrom (before ++ rest) = (options.positionAfter before).resume rest := by
  fun_induction positionAfter options before with
  | case1 options => rfl
  | case2 options argument later fault refused =>
      rw [List.cons_append, parseFrom_cons, refused]
      rfl
  | case3 options argument later changed stops =>
      rw [List.cons_append, parseFrom_cons, stops]
      rfl
  | case4 options argument later ends =>
      rw [List.cons_append, parseFrom_cons, ends]
      simp [Reading.resume, Position.resume]
  | case5 options argument later changed goes ih =>
      rw [List.cons_append, parseFrom_cons, goes]
      exact ih
  | case6 options argument parameter option changed wants =>
      rw [List.cons_append, parseFrom_cons, wants]
      rfl
  | case7 options argument parameter option changed wants value later fault failed =>
      rw [List.cons_append, parseFrom_cons, wants]
      simp [Reading.resume, Position.resume, failed]
  | case8 options argument parameter option changed wants value later last assigned ih =>
      rw [List.cons_append, parseFrom_cons, wants]
      simpa [Reading.resume, assigned] using ih

/-! ## Spellings -/

/-- Two ways to write an option. -/
inductive Respelling : String → List String → Prop where
  /-- A bundle is written as its first option and the rest. -/
  | bundle {letter : Char} {rest : List Char} (flag : letter ∈ ['t', 'l', 'v', 'x', 'd', 'h', 'V'])
      (more : rest ≠ []) (short : rest.head? ≠ some '-') :
      Respelling (String.ofList ('-' :: letter :: rest))
        [String.ofList ['-', letter], String.ofList ('-' :: rest)]
  /-- A value behind a letter is written on its own. -/
  | letter {letter : Char} {value : String} (valued : letter ∈ ['w', 'm']) (nonempty : value ≠ "") :
      Respelling (String.ofList ('-' :: letter :: value.toList)) [String.ofList ['-', letter], value]
  /-- A value behind a word is written on its own. -/
  | word {name value : String}
      (valued : name ∈ ["whitelist", "modules", "dialect", "luac", "lua", "lines"]) :
      Respelling ("--" ++ name ++ "=" ++ value) ["--" ++ name, value]

section Arguments

variable {letter : Char} {rest : List Char} {name value : String}

theorem Argument.of_letters (single : letter ≠ '-') :
    Argument.of (String.ofList ('-' :: letter :: rest)) = .letters (letter :: rest) := by
  rw [Argument.of, String.toList_ofList]
  split
  · rename_i chars
    cases chars
    exact absurd rfl single
  · rename_i chars
    cases chars
    exact absurd rfl single
  · rename_i chars
    cases chars
    rfl
  · rename_i other
    exact absurd rfl (other letter rest)

theorem Argument.of_long {argument : String} {long : List Char}
    (chars : argument.toList = '-' :: '-' :: long) (more : long ≠ []) :
    Argument.of argument = match Text.cut? '=' long with
      | some (name, value) => .word (String.ofList name) (some (String.ofList value))
      | none => .word (String.ofList long) none := by
  rw [Argument.of, chars]
  split
  · rename_i short
    cases short
    exact absurd rfl more
  · rename_i same
    cases same
    rfl
  · rename_i differs same
    cases same
    exact (differs rfl).elim
  · rename_i differs _
    exact (differs _ rfl).elim

theorem Argument.of_word (nonempty : name ≠ "") (plain : '=' ∉ name.toList) :
    Argument.of ("--" ++ name) = .word name none := by
  have chars : ("--" ++ name).toList = '-' :: '-' :: name.toList := by simp
  rw [Argument.of_long chars (by simpa using nonempty), Text.cut?_eq_none_iff.mpr plain]
  simp

theorem Argument.of_attached (plain : '=' ∉ name.toList) :
    Argument.of ("--" ++ name ++ "=" ++ value) = .word name (some value) := by
  have chars : ("--" ++ name ++ "=" ++ value).toList =
      '-' :: '-' :: (name.toList ++ '=' :: value.toList) := by simp
  rw [Argument.of_long chars (by simp), Text.cut?_append plain]
  simp

end Arguments

theorem exists_flag {letter : Char} (flag : letter ∈ ['t', 'l', 'v', 'x', 'd', 'h', 'V']) :
    letter ≠ '-' ∧ ((∃ mode, Meaning.ofLetter? letter = some (.page mode)) ∨
      ∃ switch, Meaning.ofLetter? letter = some (.switch switch)) := by
  simp only [List.mem_cons, List.not_mem_nil, or_false] at flag
  rcases flag with rfl | rfl | rfl | rfl | rfl | rfl | rfl
  all_goals first
    | exact ⟨by decide, .inl ⟨_, rfl⟩⟩
    | exact ⟨by decide, .inr ⟨_, rfl⟩⟩

section Respelled

variable (options : Options) (after : List String)

theorem parseFrom_letters {letter : Char} {rest : List Char} (single : letter ≠ '-') :
    options.parseFrom (String.ofList ('-' :: letter :: rest) :: after) =
      (Reading.ofBundle (options.bundle (letter :: rest))).resume options after := by
  rw [parseFrom_cons, read, Argument.of_letters single]

/-- A bundle does not end the options, so what it leads to depends on the options behind it only. -/
theorem resume_ofBundle (other : Options) (ending : Except UsageError BundleEnd) :
    (Reading.ofBundle ending).resume options after = (Reading.ofBundle ending).resume other after := by
  cases ending with
  | error fault => rfl
  | ok ending => cases ending <;> rfl

theorem parseFrom_bundle {letter : Char} {rest : List Char}
    (flag : letter ∈ ['t', 'l', 'v', 'x', 'd', 'h', 'V']) (more : rest ≠ [])
    (short : rest.head? ≠ some '-') :
    options.parseFrom (String.ofList ('-' :: letter :: rest) :: after) =
      options.parseFrom
        (String.ofList ['-', letter] :: String.ofList ('-' :: rest) :: after) := by
  obtain ⟨single, ⟨mode, meaning⟩ | ⟨switch, meaning⟩⟩ := exists_flag flag
  · rw [parseFrom_letters _ _ single, parseFrom_letters _ _ single, bundle, bundle, meaning]
    rfl
  · obtain ⟨second, others, rfl⟩ := List.exists_cons_of_ne_nil more
    have singleToo : second ≠ '-' := by simpa using short
    rw [parseFrom_letters _ _ single, parseFrom_letters _ _ single, bundle, bundle, meaning]
    dsimp only
    cases options.apply switch with
    | error fault => rfl
    | ok changed =>
        have alone : (Reading.ofBundle (changed.bundle [])).resume options
            (String.ofList ('-' :: second :: others) :: after) =
            changed.parseFrom (String.ofList ('-' :: second :: others) :: after) := rfl
        rw [alone, parseFrom_letters _ _ singleToo]
        exact resume_ofBundle options after changed _

/-- A value is the same value, attached or on its own. -/
theorem resume_wants_cons (parameter : Parameter) (option value : String) :
    (Reading.wants parameter option options).resume options (value :: after) =
      (Reading.ofChange (options.assign parameter value)).resume options after := by
  rw [Reading.resume]
  cases options.assign parameter value <;> rfl

theorem parseFrom_letter {letter : Char} {value : String} (valued : letter ∈ ['w', 'm'])
    (nonempty : value ≠ "") :
    options.parseFrom (String.ofList ('-' :: letter :: value.toList) :: after) =
      options.parseFrom (String.ofList ['-', letter] :: value :: after) := by
  obtain ⟨single, parameter, meaning⟩ : letter ≠ '-' ∧
      ∃ parameter, Meaning.ofLetter? letter = some (.parameter parameter) := by
    simp only [List.mem_cons, List.not_mem_nil, or_false] at valued
    rcases valued with rfl | rfl
    · exact ⟨by decide, _, rfl⟩
    · exact ⟨by decide, _, rfl⟩
  have some : value.toList.isEmpty = false := by simpa using nonempty
  rw [parseFrom_letters _ _ single, parseFrom_letters _ _ single, bundle, bundle, meaning]
  simp only [some, Bool.false_eq_true, if_false, List.isEmpty_nil, if_true, String.ofList_toList]
  rw [Reading.ofBundle, resume_wants_cons]
  cases options.assign parameter value <;> rfl

theorem parseFrom_word {name value : String}
    (valued : name ∈ ["whitelist", "modules", "dialect", "luac", "lua", "lines"]) :
    options.parseFrom (("--" ++ name ++ "=" ++ value) :: after) =
      options.parseFrom (("--" ++ name) :: value :: after) := by
  obtain ⟨nonempty, plain, parameter, meaning⟩ : name ≠ "" ∧ '=' ∉ name.toList ∧
      ∃ parameter, Meaning.ofWord? name = some (.parameter parameter) := by
    simp only [List.mem_cons, List.not_mem_nil, or_false] at valued
    rcases valued with rfl | rfl | rfl | rfl | rfl | rfl
    all_goals exact ⟨by decide, by decide, _, rfl⟩
  rw [parseFrom_cons, parseFrom_cons, read, read, Argument.of_attached plain,
    Argument.of_word nonempty plain]
  simp only [meaning]
  rw [resume_wants_cons]

theorem parseFrom_respelled {argument : String} {spelled : List String}
    (same : Respelling argument spelled) :
    options.parseFrom (spelled ++ after) = options.parseFrom (argument :: after) := by
  cases same with
  | bundle flag more short => exact (parseFrom_bundle options after flag more short).symm
  | letter valued nonempty => exact (parseFrom_letter options after valued nonempty).symm
  | word valued => exact (parseFrom_word options after valued).symm

end Respelled

/-- An option can be written in another way wherever it is read as an argument. Whatever stands before and
behind it, the options or the error are the same. -/
theorem parse_respelled {before after : List String} {argument : String} {spelled : List String}
    {options : Options} (place : Options.initial.positionAfter before = .argument options)
    (same : Respelling argument spelled) :
    parse (before ++ spelled ++ after) = parse (before ++ argument :: after) := by
  rw [parse, parse, List.append_assoc, parseFrom_append, parseFrom_append, place]
  exact parseFrom_respelled options after same

/-- Paths, a value that looks like an option, and a bundle in front; a path behind two dashes after it. -/
theorem parse_respelled_bundle :
    Options.initial.positionAfter ["a.lua", "-tw", "-x"] =
        .argument { Options.initial with paths := ["a.lua"], tolerant := true, whitelists := ["-x"] } ∧
      Respelling "-lm--json" ["-l", "-m--json"] ∧
      parse (["a.lua", "-tw", "-x"] ++ ["-l", "-m--json"] ++ ["--", "-v"]) =
        parse (["a.lua", "-tw", "-x"] ++ "-lm--json" :: ["--", "-v"]) := by
  have place : Options.initial.positionAfter ["a.lua", "-tw", "-x"] =
      .argument { Options.initial with paths := ["a.lua"], tolerant := true, whitelists := ["-x"] } := rfl
  have same : Respelling "-lm--json" ["-l", "-m--json"] :=
    @Respelling.bundle 'l' "m--json".toList (by decide) (by decide) (by decide)
  exact ⟨place, same, parse_respelled place same⟩

end GlobalAudit.Options
