import GlobalAudit.Proofs.LineGrammar

/-!
# The first fault of a listing

A listing is read line by line, and reading stops at the first line that is at fault. What was read
up to there depends on the lines before only, so the number of the fault is the place of the first
offending line. A section that ends too early is noticed at the line behind it, or behind the last
line of the text.
-/
namespace GlobalAudit

/-! ## Lines -/

namespace Text

theorem lines_of_single {text : List Char} (single : '\n' ∉ text) :
    lines text = if text.isEmpty then [] else [text] := by
  rw [lines, splitOn_of_not_mem single]
  rfl

theorem single_of_mem_lines {text line : List Char} (member : line ∈ lines text) : '\n' ∉ line := by
  -- Each line feed splits off one line, and the text behind it is shorter.
  induction size : text.length using Nat.strong_induction_on generalizing text with
  | _ size ih =>
      cases cut : cut? '\n' text with
      | none =>
          have single : '\n' ∉ text := cut?_eq_none_iff.mp cut
          rw [lines_of_single single] at member
          split at member
          · cases member
          · rwa [List.mem_singleton.mp member]
      | some pair =>
          obtain ⟨first, rest⟩ := pair
          obtain ⟨rfl, single⟩ := cut?_eq_some cut
          rw [lines_append_cons single] at member
          rcases List.mem_cons.mp member with rfl | later
          · exact not_mem_dropReturn single
          · refine ih rest.length ?_ later rfl
            rw [← size, List.length_append, List.length_cons]
            omega

/-- The first lines of a text, each ended by a line feed. -/
def firstLines (count : Nat) (text : String) : String :=
  unlines (((lines text.toList).take count).map String.ofList)

/-- They are read back up to carriage returns at their ends. -/
theorem lines_firstLines (count : Nat) (text : String) :
    lines (firstLines count text).toList = ((lines text.toList).take count).map dropReturn := by
  rw [firstLines, lines_unlines, List.map_map]
  · apply List.map_congr_left
    intro line _
    rw [Function.comp_apply, String.toList_ofList]
  · intro line member
    obtain ⟨chars, taken, rfl⟩ := List.mem_map.mp member
    rw [String.toList_ofList]
    exact single_of_mem_lines (List.mem_of_mem_take taken)

theorem cut?_concat {mark c : Char} (other : c ≠ mark) (text : List Char) :
    cut? mark (text ++ [c]) = (cut? mark text).map fun parts => (parts.1, parts.2 ++ [c]) := by
  induction text with
  | nil => simp [cut?, other]
  | cons d rest ih =>
      rw [List.cons_append, cut?, cut?]
      split
      · rfl
      · rw [ih]
        cases cut? mark rest <;> rfl

end Text

/-! ## A blank at the end of a line -/

namespace Instruction

theorem opens_concat_iff {c : Char} (blank : Text.isBlank c = true) {line digits rest : List Char} :
    Opens (line ++ [c]) digits rest ↔ ∃ front, rest = front ++ [c] ∧ Opens line digits front := by
  constructor
  · rintro ⟨lead, gap, leadBlank, nonempty, isDigit, gapNonempty, gapBlank, chars⟩
    rcases List.eq_nil_or_concat rest with rfl | ⟨front, d, rfl⟩
    · have form : line ++ [c] = (lead ++ (digits ++ gap)) ++ ['['] := by simp [chars]
      obtain ⟨_, last⟩ := List.append_inj' form rfl
      cases last
      exact absurd blank (by decide)
    · have form : line ++ [c] = (lead ++ (digits ++ (gap ++ '[' :: front))) ++ [d] := by
        simp [chars]
      obtain ⟨rfl, last⟩ := List.append_inj' form rfl
      cases last
      exact ⟨front, List.concat_eq_append, lead, gap, leadBlank, nonempty, isDigit, gapNonempty,
        gapBlank, rfl⟩
  · rintro ⟨front, rfl, lead, gap, leadBlank, nonempty, isDigit, gapNonempty, gapBlank, rfl⟩
    exact ⟨lead, gap, leadBlank, nonempty, isDigit, gapNonempty, gapBlank, by simp⟩

theorem ofBody_splitComment_concat {c : Char} (blank : Text.isBlank c = true) (index line : Nat)
    (text : List Char) :
    ofBody index line (splitComment (text ++ [c])).1 (splitComment (text ++ [c])).2 =
      ofBody index line (splitComment text).1 (splitComment text).2 := by
  have other : c ≠ ';' := by
    rintro rfl
    exact absurd blank (by decide)
  rw [splitComment, splitComment, Text.cut?_concat other]
  cases Text.cut? ';' text with
  | none =>
      simp only [Option.map_none, ofBody]
      rw [Text.words_append_of_blank text (List.forall_mem_singleton.mpr blank)]
  | some parts => simp only [Option.map_some, Text.trim_concat_of_blank _ blank]

theorem ofColumns_concat {c : Char} (blank : Text.isBlank c = true) (digits rest : List Char) :
    ofColumns digits (rest ++ [c]) = ofColumns digits rest := by
  have other : c ≠ ']' := by
    rintro rfl
    exact absurd blank (by decide)
  simp only [ofColumns, Text.cut?_concat other]
  cases Text.readIndex digits with
  | none => rfl
  | some index =>
      cases Text.cut? ']' rest with
      | none => rfl
      | some parts =>
          simp only [Option.map_some]
          cases sourceLine? parts.1 with
          | none => rfl
          | some line => exact ofBody_splitComment_concat blank index line parts.2

theorem ofLine_concat {c : Char} (blank : Text.isBlank c = true) (line : List Char) :
    ofLine (line ++ [c]) = ofLine line := by
  cases found : columns? line with
  | none =>
      have closed : columns? (line ++ [c]) = none := by
        cases longer : columns? (line ++ [c]) with
        | none => rfl
        | some parts =>
            obtain ⟨front, _, opens⟩ := (opens_concat_iff blank).mp (opens_of_columns? longer)
            rw [columns?_of_opens opens] at found
            cases found
      rw [ofLine, ofLine, found, closed]
  | some parts =>
      obtain ⟨digits, rest⟩ := parts
      have opens : Opens (line ++ [c]) digits (rest ++ [c]) :=
        (opens_concat_iff blank).mpr ⟨rest, rfl, opens_of_columns? found⟩
      rw [ofLine, ofLine, found, columns?_of_opens opens]
      simp only [ofColumns_concat blank]

theorem ofLine_dropReturn (line : List Char) : ofLine (Text.dropReturn line) = ofLine line := by
  rw [Text.dropReturn]
  split
  · rename_i ends
    obtain ⟨start, rfl⟩ := List.getLast?_eq_some_iff.mp ends
    rw [List.dropLast_concat, ofLine_concat (by decide)]
  · rfl

end Instruction

namespace Listing

variable {dialect : Dialect} {reader next : Reader}

/-! ## What a line does -/

/-- A carriage return at the end of a line makes no difference. -/
theorem Reader.step_dropReturn (reader : Reader) (line : List Char) (number : Nat) :
    reader.step dialect (Text.dropReturn line, number) = reader.step dialect (line, number) := by
  simp only [step, code, Text.trim_dropReturn, Instruction.ofLine_dropReturn]

theorem truncated_of_closePlace {line : Nat} {place : Place} {fault : Fault}
    (refused : closePlace line place = .error fault) :
    ∃ kind expected found, fault = ⟨line, .truncatedSection kind expected found⟩ := by
  cases place with
  | preamble => cases refused
  | code => cases refused
  | entries kind expected found =>
      rw [closePlace] at refused
      split at refused
      · cases refused
        exact ⟨kind, expected, found, rfl⟩
      · cases refused

theorem line_of_code_error {line : List Char} {number : Nat} {fault : Fault}
    (refused : reader.code dialect line number = .error fault) : fault.line = number := by
  rw [Reader.code] at refused
  split at refused
  · cases refused
    rfl
  · cases refused
  · split at refused
    · split at refused
      · cases refused
        rfl
      · cases refused
    · cases refused
      rfl

theorem line_of_close_error {α : Type} {number : Nat} {place : Place} {answer : α} {fault : Fault}
    (refused : (closePlace number place).map (fun _ => answer) = .error fault) :
    fault.line = number := by
  cases closed : closePlace number place with
  | error found =>
      rw [closed] at refused
      cases refused
      obtain ⟨kind, expected, count, rfl⟩ := truncated_of_closePlace closed
      rfl
  | ok _ =>
      rw [closed] at refused
      cases refused

/-- Every fault of a line is reported at its number. -/
theorem line_of_step_error {line : List Char} {number : Nat} {fault : Fault}
    (refused : reader.step dialect (line, number) = .error fault) : fault.line = number := by
  rw [Reader.step] at refused
  split at refused
  · exact line_of_close_error refused
  · split at refused
    · exact line_of_close_error refused
    · split at refused
      · split at refused
        · cases refused
        · exact line_of_code_error refused
      · exact line_of_code_error refused

theorem exists_of_bind_eq_ok {ε α β : Type} {action : Except ε α} {next : α → Except ε β} {result : β}
    (done : action >>= next = .ok result) : ∃ value, action = .ok value ∧ next value = .ok result := by
  cases action with
  | error reason => cases done
  | ok value => exact ⟨value, rfl, done⟩

theorem exists_of_map_eq_ok {ε α β : Type} {action : Except ε α} {next : α → β} {result : β}
    (done : action.map next = .ok result) : ∃ value, action = .ok value ∧ next value = result := by
  cases action with
  | error reason => cases done
  | ok value =>
      cases done
      exact ⟨value, rfl, rfl⟩

/-- What holds of a function when it is opened, and is kept by entries and by instructions of the
dialect. -/
structure Keeps (dialect : Dialect) (holds : Function → Prop) : Prop where
  opened : ∀ header, holds (.ofHeader header)
  entered : ∀ kind line function, holds function → holds (function.addEntry kind line)
  coded : ∀ instruction function, (dialect.role? instruction.opcode).isSome → holds function →
    holds (function.addInstruction instruction)

namespace Keeps

variable {holds : Function → Prop} (keeps : Keeps dialect holds)
include keeps

theorem code {line : List Char} {number : Nat} (held : ∀ function ∈ reader.functions, holds function)
    (read : reader.code dialect line number = .ok next) :
    ∀ function ∈ next.functions, holds function := by
  rw [Reader.code] at read
  split at read
  · cases read
  · cases read
    exact held
  · rename_i instruction _
    split at read
    · rename_i functions
      split at read
      · cases read
      · rename_i known
        cases read
        rw [functions] at held
        obtain ⟨current, earlier⟩ := List.forall_mem_cons.mp held
        refine List.forall_mem_cons.mpr ⟨keeps.coded instruction _ ?_ current, earlier⟩
        exact Option.isSome_iff_ne_none.mpr fun none => known (Option.isNone_iff_eq_none.mpr none)
    · cases read

/-- A line opens a function, adds to the last one or leaves them. -/
theorem step {numbered : List Char × Nat} (held : ∀ function ∈ reader.functions, holds function)
    (read : reader.step dialect numbered = .ok next) :
    ∀ function ∈ next.functions, holds function := by
  obtain ⟨line, number⟩ := numbered
  rw [Reader.step] at read
  split at read
  · obtain ⟨_, _, rfl⟩ := exists_of_map_eq_ok read
    exact List.forall_mem_cons.mpr ⟨keeps.opened _, held⟩
  · split at read
    · obtain ⟨_, _, rfl⟩ := exists_of_map_eq_ok read
      exact held
    · split at read
      · split at read
        · cases read
          rename_i kind _ _ _ _
          cases functions : reader.functions with
          | nil =>
              intro function member
              cases member
          | cons current earlier =>
              rw [functions] at held
              obtain ⟨first, rest⟩ := List.forall_mem_cons.mp held
              exact List.forall_mem_cons.mpr ⟨keeps.entered kind _ current first, rest⟩
        · exact keeps.code held read
      · exact keeps.code held read

end Keeps

/-! ## What lines do one after the other -/

/-- The reader behind some lines from the start of a text. -/
def readLines (dialect : Dialect) (lines : List (List Char)) : Except Fault Reader :=
  (lines.zipIdx 1).foldlM (Reader.step dialect) Reader.start

theorem parse_eq (dialect : Dialect) (text : String) :
    parse dialect text = readLines dialect (Text.lines text.toList) >>= fun reader =>
      closePlace ((Text.lines text.toList).length + 1) reader.place >>= fun _ =>
        pure ⟨dialect, reader.functions.reverse⟩ := rfl

theorem readLines_append {early : List (List Char)} (read : readLines dialect early = .ok reader)
    (late : List (List Char)) : readLines dialect (early ++ late) =
      (late.zipIdx (early.length + 1)).foldlM (Reader.step dialect) reader := by
  rw [readLines] at read
  rw [readLines, List.zipIdx_append, List.foldlM_append, read, Nat.add_comm]
  rfl

theorem readLines_append_of_error {early : List (List Char)} {fault : Fault}
    (refused : readLines dialect early = .error fault) (late : List (List Char)) :
    readLines dialect (early ++ late) = .error fault := by
  rw [readLines] at refused
  rw [readLines, List.zipIdx_append, List.foldlM_append, refused]
  rfl

theorem readLines_concat {lines : List (List Char)} (read : readLines dialect lines = .ok reader)
    (line : List Char) :
    readLines dialect (lines ++ [line]) = reader.step dialect (line, lines.length + 1) := by
  rw [readLines_append read, List.zipIdx_singleton, List.foldlM_cons]
  simp only [List.foldlM_nil, bind_pure]

theorem readLines_map_dropReturn (dialect : Dialect) (lines : List (List Char)) :
    readLines dialect (lines.map Text.dropReturn) = readLines dialect lines := by
  induction lines using List.reverseRecOn with
  | nil => rfl
  | append_singleton lines last ih =>
      rw [List.map_append, List.map_singleton]
      cases read : readLines dialect lines with
      | error fault =>
          rw [readLines_append_of_error read, readLines_append_of_error (ih.trans read)]
      | ok reader =>
          rw [readLines_concat read, readLines_concat (ih.trans read), List.length_map,
            Reader.step_dropReturn]

namespace Keeps

variable {holds : Function → Prop} (keeps : Keeps dialect holds)
include keeps

theorem readLines {lines : List (List Char)} (read : readLines dialect lines = .ok reader) :
    ∀ function ∈ reader.functions, holds function := by
  induction lines using List.reverseRecOn generalizing reader with
  | nil =>
      cases read
      intro function member
      cases member
  | append_singleton lines last ih =>
      cases before : Listing.readLines dialect lines with
      | error fault =>
          rw [readLines_append_of_error before] at read
          cases read
      | ok middle =>
          rw [readLines_concat before] at read
          exact keeps.step (ih before) read

/-- So it holds of all functions of a listing that was read. -/
theorem parse {text : String} {listing : Listing} (read : parse dialect text = .ok listing) :
    ∀ function ∈ listing.functions, holds function := by
  rw [parse_eq] at read
  obtain ⟨reader, lines, read⟩ := exists_of_bind_eq_ok read
  obtain ⟨_, _, read⟩ := exists_of_bind_eq_ok read
  cases read
  exact fun function member => keeps.readLines lines function (List.mem_reverse.mp member)

end Keeps

/-! ## Where reading stops -/

/-- The first fault of some lines: those before it are read and the next one is refused, or all are
read and a section is still open. -/
inductive StopsAt (dialect : Dialect) (lines : List (List Char)) (fault : Fault) : Prop where
  | line {before after : List (List Char)} {line : List Char} {reader : Reader}
      (split : lines = before ++ line :: after) (read : readLines dialect before = .ok reader)
      (refused : reader.step dialect (line, before.length + 1) = .error fault)
  | finish {reader : Reader} (read : readLines dialect lines = .ok reader)
      (refused : closePlace (lines.length + 1) reader.place = .error fault)

theorem exists_first_refused {lines : List (List Char)} {fault : Fault}
    (refused : readLines dialect lines = .error fault) :
    ∃ before line after reader, lines = before ++ line :: after ∧
      readLines dialect before = .ok reader ∧
      reader.step dialect (line, before.length + 1) = .error fault := by
  induction lines using List.reverseRecOn with
  | nil => cases refused
  | append_singleton lines last ih =>
      cases read : readLines dialect lines with
      | error earlier =>
          rw [readLines_append_of_error read] at refused
          cases refused
          obtain ⟨before, line, after, reader, rfl, sound, stops⟩ := ih read
          exact ⟨before, line, after ++ [last], reader, by simp, sound, stops⟩
      | ok reader =>
          rw [readLines_concat read] at refused
          exact ⟨lines, last, [], reader, rfl, read, refused⟩

theorem parse_eq_error_iff {text : String} {fault : Fault} :
    parse dialect text = .error fault ↔ StopsAt dialect (Text.lines text.toList) fault := by
  rw [parse_eq]
  constructor
  · intro refused
    cases read : readLines dialect (Text.lines text.toList) with
    | error earlier =>
        rw [read] at refused
        cases refused
        obtain ⟨before, line, after, reader, split, sound, stops⟩ := exists_first_refused read
        exact .line split sound stops
    | ok reader =>
        rw [read] at refused
        cases closed : closePlace ((Text.lines text.toList).length + 1) reader.place with
        | error last =>
            simp only [closed, bind, Except.bind] at refused
            cases refused
            exact .finish read closed
        | ok _ =>
            simp only [closed, bind, Except.bind] at refused
            cases refused
  · intro stops
    cases stops with
    | @line before after line reader split read refused =>
        rw [split, readLines_append read, List.zipIdx_cons, List.foldlM_cons, refused]
        rfl
    | finish read refused =>
        rw [read]
        simp only [refused, bind, Except.bind]

/-- Lines that are read are a listing by themselves, unless a section is still open behind them. -/
theorem parse_firstLines {text : String} {count : Nat}
    (within : count ≤ (Text.lines text.toList).length)
    (read : readLines dialect ((Text.lines text.toList).take count) = .ok reader) :
    (∃ listing, parse dialect (Text.firstLines count text) = .ok listing) ∨
      ∃ kind expected found, parse dialect (Text.firstLines count text) =
        .error ⟨count + 1, .truncatedSection kind expected found⟩ := by
  have size : (((Text.lines text.toList).take count).map Text.dropReturn).length = count := by
    rw [List.length_map, List.length_take, Nat.min_eq_left within]
  rw [parse_eq, Text.lines_firstLines, readLines_map_dropReturn, read, size]
  cases closed : closePlace (count + 1) reader.place with
  | ok _ =>
      left
      refine ⟨⟨dialect, reader.functions.reverse⟩, ?_⟩
      simp only [closed, bind, Except.bind]
      rfl
  | error fault =>
      right
      obtain ⟨kind, expected, found, rfl⟩ := truncated_of_closePlace closed
      refine ⟨kind, expected, found, ?_⟩
      simp only [closed, bind, Except.bind]

/-- A fault at the first offending line of a text. -/
structure FirstFault (dialect : Dialect) (text : String) (fault : Fault) : Prop where
  line_pos : 1 ≤ fault.line
  line_le : fault.line ≤ (Text.lines text.toList).length + 1
  /-- Nothing behind the line makes a difference. -/
  persists : fault.line ≤ (Text.lines text.toList).length → ∀ other : String,
    (Text.lines other.toList).take fault.line = (Text.lines text.toList).take fault.line →
    parse dialect other = .error fault
  /-- The lines before it are a listing, unless a section ends with them too early. -/
  before : (∃ listing, parse dialect (Text.firstLines (fault.line - 1) text) = .ok listing) ∨
    ∃ kind expected found, parse dialect (Text.firstLines (fault.line - 1) text) =
      .error ⟨fault.line, .truncatedSection kind expected found⟩
  /-- Behind the last line only a section can be missed. -/
  finish : fault.line = (Text.lines text.toList).length + 1 →
    ∃ kind expected found, fault.cause = .truncatedSection kind expected found

theorem firstFault_of_line {text : String} {fault : Fault} {before after : List (List Char)}
    {line : List Char} (split : Text.lines text.toList = before ++ line :: after)
    (read : readLines dialect before = .ok reader)
    (refused : reader.step dialect (line, before.length + 1) = .error fault) :
    FirstFault dialect text fault := by
  have number : fault.line = before.length + 1 := line_of_step_error refused
  have size : (Text.lines text.toList).length = before.length + 1 + after.length := by
    rw [split, List.length_append, List.length_cons]
    omega
  have front : (Text.lines text.toList).take before.length = before := by
    rw [split, List.take_left]
  refine ⟨by omega, by omega, ?_, ?_, by omega⟩
  · intro _ other agrees
    have same : (Text.lines other.toList).take (before.length + 1) = before ++ [line] := by
      rw [← number, agrees, number, split, ← List.singleton_append, ← List.append_assoc]
      exact List.take_left' (by simp)
    have whole : Text.lines other.toList =
        before ++ line :: (Text.lines other.toList).drop (before.length + 1) := by
      rw [← List.singleton_append, ← List.append_assoc, ← same, List.take_append_drop]
    exact parse_eq_error_iff.mpr (.line whole read refused)
  · rw [number, Nat.add_sub_cancel]
    exact parse_firstLines (by omega) (front.symm ▸ read)

theorem firstFault_of_finish {text : String} {fault : Fault}
    (read : readLines dialect (Text.lines text.toList) = .ok reader)
    (refused : closePlace ((Text.lines text.toList).length + 1) reader.place = .error fault) :
    FirstFault dialect text fault := by
  obtain ⟨kind, expected, found, rfl⟩ := truncated_of_closePlace refused
  refine ⟨by simp, by simp, fun within => ?_, ?_, fun _ => ⟨kind, expected, found, rfl⟩⟩
  · exact absurd within (Nat.not_succ_le_self _)
  · rw [Nat.add_sub_cancel]
    exact parse_firstLines (Nat.le_refl _) (by rwa [List.take_length])

/-- All instructions are of the dialect. -/
def KnownTo (dialect : Dialect) (function : Function) : Prop :=
  ∀ instruction ∈ function.instructions, (dialect.role? instruction.opcode).isSome

theorem keeps_knownTo (dialect : Dialect) : Keeps dialect (KnownTo dialect) := by
  refine ⟨?_, ?_, ?_⟩
  · intro header instruction member
    cases member
  · intro kind line function known
    cases kind <;> simp only [Function.addEntry]
    · exact known
    · split <;> exact known
    · split <;> exact known
  · intro instruction function inDialect known other member
    rcases List.mem_append.mp member with old | new
    · exact known other old
    · rwa [List.mem_singleton.mp new]

/-- A text that cannot be read fails at its first offending line, and a text that is read has only
instructions of its dialect. -/
theorem parse_stops_at_first_fault (dialect : Dialect) (text : String) :
    (∀ fault, parse dialect text = .error fault → FirstFault dialect text fault) ∧
      ∀ listing, parse dialect text = .ok listing → ∀ function ∈ listing.functions,
        ∀ instruction ∈ function.instructions, (dialect.role? instruction.opcode).isSome := by
  constructor
  · intro fault refused
    cases parse_eq_error_iff.mp refused with
    | line split read refused => exact firstFault_of_line split read refused
    | finish read refused => exact firstFault_of_finish read refused
  · intro listing read
    exact (keeps_knownTo dialect).parse read

/-- The section of the locals announces two entries and has one. -/
def cutShort : String :=
  Text.unlines ["main <t.lua:0,0>", "1 [1] RETURN 0 1", "locals (2)", "0 a 1 2", "upvalues (0)"]

/-- This shows at the next header, whatever follows. -/
theorem cutShort_fault_persists :
    parse .lua51 cutShort = .error ⟨5, .truncatedSection .locals 2 1⟩ ∧
      ∀ other : String, (Text.lines other.toList).take 5 = (Text.lines cutShort.toList).take 5 →
        parse .lua51 other = .error ⟨5, .truncatedSection .locals 2 1⟩ := by
  have refused : parse .lua51 cutShort = .error ⟨5, .truncatedSection .locals 2 1⟩ := rfl
  exact ⟨refused, ((parse_stops_at_first_fault .lua51 cutShort).1 _ refused).persists (by decide)⟩

end Listing

end GlobalAudit
