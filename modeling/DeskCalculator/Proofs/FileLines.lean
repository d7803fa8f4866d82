import DeskCalculator.CommandLine
import DeskCalculator.Proofs.Outcome

namespace DeskCalculator
namespace CommandLine

/-!
# Files line by line

A file is read one line at a time, and a line does not know of the others.  So a
file cut at a line feed is reported on as its two parts are, one after the other:
on either stream the second part follows the first, and the command fails exactly
if it fails on one of the parts.

The cut may be anywhere.  Lines are trimmed and blank lines do not count, so it
makes no difference whether a part begins or ends with a line feed, a carriage
return or white space, or is empty.
-/

/-- The pieces between line feeds; there is one more piece than line feeds. -/
def splitLines : List Char -> List (List Char)
  | [] => [[]]
  | character :: rest =>
      if character = '\n' then [] :: splitLines rest else consFirst character (splitLines rest)

/-- There is always a piece, if only an empty one. -/
theorem splitLines_ne_nil (characters : List Char) : splitLines characters ≠ [] := by
  cases characters with
  | nil => exact List.cons_ne_nil _ _
  | cons character rest =>
      rw [splitLines]
      split
      · exact List.cons_ne_nil _ _
      · cases splitLines rest <;> exact List.cons_ne_nil _ _

theorem consFirst_append (character : Char) {first : List (List Char)} (nonempty : first ≠ [])
    (second : List (List Char)) :
    consFirst character (first ++ second) = consFirst character first ++ second := by
  cases first with
  | nil => exact absurd rfl nonempty
  | cons line others => rfl

/-- Two parts joined by a line feed have the pieces of both. -/
theorem splitLines_append (first second : List Char) :
    splitLines (first ++ '\n' :: second) = splitLines first ++ splitLines second := by
  induction first with
  | nil => rfl
  | cons character rest ih =>
      rw [List.cons_append, splitLines, splitLines, ih]
      split
      · rfl
      · exact consFirst_append character (splitLines_ne_nil rest) _

/-- The lines that pieces stand for.  A piece before a line feed is a line, less a
carriage return at its end, and the last piece is one unless it is empty. -/
inductive AreLinesOf : List (List Char) -> List (List Char) -> Prop
  | nothing : AreLinesOf [] [[]]
  | last (line : List Char) : AreLinesOf [line] [line]
  | ended (line : List Char) {others pieces : List (List Char)} :
      AreLinesOf others pieces -> AreLinesOf (line :: others) (line :: pieces)
  | returned (line : List Char) {others pieces : List (List Char)} :
      AreLinesOf others pieces -> AreLinesOf (line :: others) ((line ++ ['\r']) :: pieces)

theorem areLinesOf_splitLines (characters : List Char) :
    AreLinesOf (lines characters) (splitLines characters) := by
  induction characters using lines.induct with
  | case1 => exact .nothing
  | case2 rest ih => exact .ended [] ih
  | case3 rest ih => exact .returned [] ih
  | case4 character rest notFeed notReturn ih =>
      have feed : ¬ character = '\n' := notFeed
      rw [lines.eq_4 _ _ notFeed notReturn, splitLines, if_neg feed]
      generalize lines rest = found at ih ⊢
      generalize splitLines rest = pieces at ih ⊢
      cases ih with
      | nothing => exact .last [character]
      | last line => exact .last (character :: line)
      | ended line later => exact .ended (character :: line) later
      | returned line later => exact .returned (character :: line) later

/-- White space at the end of a line is trimmed. -/
theorem trimChars_append_white (line : List Char) {character : Char}
    (white : isWhiteSpace character = true) :
    trimChars (line ++ [character]) = trimChars line := by
  rw [trimChars, trimChars, List.dropWhile_append]
  split
  · next allWhite => simp [white, List.isEmpty_iff.mp allWhite]
  · simp [white]

/-- What is left of several lines when they are trimmed and the empty ones dropped. -/
def visibleLines (pieces : List (List Char)) : List (List Char) :=
  (pieces.map trimChars).filter fun line => !line.isEmpty

theorem visibleLines_append (first second : List (List Char)) :
    visibleLines (first ++ second) = visibleLines first ++ visibleLines second := by
  rw [visibleLines, List.map_append, List.filter_append]
  rfl

/-- Once they are trimmed, lines do not differ from the pieces they are. -/
theorem AreLinesOf.visibleLines_eq {lines pieces : List (List Char)}
    (areLines : AreLinesOf lines pieces) : visibleLines lines = visibleLines pieces := by
  induction areLines with
  | nothing => rfl
  | last line => rfl
  | ended line _ ih =>
      simp only [visibleLines, List.map_cons, List.filter_cons] at ih ⊢
      rw [ih]
  | returned line _ ih =>
      simp only [visibleLines, List.map_cons, List.filter_cons] at ih ⊢
      rw [ih, trimChars_append_white line (by decide)]

theorem trimmedLines_eq (text : String) :
    trimmedLines text = (visibleLines (splitLines text.toList)).map String.ofList := by
  rw [← (areLinesOf_splitLines text.toList).visibleLines_eq]
  rfl

/-- The lines of a text cut at a line feed are those of the parts. -/
theorem trimmedLines_append (first second : String) :
    trimmedLines (first ++ "\n" ++ second) = trimmedLines first ++ trimmedLines second := by
  have cut : (first ++ "\n" ++ second).toList = first.toList ++ '\n' :: second.toList := by
    rw [String.toList_append, String.toList_append, List.append_assoc]
    rfl
  rw [trimmedLines_eq, cut, splitLines_append, visibleLines_append, List.map_append,
    ← trimmedLines_eq, ← trimmedLines_eq]

namespace Report

theorem linesText_append (first second : List String) :
    linesText (first ++ second) = linesText first ++ linesText second := by
  simp only [linesText, List.map_append, String.join_append]

@[simp]
theorem output_append (earlier later : Report) :
    (earlier ++ later).output = earlier.output ++ later.output :=
  rfl

@[simp]
theorem errors_append (earlier later : Report) :
    (earlier ++ later).errors = earlier.errors ++ later.errors :=
  rfl

theorem outputText_append (earlier later : Report) :
    (earlier ++ later).outputText = earlier.outputText ++ later.outputText := by
  rw [outputText, output_append, linesText_append]
  rfl

theorem errorText_append (earlier later : Report) :
    (earlier ++ later).errorText = earlier.errorText ++ later.errorText := by
  rw [errorText, errors_append, linesText_append]
  rfl

/-- Errors add up: one that has been reported is not taken back. -/
theorem failed_append (earlier later : Report) :
    (earlier ++ later).failed = (earlier.failed || later.failed) := by
  rw [failed, failed, failed, errors_append]
  cases earlier.errors <;> rfl

theorem exitCode_ne_zero_iff (report : Report) :
    report.exitCode ≠ 0 ↔ report.failed = true := by
  cases failed : report.failed <;> simp [exitCode, failed]

/-- Several reports one after the other may be cut between two of them. -/
theorem concat_append (earlier later : List Report) :
    concat (earlier ++ later) = concat earlier ++ concat later := by
  induction earlier with
  | nil => rfl
  | cons report reports ih =>
      have assoc : report ++ (concat reports ++ concat later) =
          report ++ concat reports ++ concat later := by
        change Report.mk _ _ = Report.mk _ _
        simp only [output_append, errors_append, List.append_assoc]
      calc concat (report :: reports ++ later)
          = report ++ concat (reports ++ later) := rfl
        _ = report ++ (concat reports ++ concat later) := by rw [ih]
        _ = concat (report :: reports) ++ concat later := assoc

end Report

/-- A file cut at a line feed is reported on part by part. -/
theorem fileReport_append (calculator : Calculator) (preview : Bool) (first second : String) :
    fileReport calculator preview (first ++ "\n" ++ second) =
      fileReport calculator preview first ++ fileReport calculator preview second := by
  rw [fileReport, trimmedLines_append, List.map_append, Report.concat_append]
  rfl

/-- Arguments that do not ask for the functions are accepted only with a text,
wherever the depth comes from. -/
theorem text?_of_readArguments {arguments : List String} {environmentDepth : Option String}
    {options : Options} (accepted : readArguments arguments environmentDepth = .ok options)
    (unlisted : Flag.functions ∉ options.flags) :
    Exists fun text : String => options.text? = some text := by
  have checked : forall candidate : Options,
      (do if candidate.text?.isNone && !candidate.flags.contains .functions then
            throw (.misuse .missingText)
          return candidate : Except Interruption Options) = .ok options ->
      Exists fun text : String => options.text? = some text := by
    intro candidate passed
    split at passed
    · cases passed
    · rename_i given
      cases passed
      exact Option.ne_none_iff_exists'.mp (by simpa [unlisted] using given)
  rw [readArguments] at accepted
  obtain ⟨progress, -, accepted⟩ := Outcome.bind_eq_ok_iff.mp accepted
  dsimp only at accepted
  split at accepted
  · cases accepted
  · split at accepted
    · obtain ⟨depth, -, accepted⟩ := Outcome.bind_eq_ok_iff.mp accepted
      exact checked _ accepted
    · exact checked _ accepted

/-- With a text and without the functions, a file is read. -/
theorem Options.plan_eq_fromFile {options : Options} {path : String}
    (given : options.text? = some path) (fromFile : Flag.file ∈ options.flags)
    (unlisted : Flag.functions ∉ options.flags) :
    Exists fun calculator : Calculator => Exists fun preview : Bool =>
      options.plan = .fromFile path (readReport calculator preview path) := by
  rw [← List.contains_iff_mem] at fromFile unlisted
  rw [Options.plan, given]
  dsimp only
  rw [if_neg unlisted, if_pos fromFile]
  exact ⟨_, _, rfl⟩

/-- No line of a file depends on another.  For a file of two parts either stream has
what it has for the first part and then what it has for the second, and the command
fails exactly if it fails on one of them.  This holds for all arguments that name a
file and do not ask for the functions, with every depth that may be set and with or
without previews. -/
theorem file_is_read_line_by_line (arguments : List String) (environmentDepth : Option String)
    (options : Options) (accepted : readArguments arguments environmentDepth = .ok options)
    (fromFile : Flag.file ∈ options.flags) (unlisted : Flag.functions ∉ options.flags) :
    Exists fun path : String => Exists fun report : Except String String -> Report =>
      options.text? = some path ∧ plan arguments environmentDepth = .fromFile path report ∧
        forall first second : String,
          (report (.ok (first ++ "\n" ++ second))).outputText =
              (report (.ok first)).outputText ++ (report (.ok second)).outputText ∧
            (report (.ok (first ++ "\n" ++ second))).errorText =
              (report (.ok first)).errorText ++ (report (.ok second)).errorText ∧
            ((report (.ok (first ++ "\n" ++ second))).exitCode ≠ 0 ↔
              (report (.ok first)).exitCode ≠ 0 ∨ (report (.ok second)).exitCode ≠ 0) := by
  obtain ⟨path, given⟩ := text?_of_readArguments accepted unlisted
  obtain ⟨calculator, preview, planned⟩ := Options.plan_eq_fromFile given fromFile unlisted
  refine ⟨path, readReport calculator preview path, given, ?_, fun first second => ?_⟩
  · rw [plan, accepted]
    exact planned
  · have appended : readReport calculator preview path (.ok (first ++ "\n" ++ second)) =
        readReport calculator preview path (.ok first) ++
          readReport calculator preview path (.ok second) :=
      fileReport_append calculator preview first second
    rw [appended, Report.exitCode_ne_zero_iff, Report.exitCode_ne_zero_iff,
      Report.exitCode_ne_zero_iff, Report.failed_append, Bool.or_eq_true]
    exact ⟨Report.outputText_append _ _, Report.errorText_append _ _, Iff.rfl⟩

/-- The parts meet at a carriage return and blank lines.  In the second one a line
that nests too deeply stands before one that does not. -/
theorem file_is_read_line_by_line_blank :
    let options : Options := ⟨[.file], some 2, some "in.txt"⟩
    readArguments ["-f", "--max-depth=2", "in.txt"] none = .ok options ∧
      Flag.file ∈ options.flags ∧ Flag.functions ∉ options.flags ∧
        Exists fun report : Except String String -> Report =>
          plan ["-f", "--max-depth=2", "in.txt"] none = .fromFile "in.txt" report ∧
            (report (.ok ("1 + 1\r\n \t\r" ++ "\n" ++ "\n(((3)))\n4 × 5\r"))).outputText =
              "2\n20\n" ∧
            (report (.ok ("1 + 1\r\n \t\r" ++ "\n" ++ "\n(((3)))\n4 × 5\r"))).errorText =
              "ParseError: Error at position 2: Expression nests deeper than the limit of 2.\n" ∧
            (report (.ok ("1 + 1\r\n \t\r" ++ "\n" ++ "\n(((3)))\n4 × 5\r"))).exitCode ≠ 0 := by
  have accepted : readArguments ["-f", "--max-depth=2", "in.txt"] none =
      .ok ⟨[.file], some 2, some "in.txt"⟩ := by decide +kernel
  have fromFile : Flag.file ∈ [Flag.file] := List.mem_singleton_self _
  have unlisted : Flag.functions ∉ [Flag.file] := by decide
  have known : plan ["-f", "--max-depth=2", "in.txt"] none =
      .fromFile "in.txt" (readReport ⟨2⟩ false "in.txt") := by
    rw [plan, accepted]
    rfl
  obtain ⟨path, report, -, planned, appends⟩ :=
    file_is_read_line_by_line _ _ _ accepted fromFile unlisted
  obtain ⟨rfl, rfl⟩ := Plan.fromFile.inj (planned.symm.trans known)
  obtain ⟨output, errors, failed⟩ := appends "1 + 1\r\n \t\r" "\n(((3)))\n4 × 5\r"
  refine ⟨accepted, fromFile, unlisted, _, known, output.trans ?_, errors.trans ?_,
    failed.mpr (.inr ?_)⟩
  all_goals decide +kernel

end CommandLine
end DeskCalculator
