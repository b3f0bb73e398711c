import Mathlib.Data.List.Basic
import Mathlib.Data.List.DropRight
import Mathlib.Tactic.Common

/-!
# The accessibility flag of a Chromium launcher

`withAccessibilityFlag` puts Chromium's accessibility flag into the Exec line of a desktop entry, by position in the
line, where the arguments `execArguments` reads from it say: past the program it starts (`launchOf`), and before `--`
and the field codes. Texts are lists of UTF-16 code units, as in a `QString`. What the file system says is a
parameter, `Files`.

* `readArguments_append_space` and `readArguments_split`: a line can be cut after a closed part, and where one of its
  arguments starts.
* `launchOf_insert`: what comes after the launch does not change it.
* **`flag_reaches_app`**: the flag is an argument of the app, once, and nothing else changes (`FlagReachesApp`).
-/

namespace Speecher.ChromiumLaunchers

/-! ## The model -/

abbrev QString := List UInt16

/-- The code unit of a character of the basic plane. -/
def unit (c : Char) : UInt16 := UInt16.ofNat c.toNat

def units (text : String) : QString := text.toList.map unit

def accessibilityFlag : QString := units "--force-renderer-accessibility"

def chromiumFlatpaks : List QString :=
  ["com.google.Chrome", "org.chromium.Chromium", "com.brave.Browser", "com.microsoft.Edge", "com.visualstudio.code",
    "com.slack.Slack", "com.discordapp.Discord", "md.obsidian.Obsidian"].map units

def chromiumWrappers : List QString := ["chromium", "chromium-browser"].map units

structure ExecArgument where
  start : ℕ
  text : QString
  deriving DecidableEq

def ExecArgument.append (argument : ExecArgument) (c : UInt16) : ExecArgument :=
  { argument with text := argument.text ++ [c] }

/-- The loop of `execArguments` from the `i`-th unit on: the arguments from the one it is in. -/
def readArguments (i : ℕ) (quoted : Bool) (inArgument : Option ExecArgument) : QString → List ExecArgument
  | [] => inArgument.toList
  | c :: rest =>
    if c = unit ' ' ∧ quoted = false then inArgument.toList ++ readArguments (i + 1) quoted none rest
    else
      let argument := inArgument.getD ⟨i, []⟩
      if c = unit '"' then readArguments (i + 1) (!quoted) (some argument) rest
      else if c = unit '\\' ∧ quoted = true then
        match rest with
        | [] => [argument.append c]
        | next :: rest => readArguments (i + 2) quoted (some (argument.append next)) rest
      else readArguments (i + 1) quoted (some (argument.append c)) rest

def execArguments (execLine : QString) : List ExecArgument := readArguments 0 false none execLine

/-- Whether the loop of `execArguments` ends inside double quotes. -/
def quotedAfter (quoted : Bool) : QString → Bool
  | [] => quoted
  | c :: rest =>
    if c = unit '"' then quotedAfter (!quoted) rest
    else if c = unit '\\' ∧ quoted = true then
      match rest with
      | [] => quoted
      | _ :: rest => quotedAfter quoted rest
    else quotedAfter quoted rest

def isFieldCode (argument : QString) : Bool :=
  (argument.length == 2 && (units "%").isPrefixOf argument && argument != units "%%") ||
    (units "@@").isPrefixOf argument

structure Launch where
  program : Option ℕ := none
  flatpakApp : Option ℕ := none
  directory : QString := []
  searchPath : List QString := []
  deriving DecidableEq

/-- `QFileInfo::fileName`. -/
def fileName (path : QString) : QString := path.rtakeWhile (· != unit '/')

/-- The options and assignments of an `env` prefix, from the `i`-th argument on, to the program. -/
def readEnv (i : ℕ) (options : Bool) (launch : Launch) : List QString → Launch
  | [] => launch
  | argument :: rest =>
    if options = true ∧ argument = units "--" then readEnv (i + 1) false launch rest
    else if options = true ∧ (argument = units "-C" ∨ argument = units "--chdir") then
      match rest with
      | [] => { launch with directory := [] }
      | value :: rest => readEnv (i + 2) options { launch with directory := value } rest
    else if options = true ∧ (argument = units "-u" ∨ argument = units "--unset") then
      match rest with
      | [] => launch
      | _ :: rest => readEnv (i + 2) options launch rest
    else if units "PATH=" <+: argument then
      readEnv (i + 1) options { launch with searchPath := (argument.drop 5).splitOn (unit ':') } rest
    else if ¬ (options = true ∧ units "-" <+: argument) ∧ unit '=' ∉ argument then
      { launch with program := some i }
    else readEnv (i + 1) options launch rest

def isRun (argument : QString) : Bool := argument == units "run"

def isAppId (argument : QString) : Bool := !isRun argument && !(units "-").isPrefixOf argument

/-- The app id a flatpak command runs, among its arguments. -/
def flatpakAppOf (arguments : List QString) : Option ℕ :=
  (arguments.findIdx? isRun).bind fun run => ((arguments.drop run).findIdx? isAppId).map (· + run)

/-- The program a line starts, past an `env` prefix. -/
def programOf : List QString → Launch
  | [] => {}
  | first :: rest => if fileName first = units "env" then readEnv 1 true {} rest else { program := some 0 }

/-- `launchOf`, which reads the texts of the arguments alone. -/
def launchOf (arguments : List QString) : Launch :=
  let launch := programOf arguments
  match launch.program with
  | none => launch
  | some i =>
    { launch with
      flatpakApp :=
        if fileName (arguments.getD i []) = units "flatpak" then
          (flatpakAppOf (arguments.drop i)).map (· + i)
        else none }

def textsOf (arguments : List ExecArgument) : List QString := arguments.map ExecArgument.text

/-- What the file system and `PATH` say. -/
structure Files where
  absoluteFilePath : QString → QString → QString
  findExecutable : QString → List QString → QString
  canonicalFilePath : QString → QString
  absoluteDir : QString → QString
  holdsChromium : QString → Bool

def launchesChromium (files : Files) (execLine : QString) : Bool :=
  let arguments := textsOf (execArguments execLine)
  let launch := launchOf arguments
  match launch.program with
  | none => false
  | some i =>
    match launch.flatpakApp with
    | some app => arguments.getD app [] ∈ chromiumFlatpaks
    | none =>
      let program := arguments.getD i []
      if fileName program ∈ chromiumWrappers then true
      else
        let searchPath := launch.searchPath.map fun entry =>
          files.absoluteFilePath launch.directory (if entry.isEmpty then units "." else entry)
        let path :=
          if unit '/' ∈ program then files.absoluteFilePath launch.directory program
          else files.findExecutable program searchPath
        let resolved := files.canonicalFilePath path
        !resolved.isEmpty && files.holdsChromium (files.absoluteDir resolved)

/-- An argument that files follow: `--` or a field code. -/
def endsOptions (argument : QString) : Bool := argument == units "--" || isFieldCode argument

/-- The first argument past what the line starts. -/
def Launch.next (launch : Launch) : ℕ := max (launch.program.elim 0 (· + 1)) (launch.flatpakApp.elim 0 (· + 1))

def withAccessibilityFlag (execLine : QString) : QString :=
  let arguments := execArguments execLine
  if accessibilityFlag ∈ textsOf arguments then execLine
  else
    match (arguments.drop (launchOf (textsOf arguments)).next).find? fun argument => endsOptions argument.text with
    | none => execLine ++ unit ' ' :: accessibilityFlag
    | some argument =>
      execLine.take argument.start ++ (accessibilityFlag ++ unit ' ' :: execLine.drop argument.start)

/-! ## Cutting a line -/

section Reading

variable {i : ℕ} {quoted : Bool} {inArgument : Option ExecArgument} {c next : UInt16} {rest : QString}

/-- A unit that is part of an argument as it stands. -/
structure Plain (quoted : Bool) (c : UInt16) : Prop where
  space : ¬ (c = unit ' ' ∧ quoted = false)
  quote : c ≠ unit '"'
  escape : ¬ (c = unit '\\' ∧ quoted = true)

theorem unit_cases (quoted : Bool) (c : UInt16) :
    c = unit ' ' ∧ quoted = false ∨ c = unit '"' ∨ c = unit '\\' ∧ quoted = true ∨ Plain quoted c := by
  by_cases hspace : c = unit ' ' ∧ quoted = false
  · exact .inl hspace
  by_cases hquote : c = unit '"'
  · exact .inr (.inl hquote)
  by_cases hescape : c = unit '\\' ∧ quoted = true
  · exact .inr (.inr (.inl hescape))
  · exact .inr (.inr (.inr ⟨hspace, hquote, hescape⟩))

theorem readArguments_nil : readArguments i quoted inArgument [] = inArgument.toList := rfl

theorem readArguments_cons : readArguments i quoted inArgument (c :: rest) =
    if c = unit ' ' ∧ quoted = false then inArgument.toList ++ readArguments (i + 1) quoted none rest
    else if c = unit '"' then readArguments (i + 1) (!quoted) (some (inArgument.getD ⟨i, []⟩)) rest
    else if c = unit '\\' ∧ quoted = true then
      match rest with
      | [] => [(inArgument.getD ⟨i, []⟩).append c]
      | next :: rest => readArguments (i + 2) quoted (some ((inArgument.getD ⟨i, []⟩).append next)) rest
    else readArguments (i + 1) quoted (some ((inArgument.getD ⟨i, []⟩).append c)) rest := by
  cases rest <;> rfl

theorem readArguments_space :
    readArguments i false inArgument (unit ' ' :: rest) =
      inArgument.toList ++ readArguments (i + 1) false none rest := by
  rw [readArguments_cons, if_pos ⟨rfl, rfl⟩]

theorem readArguments_quote : readArguments i quoted inArgument (unit '"' :: rest) =
    readArguments (i + 1) (!quoted) (some (inArgument.getD ⟨i, []⟩)) rest := by
  rw [readArguments_cons, if_neg (fun h => absurd h.1 (by decide)), if_pos rfl]

theorem readArguments_escape : readArguments i true inArgument (unit '\\' :: next :: rest) =
    readArguments (i + 2) true (some ((inArgument.getD ⟨i, []⟩).append next)) rest := by
  rw [readArguments_cons, if_neg (fun h => absurd h.1 (by decide)), if_neg (by decide), if_pos ⟨rfl, rfl⟩]

theorem readArguments_escape_end : readArguments i true inArgument [unit '\\'] =
    [(inArgument.getD ⟨i, []⟩).append (unit '\\')] := by
  rw [readArguments_cons, if_neg (fun h => absurd h.1 (by decide)), if_neg (by decide), if_pos ⟨rfl, rfl⟩]

theorem readArguments_plain (h : Plain quoted c) : readArguments i quoted inArgument (c :: rest) =
    readArguments (i + 1) quoted (some ((inArgument.getD ⟨i, []⟩).append c)) rest := by
  rw [readArguments_cons, if_neg h.space, if_neg h.quote, if_neg h.escape]

theorem quotedAfter_cons : quotedAfter quoted (c :: rest) =
    if c = unit '"' then quotedAfter (!quoted) rest
    else if c = unit '\\' ∧ quoted = true then
      match rest with
      | [] => quoted
      | _ :: rest => quotedAfter quoted rest
    else quotedAfter quoted rest := by
  cases rest <;> rfl

theorem quotedAfter_quote : quotedAfter quoted (unit '"' :: rest) = quotedAfter (!quoted) rest := by
  rw [quotedAfter_cons, if_pos rfl]

theorem quotedAfter_escape : quotedAfter true (unit '\\' :: next :: rest) = quotedAfter true rest := by
  rw [quotedAfter_cons, if_neg (by decide), if_pos ⟨rfl, rfl⟩]

theorem quotedAfter_escape_end : quotedAfter true [unit '\\'] = true := by
  rw [quotedAfter_cons, if_neg (by decide), if_pos ⟨rfl, rfl⟩]

theorem quotedAfter_space : quotedAfter false (unit ' ' :: rest) = quotedAfter false rest := by
  rw [quotedAfter_cons, if_neg (by decide), if_neg fun h => absurd h.2 Bool.false_ne_true]

theorem quotedAfter_plain (h : Plain quoted c) : quotedAfter quoted (c :: rest) = quotedAfter quoted rest := by
  rw [quotedAfter_cons, if_neg h.quote, if_neg h.escape]

/-- A closed part of a line is read apart from what follows it after a space. -/
theorem readArguments_append_space (more : QString) : ∀ (line : QString) (i : ℕ) (quoted : Bool)
    (inArgument : Option ExecArgument), quotedAfter quoted line = false →
      readArguments i quoted inArgument (line ++ unit ' ' :: more) =
        readArguments i quoted inArgument line ++ readArguments (i + line.length + 1) false none more
  | [], i, quoted, inArgument, h => by
    obtain rfl : quoted = false := h
    exact readArguments_space
  | c :: line, i, quoted, inArgument, h => by
    have hindex (k : ℕ) : i + 1 + k + 1 = i + (k + 1) + 1 := by omega
    rcases unit_cases quoted c with ⟨rfl, rfl⟩ | rfl | ⟨rfl, rfl⟩ | hplain
    · rw [quotedAfter_space] at h
      rw [List.cons_append, readArguments_space, readArguments_space, readArguments_append_space more line _ _ _ h,
        List.append_assoc, hindex, List.length_cons]
    · rw [quotedAfter_quote] at h
      rw [List.cons_append, readArguments_quote, readArguments_quote, readArguments_append_space more line _ _ _ h,
        hindex, List.length_cons]
    · cases line with
      | nil => exact absurd (quotedAfter_escape_end.symm.trans h) Bool.noConfusion
      | cons next line =>
        have hindex : i + 2 + line.length + 1 = i + (line.length + 1 + 1) + 1 := by omega
        rw [quotedAfter_escape] at h
        rw [List.cons_append, List.cons_append, readArguments_escape, readArguments_escape,
          readArguments_append_space more line _ _ _ h, hindex, List.length_cons, List.length_cons]
    · rw [quotedAfter_plain hplain] at h
      rw [List.cons_append, readArguments_plain hplain, readArguments_plain hplain,
        readArguments_append_space more line _ _ _ h, hindex, List.length_cons]
  termination_by line => line.length

/-- What is read does not depend on where the reading starts, but for the positions. -/
theorem textsOf_readArguments : ∀ (line : QString) (i j : ℕ) (quoted : Bool)
    (inArgument inArgument' : Option ExecArgument),
    inArgument.map ExecArgument.text = inArgument'.map ExecArgument.text →
      textsOf (readArguments i quoted inArgument line) = textsOf (readArguments j quoted inArgument' line)
  | [], i, j, quoted, inArgument, inArgument', h => by
    cases inArgument <;> cases inArgument' <;> simp_all [readArguments, textsOf]
  | c :: line, i, j, quoted, inArgument, inArgument', h => by
    have hcurrent : textsOf inArgument.toList = textsOf inArgument'.toList := by
      cases inArgument <;> cases inArgument' <;> simp_all [textsOf]
    have htext : (inArgument.getD ⟨i, []⟩).text = (inArgument'.getD ⟨j, []⟩).text := by
      cases inArgument <;> cases inArgument' <;> simp_all
    have happend (next : UInt16) : (some ((inArgument.getD ⟨i, []⟩).append next)).map ExecArgument.text =
        (some ((inArgument'.getD ⟨j, []⟩).append next)).map ExecArgument.text := by
      simp only [Option.map_some, ExecArgument.append, htext]
    rcases unit_cases quoted c with ⟨rfl, rfl⟩ | rfl | ⟨rfl, rfl⟩ | hplain
    · rw [readArguments_space, readArguments_space, textsOf, textsOf, List.map_append, List.map_append, ← textsOf,
        ← textsOf, ← textsOf, ← textsOf, hcurrent, textsOf_readArguments line (i + 1) (j + 1) false none none rfl]
    · rw [readArguments_quote, readArguments_quote]
      exact textsOf_readArguments line _ _ _ _ _ (congrArg some htext)
    · cases line with
      | nil =>
        rw [readArguments_escape_end, readArguments_escape_end]
        simp only [textsOf, List.map_singleton, ExecArgument.append, htext]
      | cons next line =>
        rw [readArguments_escape, readArguments_escape]
        exact textsOf_readArguments line _ _ _ _ _ (happend next)
    · rw [readArguments_plain hplain, readArguments_plain hplain]
      exact textsOf_readArguments line _ _ _ _ _ (happend c)
  termination_by line => line.length

/-- An argument that is being read comes first, and stays where it began. -/
theorem head_readArguments : ∀ (line : QString) (i : ℕ) (quoted : Bool) (argument : ExecArgument),
    ∃ text later, readArguments i quoted (some argument) line = ⟨argument.start, text⟩ :: later
  | [], _, _, argument => ⟨argument.text, [], rfl⟩
  | c :: line, i, quoted, argument => by
    rcases unit_cases quoted c with ⟨rfl, rfl⟩ | rfl | ⟨rfl, rfl⟩ | hplain
    · exact ⟨argument.text, _, readArguments_space⟩
    · rw [readArguments_quote]
      exact head_readArguments line _ _ argument
    · cases line with
      | nil => exact ⟨_, [], readArguments_escape_end⟩
      | cons next line =>
        rw [readArguments_escape]
        exact head_readArguments line _ _ (argument.append next)
    · rw [readArguments_plain hplain]
      exact head_readArguments line _ _ (argument.append c)
  termination_by line => line.length

/-- A line cut where one of its arguments starts: what comes before is read the same whatever follows. -/
def CutsBefore (i : ℕ) (quoted : Bool) (inArgument : Option ExecArgument) (line : QString)
    (before : List ExecArgument) (start : ℕ) : Prop :=
  ∃ front back, line = front ++ back ∧ start = i + front.length ∧
    ∀ more, readArguments i quoted inArgument (front ++ more) = before ++ readArguments start false none more

/-- Units that go on with an argument, or start one. -/
theorem cutsBefore_of_step (passed : QString) {i : ℕ} {quoted quoted' : Bool} {inArgument : Option ExecArgument}
    {line : QString} {current : ExecArgument} {before after : List ExecArgument} {argument : ExecArgument}
    (hoff : inArgument = none → quoted = false) (hnew : inArgument = none ∨ before ≠ [])
    (hstep : ∀ more, readArguments i quoted inArgument (passed ++ more) =
      readArguments (i + passed.length) quoted' (some current) more)
    (hstart : inArgument = none → current.start = i)
    (hcuts : before ≠ [] → CutsBefore (i + passed.length) quoted' (some current) line before argument.start)
    (h : readArguments i quoted inArgument (passed ++ line) = before ++ argument :: after) :
    CutsBefore i quoted inArgument (passed ++ line) before argument.start := by
  cases before with
  | nil =>
    have hnone := hnew.resolve_right fun hne => hne rfl
    obtain ⟨text, later, hhead⟩ := head_readArguments line (i + passed.length) quoted' current
    have hargument : argument.start = i := by
      rw [hstep, hhead, List.nil_append] at h
      rw [← (List.cons.inj h).1]
      exact hstart hnone
    refine ⟨[], passed ++ line, rfl, hargument, fun more => ?_⟩
    rw [List.nil_append, List.nil_append, hargument, hnone, hoff hnone]
  | cons first before =>
    obtain ⟨front, back, hline, hposition, hmore⟩ := hcuts (List.cons_ne_nil _ _)
    refine ⟨passed ++ front, back, by rw [hline, List.append_assoc], ?_, fun more => ?_⟩
    · rw [hposition, List.length_append, Nat.add_assoc]
    · rw [List.append_assoc, hstep, hmore]

theorem readArguments_split : ∀ (line : QString) (i : ℕ) (quoted : Bool) (inArgument : Option ExecArgument)
    (before after : List ExecArgument) (argument : ExecArgument), (inArgument = none → quoted = false) →
      (inArgument = none ∨ before ≠ []) → readArguments i quoted inArgument line = before ++ argument :: after →
        CutsBefore i quoted inArgument line before argument.start
  | [], i, quoted, inArgument, before, after, argument, _, hnew, h => by
    cases inArgument with
    | none => exact absurd h.symm (List.append_ne_nil_of_right_ne_nil _ (List.cons_ne_nil _ _))
    | some current =>
      cases before with
      | nil => exact absurd rfl (hnew.resolve_left (Option.some_ne_none _))
      | cons first before =>
        exact absurd (List.cons.inj h).2.symm (List.append_ne_nil_of_right_ne_nil _ (List.cons_ne_nil _ _))
  | c :: line, i, quoted, inArgument, before, after, argument, hoff, hnew, h => by
    have hstart (hnone : inArgument = none) : (inArgument.getD ⟨i, []⟩).start = i := by
      rw [hnone]
      rfl
    rcases unit_cases quoted c with ⟨rfl, rfl⟩ | rfl | ⟨rfl, rfl⟩ | hplain
    · rw [readArguments_space] at h
      cases inArgument with
      | none =>
        obtain ⟨front, back, hline, hposition, hmore⟩ :=
          readArguments_split line (i + 1) false none before after argument (fun _ => rfl) (.inl rfl) h
        refine ⟨unit ' ' :: front, back, by rw [hline, List.cons_append], ?_, fun more => ?_⟩
        · rw [hposition, List.length_cons]
          omega
        · rw [List.cons_append, readArguments_space, hmore]
          rfl
      | some current =>
        cases before with
        | nil => exact absurd rfl (hnew.resolve_left (Option.some_ne_none _))
        | cons first before =>
          obtain ⟨hfirst, hrest⟩ := List.cons.inj h
          obtain ⟨front, back, hline, hposition, hmore⟩ :=
            readArguments_split line (i + 1) false none before after argument (fun _ => rfl) (.inl rfl) hrest
          refine ⟨unit ' ' :: front, back, by rw [hline, List.cons_append], ?_, fun more => ?_⟩
          · rw [hposition, List.length_cons]
            omega
          · rw [List.cons_append, readArguments_space, hmore, ← hfirst]
            rfl
    · refine cutsBefore_of_step [unit '"'] hoff hnew (fun more => readArguments_quote) hstart (fun hne => ?_) h
      rw [readArguments_quote] at h
      exact readArguments_split line _ _ _ before after argument (fun hnone => absurd hnone (Option.some_ne_none _))
        (.inr hne) h
    · cases line with
      | nil =>
        rw [readArguments_escape_end] at h
        cases before with
        | nil =>
          have hnone := hnew.resolve_right fun hne => hne rfl
          exact absurd (hoff hnone) Bool.noConfusion
        | cons first before =>
          exact absurd (List.cons.inj h).2.symm (List.append_ne_nil_of_right_ne_nil _ (List.cons_ne_nil _ _))
      | cons next line =>
        refine cutsBefore_of_step [unit '\\', next] hoff hnew (fun more => readArguments_escape) hstart
          (fun hne => ?_) h
        rw [readArguments_escape] at h
        exact readArguments_split line _ _ _ before after argument (fun hnone => absurd hnone (Option.some_ne_none _))
          (.inr hne) h
    · refine cutsBefore_of_step [c] hoff hnew (fun more => readArguments_plain hplain) hstart (fun hne => ?_) h
      rw [readArguments_plain hplain] at h
      exact readArguments_split line _ _ _ before after argument (fun hnone => absurd hnone (Option.some_ne_none _))
        (.inr hne) h
  termination_by line => line.length

end Reading

/-! ## The launch -/

section Launching

/-- The program is no earlier than where the prefix is read from. -/
theorem le_program_of_readEnv : ∀ (arguments : List QString) (i : ℕ) (options : Bool) (launch : Launch) {p : ℕ},
    launch.program = none → (readEnv i options launch arguments).program = some p → i ≤ p
  | [], i, options, launch, p, hnone, h => absurd (hnone.symm.trans h) (Option.some_ne_none p).symm
  | argument :: rest, i, options, launch, p, hnone, h => by
    rw [readEnv.eq_def] at h
    dsimp only at h
    split_ifs at h
    · exact Nat.le_of_succ_le (le_program_of_readEnv rest _ _ _ hnone h)
    · cases rest with
      | nil => exact absurd (hnone.symm.trans h) (Option.some_ne_none p).symm
      | cons value rest =>
        exact (Nat.le_add_right i 2).trans
          (le_program_of_readEnv rest (i + 2) options { launch with directory := value } hnone h)
    · cases rest with
      | nil => exact absurd (hnone.symm.trans h) (Option.some_ne_none p).symm
      | cons value rest => exact (Nat.le_add_right i 2).trans (le_program_of_readEnv rest _ _ _ hnone h)
    · exact Nat.le_of_succ_le (le_program_of_readEnv rest (i + 1) options
        { launch with searchPath := (argument.drop 5).splitOn (unit ':') } hnone h)
    · exact Nat.le_of_eq (Option.some.inj h)
    · exact Nat.le_of_succ_le (le_program_of_readEnv rest _ _ _ hnone h)
  termination_by arguments => arguments.length

/-- What comes after the program is not read. -/
theorem readEnv_append (back more : List QString) : ∀ (front : List QString) (i : ℕ) (options : Bool)
    (launch : Launch) {p : ℕ}, launch.program = none →
      (readEnv i options launch (front ++ back)).program = some p →
      p < i + front.length → readEnv i options launch (front ++ more) = readEnv i options launch (front ++ back)
  | [], i, options, launch, p, hnone, h, hlt => by
    have hle := le_program_of_readEnv back i options launch hnone h
    rw [List.length_nil, Nat.add_zero] at hlt
    omega
  | argument :: front, i, options, launch, p, hnone, h, hlt => by
    rw [List.cons_append, readEnv.eq_def] at h
    rw [List.cons_append, List.cons_append, readEnv.eq_def,
      readEnv.eq_def i options launch (argument :: (front ++ back))]
    rw [List.length_cons] at hlt
    dsimp only at h ⊢
    split_ifs at h ⊢
    · exact readEnv_append back more front _ _ _ hnone h (by omega)
    · cases front with
      | nil =>
        cases back with
        | nil => exact absurd (hnone.symm.trans h) (Option.some_ne_none p).symm
        | cons value back =>
          have hle := le_program_of_readEnv back (i + 2) options { launch with directory := value } hnone h
          rw [List.length_nil] at hlt
          omega
      | cons value front =>
        rw [List.length_cons] at hlt
        exact readEnv_append back more front _ _ _ hnone h (by omega)
    · cases front with
      | nil =>
        cases back with
        | nil => exact absurd (hnone.symm.trans h) (Option.some_ne_none p).symm
        | cons value back =>
          have hle := le_program_of_readEnv back _ _ _ hnone h
          rw [List.length_nil] at hlt
          omega
      | cons value front =>
        rw [List.length_cons] at hlt
        exact readEnv_append back more front _ _ _ hnone h (by omega)
    · exact readEnv_append back more front _ _ _ hnone h (by omega)
    · rfl
    · exact readEnv_append back more front _ _ _ hnone h (by omega)
  termination_by front => front.length

/-- An option does not change which app a flatpak command runs, unless it comes before it. -/
theorem flatpakAppOf_insert {front back : List QString} {option : QString} (hrun : isRun option = false)
    (happ : isAppId option = false) (h : ∀ app ∈ flatpakAppOf (front ++ back), app < front.length) :
    flatpakAppOf (front ++ option :: back) = flatpakAppOf (front ++ back) := by
  unfold flatpakAppOf at h ⊢
  rw [List.findIdx?_append] at h ⊢
  rw [List.findIdx?_append]
  cases hfront : front.findIdx? isRun with
  | some run =>
    rw [hfront, Option.some_or, Option.bind_some] at h
    rw [Option.some_or, Option.some_or, Option.bind_some, Option.bind_some]
    have hrun : run ≤ front.length := Nat.le_of_lt (List.findIdx?_eq_some_iff_findIdx_eq.mp hfront).1
    have hlength : (front.drop run).length + run = front.length := by
      rw [List.length_drop]
      omega
    rw [List.drop_append_of_le_length hrun, List.findIdx?_append] at h ⊢
    rw [List.drop_append_of_le_length hrun, List.findIdx?_append]
    cases hearly : (front.drop run).findIdx? isAppId with
    | some app => rfl
    | none =>
      rw [hearly, Option.none_or] at h
      rw [Option.none_or, Option.none_or, List.findIdx?_cons, happ]
      cases hlate : back.findIdx? isAppId with
      | none => rfl
      | some app =>
        have hlt := h (app + (front.drop run).length + run) (by rw [hlate]; rfl)
        omega
  | none =>
    rw [hfront, Option.none_or] at h
    rw [Option.none_or, Option.none_or, List.findIdx?_cons, hrun]
    cases hback : back.findIdx? isRun with
    | none => rfl
    | some run =>
      have hdrop (middle : List QString) : (front ++ middle ++ back).drop (run + middle.length + front.length) =
          back.drop run := by
        have hlength : run + middle.length + front.length = (front ++ middle).length + run := by
          rw [List.length_append]
          omega
        rw [hlength, List.drop_append, List.drop_eq_nil_of_le (Nat.le_add_right _ _), Nat.add_sub_cancel_left,
          List.nil_append]
      have hsame := hdrop []
      have hpassed := hdrop [option]
      rw [List.append_nil, List.length_nil, Nat.add_zero] at hsame
      rw [List.append_assoc, List.singleton_append, List.length_singleton] at hpassed
      rw [hback] at h
      simp only [Option.map_some, Option.bind_some, hsame] at h
      simp only [Bool.false_eq_true, if_false, Option.map_some, Option.bind_some, hsame, hpassed]
      cases hlate : (back.drop run).findIdx? isAppId with
      | none => rfl
      | some app =>
        have hlt := h (app + (run + front.length)) (by rw [hlate]; rfl)
        omega

theorem program_of_readEnv_lt : ∀ (arguments : List QString) (i : ℕ) (options : Bool) (launch : Launch) {p : ℕ},
    launch.program = none → (readEnv i options launch arguments).program = some p → p < i + arguments.length
  | [], i, options, launch, p, hnone, h => absurd (hnone.symm.trans h) (Option.some_ne_none p).symm
  | argument :: rest, i, options, launch, p, hnone, h => by
    rw [readEnv.eq_def] at h
    rw [List.length_cons]
    dsimp only at h
    split_ifs at h
    · have hlt := program_of_readEnv_lt rest (i + 1) false launch hnone h
      omega
    · cases rest with
      | nil => exact absurd (hnone.symm.trans h) (Option.some_ne_none p).symm
      | cons value rest =>
        have hlt := program_of_readEnv_lt rest (i + 2) options { launch with directory := value } hnone h
        rw [List.length_cons]
        omega
    · cases rest with
      | nil => exact absurd (hnone.symm.trans h) (Option.some_ne_none p).symm
      | cons value rest =>
        have hlt := program_of_readEnv_lt rest (i + 2) options launch hnone h
        rw [List.length_cons]
        omega
    · have hlt := program_of_readEnv_lt rest (i + 1) options
        { launch with searchPath := (argument.drop 5).splitOn (unit ':') } hnone h
      omega
    · obtain rfl := Option.some.inj h
      omega
    · have hlt := program_of_readEnv_lt rest (i + 1) options launch hnone h
      omega
  termination_by arguments => arguments.length

theorem program_lt {arguments : List QString} {p : ℕ} (h : (programOf arguments).program = some p) :
    p < arguments.length := by
  cases arguments with
  | nil => exact absurd h (Option.some_ne_none p).symm
  | cons first rest =>
    rw [programOf] at h
    rw [List.length_cons]
    split_ifs at h
    · have hlt := program_of_readEnv_lt rest 1 true {} rfl h
      omega
    · obtain rfl := Option.some.inj h
      exact Nat.succ_pos _

theorem flatpakAppOf_lt {arguments : List QString} {app : ℕ} (h : flatpakAppOf arguments = some app) :
    app < arguments.length := by
  obtain ⟨run, hrun, happ⟩ := Option.bind_eq_some_iff.mp h
  obtain ⟨k, hk, rfl⟩ := Option.map_eq_some_iff.mp happ
  have hlt := (List.findIdx?_eq_some_iff_findIdx_eq.mp hk).1
  rw [List.length_drop] at hlt
  omega

/-- What `launchOf` reads, when the line names a program. -/
theorem launchOf_eq {arguments : List QString} {i : ℕ} (h : (programOf arguments).program = some i) :
    launchOf arguments = { programOf arguments with
      flatpakApp :=
        if fileName (arguments.getD i []) = units "flatpak" then (flatpakAppOf (arguments.drop i)).map (· + i)
        else none } := by
  simp only [launchOf, h]

theorem program_launchOf (arguments : List QString) :
    (launchOf arguments).program = (programOf arguments).program := by
  rcases Option.eq_none_or_eq_some (programOf arguments).program with hnone | ⟨i, hsome⟩
  · simp only [launchOf, hnone]
  · rw [launchOf_eq hsome]

/-- The launch lies among the arguments. -/
theorem flatpakApp_lt {arguments : List QString} {i app : ℕ} (hprogram : (launchOf arguments).program = some i)
    (h : (launchOf arguments).flatpakApp = some app) : app < arguments.length := by
  rw [program_launchOf] at hprogram
  rw [launchOf_eq hprogram] at h
  dsimp only at h
  split_ifs at h
  obtain ⟨k, hk, rfl⟩ := Option.map_eq_some_iff.mp h
  have hlt := flatpakAppOf_lt hk
  rw [List.length_drop] at hlt
  omega

theorem next_le {arguments : List QString} {i : ℕ} (h : (launchOf arguments).program = some i) :
    (launchOf arguments).next ≤ arguments.length := by
  refine max_le ?_ ?_
  · rw [h]
    rw [program_launchOf] at h
    exact program_lt h
  · cases happ : (launchOf arguments).flatpakApp with
    | none => exact Nat.zero_le _
    | some app => exact flatpakApp_lt h happ

/-- An option after what a line starts does not change it. -/
theorem launchOf_insert {front back : List QString} {option : QString} {i : ℕ} (hrun : isRun option = false)
    (happ : isAppId option = false) (hprogram : (launchOf (front ++ back)).program = some i)
    (hnext : (launchOf (front ++ back)).next ≤ front.length) :
    launchOf (front ++ option :: back) = launchOf (front ++ back) := by
  have hlt : i < front.length := by
    have hle := (le_max_left _ _).trans hnext
    rwa [hprogram] at hle
  have hold : (programOf (front ++ back)).program = some i := program_launchOf _ ▸ hprogram
  have hsame : programOf (front ++ option :: back) = programOf (front ++ back) := by
    cases front with
    | nil => exact absurd hlt (Nat.not_lt_zero i)
    | cons first front =>
      rw [List.cons_append, programOf] at hold
      rw [List.cons_append, List.cons_append, programOf, programOf]
      rw [List.length_cons] at hlt
      split_ifs at hold ⊢
      · exact readEnv_append back (option :: back) front 1 true {} rfl hold (by omega)
      · rfl
  have happ : flatpakAppOf ((front ++ option :: back).drop i) = flatpakAppOf ((front ++ back).drop i) ∨
      fileName ((front ++ back).getD i []) ≠ units "flatpak" := by
    by_cases hflatpak : fileName ((front ++ back).getD i []) = units "flatpak"
    · refine .inl ?_
      rw [List.drop_append_of_le_length (Nat.le_of_lt hlt), List.drop_append_of_le_length (Nat.le_of_lt hlt)]
      refine flatpakAppOf_insert hrun happ fun app hmem => ?_
      have hlaunched : (launchOf (front ++ back)).flatpakApp = some (app + i) := by
        rw [launchOf_eq hold, if_pos hflatpak, List.drop_append_of_le_length (Nat.le_of_lt hlt), hmem]
        rfl
      have hle := (le_max_right _ _).trans hnext
      rw [hlaunched] at hle
      rw [List.length_drop]
      exact Nat.lt_sub_of_add_lt hle
    · exact .inr hflatpak
  have hprogramText : (front ++ option :: back).getD i [] = (front ++ back).getD i [] := by
    rw [List.getD_eq_getElem?_getD, List.getD_eq_getElem?_getD, List.getElem?_append_left hlt,
      List.getElem?_append_left hlt]
  rw [launchOf_eq hold, launchOf_eq (hsame.symm ▸ hold), hsame, hprogramText]
  rcases happ with happ | hother
  · rw [happ]
  · rw [if_neg hother, if_neg hother]

end Launching

/-! ## The flag -/

section Flag

/-- A text with neither spaces nor quotes is read as it stands. -/
theorem readArguments_text (more : QString) : ∀ (text : QString) (i : ℕ) (argument : ExecArgument),
    (∀ c ∈ text, Plain false c) → readArguments i false (some argument) (text ++ more) =
      readArguments (i + text.length) false (some { argument with text := argument.text ++ text }) more
  | [], i, argument, _ => by simp
  | c :: text, i, argument, h => by
    have hindex : i + 1 + text.length = i + (text.length + 1) := by omega
    rw [List.cons_append, readArguments_plain (h c List.mem_cons_self), Option.getD_some,
      readArguments_text more text _ _ fun d hd => h d (List.mem_cons_of_mem c hd), List.length_cons, hindex,
      ExecArgument.append, List.append_assoc, List.singleton_append]

/-- It is an argument of its own. -/
theorem readArguments_own {text : QString} (i : ℕ) (more : QString) (hne : text ≠ [])
    (h : ∀ c ∈ text, Plain false c) :
    readArguments i false none (text ++ more) = readArguments (i + text.length) false (some ⟨i, text⟩) more := by
  cases text with
  | nil => exact absurd rfl hne
  | cons c text =>
    have hindex : i + 1 + text.length = i + (text.length + 1) := by omega
    rw [List.cons_append, readArguments_plain (h c List.mem_cons_self), Option.getD_none,
      readArguments_text more text _ _ fun d hd => h d (List.mem_cons_of_mem c hd), List.length_cons, hindex]
    rfl

theorem plain_accessibilityFlag : ∀ c ∈ accessibilityFlag, Plain false c := by
  have hall : accessibilityFlag.all (fun c => c != unit ' ' && c != unit '"') = true := by decide
  have hplain (c : UInt16) (hc : c ∈ accessibilityFlag) : c ≠ unit ' ' ∧ c ≠ unit '"' := by
    simpa using List.all_eq_true.mp hall c hc
  exact fun c hc => ⟨fun h => (hplain c hc).1 h.1, (hplain c hc).2, fun h => absurd h.2 Bool.false_ne_true⟩

theorem readArguments_flag_end (i : ℕ) :
    readArguments i false none accessibilityFlag = [⟨i, accessibilityFlag⟩] := by
  have hread := readArguments_own i [] (by decide) plain_accessibilityFlag
  rwa [List.append_nil, readArguments_nil] at hread

theorem readArguments_flag (i : ℕ) (more : QString) :
    readArguments i false none (accessibilityFlag ++ unit ' ' :: more) =
      ⟨i, accessibilityFlag⟩ :: readArguments (i + accessibilityFlag.length + 1) false none more := by
  rw [readArguments_own i _ (by decide) plain_accessibilityFlag, readArguments_space]
  rfl

theorem textsOf_append (before after : List ExecArgument) :
    textsOf (before ++ after) = textsOf before ++ textsOf after := List.map_append

theorem length_textsOf (arguments : List ExecArgument) : (textsOf arguments).length = arguments.length :=
  List.length_map _

/-- Where the flag is put. -/
structure PutIn (arguments : List QString) (front back : List QString) : Prop where
  split : arguments = front ++ back
  /-- After what the line starts, -/
  after : (launchOf arguments).next ≤ front.length
  /-- past options alone, -/
  options : ∀ argument ∈ front.drop (launchOf arguments).next, endsOptions argument = false
  /-- and before the first argument that files follow, if there is one. -/
  before : ∀ argument ∈ back.head?, endsOptions argument = true

variable {line : QString}

/-- The flag put in, as the arguments are read. -/
theorem textsOf_withAccessibilityFlag {i : ℕ} (hclosed : quotedAfter false line = false)
    (hprogram : (launchOf (textsOf (execArguments line))).program = some i)
    (hflag : accessibilityFlag ∉ textsOf (execArguments line)) :
    ∃ front back, PutIn (textsOf (execArguments line)) front back ∧
      textsOf (execArguments (withAccessibilityFlag line)) = front ++ accessibilityFlag :: back := by
  have hnext := next_le hprogram
  rw [withAccessibilityFlag, if_neg hflag]
  cases hend : ((execArguments line).drop (launchOf (textsOf (execArguments line))).next).find?
      fun argument => endsOptions argument.text with
  | none =>
    refine ⟨textsOf (execArguments line), [], ⟨(List.append_nil _).symm, hnext, fun text htext => ?_, ?_⟩, ?_⟩
    · rw [textsOf, ← List.map_drop] at htext
      obtain ⟨argument, hargument, rfl⟩ := List.mem_map.mp htext
      exact Bool.eq_false_iff.mpr (List.find?_eq_none.mp hend argument hargument)
    · exact fun _ hnone => absurd hnone (Option.some_ne_none _).symm
    · dsimp only
      rw [execArguments, readArguments_append_space _ _ _ _ _ hclosed, readArguments_flag_end, textsOf_append]
      rfl
  | some argument =>
    obtain ⟨hends, passed, after, hrest, hpassed⟩ := List.find?_eq_some_iff_append.mp hend
    have hlength : ((execArguments line).take (launchOf (textsOf (execArguments line))).next).length =
        (launchOf (textsOf (execArguments line))).next := by
      rw [length_textsOf] at hnext
      exact List.length_take_of_le hnext
    have harguments : execArguments line =
        ((execArguments line).take (launchOf (textsOf (execArguments line))).next ++ passed) ++ argument :: after := by
      rw [List.append_assoc, ← hrest, List.take_append_drop]
    obtain ⟨front, back, hline, hstart, hmore⟩ :=
      readArguments_split line 0 false none _ after argument (fun _ => rfl) (.inl rfl) harguments
    rw [Nat.zero_add] at hstart
    refine ⟨textsOf ((execArguments line).take (launchOf (textsOf (execArguments line))).next ++ passed),
      textsOf (argument :: after), ⟨?_, ?_, fun text htext => ?_, fun text htext => ?_⟩, ?_⟩
    · rw [← textsOf_append, ← harguments]
    · rw [length_textsOf, List.length_append, hlength]
      exact Nat.le_add_right _ _
    · rw [textsOf_append, List.drop_append_of_le_length (by rw [length_textsOf, hlength]),
        List.drop_eq_nil_of_le (by rw [length_textsOf, hlength]), List.nil_append] at htext
      obtain ⟨other, hother, rfl⟩ := List.mem_map.mp htext
      simpa using hpassed other hother
    · obtain rfl : argument.text = text := Option.some.inj htext
      exact hends
    · have hsame := hmore back
      rw [← hline] at hsame
      have hread : readArguments argument.start false none back = argument :: after :=
        List.append_cancel_left (hsame.symm.trans harguments)
      have htake : line.take argument.start = front := by rw [hline, hstart, List.take_left]
      have hdrop : line.drop argument.start = back := by rw [hline, hstart, List.drop_left]
      dsimp only
      rw [htake, hdrop, execArguments, hmore, readArguments_flag, textsOf_append, ← hread,
        textsOf_readArguments back argument.start (argument.start + accessibilityFlag.length + 1) false none none rfl]
      rfl

/-- The flag reaches the app that a line starts, and nothing else changes. -/
structure FlagReachesApp (line : QString) : Prop where
  unchanged : accessibilityFlag ∈ textsOf (execArguments line) → withAccessibilityFlag line = line
  /-- The flag is put in, once. -/
  added : accessibilityFlag ∉ textsOf (execArguments line) → ∃ front back,
    PutIn (textsOf (execArguments line)) front back ∧
      textsOf (execArguments (withAccessibilityFlag line)) = front ++ accessibilityFlag :: back
  /-- The line starts what it started: -/
  launch : launchOf (textsOf (execArguments (withAccessibilityFlag line))) = launchOf (textsOf (execArguments line))
  /-- the same program, -/
  program : ∀ i ∈ (launchOf (textsOf (execArguments line))).program,
    (textsOf (execArguments (withAccessibilityFlag line)))[i]? = (textsOf (execArguments line))[i]?
  /-- and the same flatpak app. -/
  flatpakApp : ∀ i ∈ (launchOf (textsOf (execArguments line))).flatpakApp,
    (textsOf (execArguments (withAccessibilityFlag line)))[i]? = (textsOf (execArguments line))[i]?
  chromium : ∀ files, launchesChromium files (withAccessibilityFlag line) = launchesChromium files line
  again : withAccessibilityFlag (withAccessibilityFlag line) = withAccessibilityFlag line

theorem withAccessibilityFlag_of_mem (h : accessibilityFlag ∈ textsOf (execArguments line)) :
    withAccessibilityFlag line = line := by
  rw [withAccessibilityFlag, if_pos h]

/-- What Chromium's launch is judged by. -/
theorem launchesChromium_congr {line line' : QString}
    (hlaunch : launchOf (textsOf (execArguments line')) = launchOf (textsOf (execArguments line)))
    (htexts : ∀ i < (launchOf (textsOf (execArguments line))).next,
      (textsOf (execArguments line'))[i]? = (textsOf (execArguments line))[i]?) (files : Files) :
    launchesChromium files line' = launchesChromium files line := by
  have hprogram (i : ℕ) (h : (launchOf (textsOf (execArguments line))).program = some i) :
      (textsOf (execArguments line')).getD i [] = (textsOf (execArguments line)).getD i [] := by
    have hle := le_max_left ((launchOf (textsOf (execArguments line))).program.elim 0 (· + 1))
      ((launchOf (textsOf (execArguments line))).flatpakApp.elim 0 (· + 1))
    rw [h] at hle
    rw [List.getD_eq_getElem?_getD, List.getD_eq_getElem?_getD, htexts i (by rw [Launch.next, h]; exact hle)]
  have happ (i : ℕ) (h : (launchOf (textsOf (execArguments line))).flatpakApp = some i) :
      (textsOf (execArguments line')).getD i [] = (textsOf (execArguments line)).getD i [] := by
    have hle := le_max_right ((launchOf (textsOf (execArguments line))).program.elim 0 (· + 1))
      ((launchOf (textsOf (execArguments line))).flatpakApp.elim 0 (· + 1))
    rw [h] at hle
    rw [List.getD_eq_getElem?_getD, List.getD_eq_getElem?_getD, htexts i (by rw [Launch.next, h]; exact hle)]
  unfold launchesChromium
  dsimp only
  rw [hlaunch]
  cases hstarts : (launchOf (textsOf (execArguments line))).program with
  | none => rfl
  | some i =>
    cases hruns : (launchOf (textsOf (execArguments line))).flatpakApp with
    | none => simp only [hprogram i hstarts]
    | some app => simp only [happ app hruns]

/-- **The accessibility flag reaches the app and nothing else changes**, for every line whose quotes are closed and that
names a program. -/
theorem flag_reaches_app {line : QString} (hclosed : quotedAfter false line = false)
    (hprogram : (launchOf (textsOf (execArguments line))).program ≠ none) : FlagReachesApp line := by
  by_cases hflag : accessibilityFlag ∈ textsOf (execArguments line)
  · have hsame := withAccessibilityFlag_of_mem hflag
    refine ⟨fun _ => hsame, fun hnot => absurd hflag hnot, ?_, fun _ _ => ?_, fun _ _ => ?_, fun _ => ?_, ?_⟩ <;>
      rw [hsame]
    exact hsame
  obtain ⟨i, hprogram⟩ := Option.ne_none_iff_exists'.mp hprogram
  obtain ⟨front, back, hput, htexts⟩ := textsOf_withAccessibilityFlag hclosed hprogram hflag
  have hlaunch : launchOf (textsOf (execArguments (withAccessibilityFlag line))) =
      launchOf (textsOf (execArguments line)) := by
    rw [htexts, hput.split]
    exact launchOf_insert (by decide) (by decide) (hput.split ▸ hprogram) (hput.split ▸ hput.after)
  have hbefore (j : ℕ) (h : j < (launchOf (textsOf (execArguments line))).next) :
      (textsOf (execArguments (withAccessibilityFlag line)))[j]? = (textsOf (execArguments line))[j]? := by
    have hlt := h.trans_le hput.after
    rw [htexts, hput.split, List.getElem?_append_left hlt, List.getElem?_append_left hlt]
  refine ⟨fun hmem => absurd hmem hflag, fun _ => ⟨front, back, hput, htexts⟩, hlaunch, fun j hj => hbefore j ?_,
    fun j hj => hbefore j ?_, launchesChromium_congr hlaunch hbefore, withAccessibilityFlag_of_mem ?_⟩
  · rw [Launch.next, Option.mem_def.mp hj]
    exact le_max_left (j + 1) _
  · rw [Launch.next, Option.mem_def.mp hj]
    exact le_max_right _ (j + 1)
  · rw [htexts]
    exact List.mem_append_right front List.mem_cons_self

theorem launcher_flag_reaches_app : FlagReachesApp (units "a %U") := by
  have hread : execArguments [97, 32, 37, 85] = [⟨0, [97]⟩, ⟨2, [37, 85]⟩] := by
    rw [execArguments]
    simp only [readArguments, show unit ' ' = 32 from rfl, show unit '"' = 34 from rfl,
      show unit '\\' = 92 from rfl]
    decide
  rw [show units "a %U" = [97, 32, 37, 85] by decide]
  refine flag_reaches_app (by decide) ?_
  rw [hread, program_launchOf, textsOf, List.map_cons, programOf, if_neg (by decide)]
  exact Option.some_ne_none 0

end Flag

end Speecher.ChromiumLaunchers
