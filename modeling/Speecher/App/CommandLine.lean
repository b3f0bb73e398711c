import Mathlib.Data.Rat.Floor
import Speecher.App.CommandLineNames
import Speecher.App.IpcMessages
import Speecher.Transcribe.Subtitles

/-!
# Reading the command line

`parseCommandLine` decides what a process is for from its arguments, before anything opens a display, and
prints what is the whole of a run itself: the version, the help, a completion, a usage mistake. The
dictation options are read wherever they stand, the others verb by verb.
-/

namespace Speecher.CommandLine

/-! ## What is decided -/

inductive LaunchMode
  | exit
  | runCli
  | runDaemon
  | runGui
  | transcribeHeadless
  | listenHeadless
  | listProviders
  deriving DecidableEq

inductive TranscriptDestination
  | besideInput
  | folder
  | none
  deriving DecidableEq

/-- The choices `transcribe` and `listen` take. -/
structure HeadlessTranscribeOptions where
  speechProviderId : Option Text := none
  applyVocabulary : Bool := true
  addedVocabulary : List Text := []
  refinementProviderId : Option Text := none
  cleanupStrength : Option Text := none
  writingProfile : Option Text := none
  tone : Option Text := none
  spokenLanguage : Option Text := none
  destination : TranscriptDestination := .besideInput
  folder : Text := []
  printTranscripts : Bool := false
  raw : Bool := false
  format : TranscriptFormat := .text
  json : Bool := false
  deriving DecidableEq

structure CommandLineDecision where
  mode : LaunchMode := .runGui
  exitCode : ℕ := 0
  ipcCommand : IpcCommand := .status
  vocabularyTerms : List Text := []
  sessionOverrides : SessionOverrides := ⟨none, none, none⟩
  startListening : Bool := false
  showSettings : Bool := false
  showSetup : Bool := false
  transcribeFiles : List Text := []
  headless : HeadlessTranscribeOptions := {}
  untilSilenceMs : Option ℤ := none
  json : Bool := false
  recordPath : Text := []
  recordMicrophoneOnly : Bool := false
  deriving DecidableEq

/-- What a run prints itself. -/
inductive Printed
  | version (logPath : Text)
  | help
  /-- A usage mistake, and the help after it. -/
  | mistake (message : Text)
  | names (names : List Text)
  | completionScript (shell : Text)
  deriving DecidableEq

/-- What the command line asks of its platform. -/
structure System where
  absoluteFilePath : Text → Text
  isDir : Text → Bool
  isReadable : Text → Bool
  isFile : Text → Bool
  isAudioFile : Text → Bool
  /-- The terms in a file, unless it cannot be read. -/
  readVocabularyFile : Text → Option (List Text)
  /-- `QString::toDouble`: nothing when it is no number, and no value when it is infinite or nan. -/
  toDouble : Text → Option (Option ℚ)
  /-- `int(seconds * 1000)`. -/
  milliseconds : ℚ → ℤ

variable (lower : AsciiLowerCase) (fold : CaseFolding) (system : System) (file : SettingsFile)

/-! ## Values -/

def kStdinFile : Text := "-".toList

def separator : Text := "--".toList

/-- A spoken language, by code. -/
def spokenLanguageNamed (value : Text) : Except Text Text :=
  let code := lower.text (trimmed value)
  if isKnownSpokenLanguage code then .ok code
  else
    .error ("Unknown spoken language: ".toList ++ value ++
      " (expected a language code such as de, or auto)".toList)

def outputFormatNamed (value : Text) : Except Text OutputFormat :=
  match outputFormatFromString fold value with
  | some format => .ok format
  | none => .error ("Unknown output format: ".toList ++ lower.text (trimmed value))

/-- The value of an option, the argument after it. -/
def optionValue (argument : Text) (next : Option Text) : Except Text Text :=
  match next with
  | some value => .ok value
  | none => .error (argument ++ " requires a value".toList)

/-- The value of a dictation option, read wherever it is given. -/
def dictationOptionValue (arguments : List Text) (option : Text) : Except Text (Option Text) :=
  match arguments.dropWhile (· ≠ option) with
  | [] => .ok none
  | argument :: rest => (optionValue argument rest.head?).map some

/-! ## The choices transcribe and listen share -/

/-- A choice by its name on the command line. -/
def choice (argument : Text) (choices : CliNames) (value : Text) : Except Text Text :=
  match storedId lower choices value with
  | some id => .ok id
  | none =>
    .error ("Unknown ".toList ++ argument ++ " value: ".toList ++ value ++ " (expected ".toList ++
      ", ".toList.intercalate (cliNames choices) ++ [')'])

/-- An option with a value: that it took the argument after it, and what it left. -/
def withValue {α : Type} (argument : Text) (next : Option Text) (read : Text → Except Text α) :
    Except Text (Bool × α) := do
  let value ← optionValue argument next
  let result ← read value
  return (true, result)

/-- One of the shared choices, or nothing for an option that is none. -/
def readSharedChoice (argument : Text) (next : Option Text) (options : HeadlessTranscribeOptions) :
    Option (Except Text (Bool × HeadlessTranscribeOptions)) :=
  if argument = "--no-vocabulary".toList then some (.ok (false, { options with applyVocabulary := false }))
  else if argument = "--raw".toList then some (.ok (false, { options with raw := true }))
  else if argument = "--json".toList then some (.ok (false, { options with json := true }))
  else if argument = "--model".toList then
    some (withValue argument next fun value => .ok { options with speechProviderId := some (lower.text value) })
  else if argument = "--refine".toList then
    some (withValue argument next fun value => .ok { options with refinementProviderId := some (lower.text value) })
  else if argument = "--cleanup".toList then
    some (withValue argument next fun value => do
      let id ← choice lower argument (cleanupNames file) value
      return { options with cleanupStrength := some id })
  else if argument = "--profile".toList then
    some (withValue argument next fun value => do
      let id ← writingProfileNamed lower file value
      return { options with writingProfile := some id })
  else if argument = "--language".toList then
    some (withValue argument next fun value => do
      let code ← spokenLanguageNamed lower value
      return { options with spokenLanguage := some code })
  else if argument = "--tone".toList then
    some (withValue argument next fun value => do
      let id ← choice lower argument (toneNames file) value
      return { options with tone := some id })
  else if argument = "--vocab-file".toList then
    some (withValue argument next fun value =>
      match system.readVocabularyFile value with
      | some terms => .ok { options with addedVocabulary := options.addedVocabulary ++ terms }
      | none => .error ("Cannot read vocabulary file ".toList ++ value))
  else none

/-! ## transcribe -/

/-- `--output`'s value. -/
def readTranscriptDestination (value : Text) (options : HeadlessTranscribeOptions) :
    Except Text HeadlessTranscribeOptions :=
  let lowered := lower.text value
  if lowered = "beside".toList then .ok { options with destination := .besideInput }
  else if lowered = "none".toList then .ok { options with destination := .none }
  else if system.isDir value then
    .ok { options with destination := .folder, folder := system.absoluteFilePath value }
  else .error ("--output folder does not exist: ".toList ++ value)

/-- What was read of `transcribe`'s arguments. -/
structure Transcribe where
  options : HeadlessTranscribeOptions := {}
  headless : Bool := false
  besideGiven : Bool := false
  files : List Text := []
  deriving DecidableEq

/-- Subtitles in one format. -/
def readSubtitles (format : TranscriptFormat) (read : Transcribe) : Except Text (Bool × Transcribe) :=
  if read.options.format ≠ .text && read.options.format ≠ format then
    .error "--srt and --vtt cannot be used together".toList
  else .ok (false, { read with options := { read.options with format } })

/-- An option of `transcribe`, with the argument after it. -/
def readTranscribeOption (argument : Text) (next : Option Text) (read : Transcribe) :
    Except Text (Bool × Transcribe) :=
  let read := { read with headless := true }
  match readSharedChoice lower system file argument next read.options with
  | some result => result.map fun taken => (taken.1, { read with options := taken.2 })
  | none =>
    if argument = "--headless".toList then .ok (false, read)
    else if argument = "--stdout".toList then
      .ok (false, { read with options := { read.options with printTranscripts := true } })
    else if argument = "--srt".toList then readSubtitles .srt read
    else if argument = "--vtt".toList then readSubtitles .webVtt read
    else if argument = "--output".toList then
      withValue argument next fun value => do
        let options ← readTranscriptDestination lower system value read.options
        return { read with options, besideGiven := lower.text value = "beside".toList }
    else if argument = "--daemon".toList then .error "--daemon cannot be used with transcribe".toList
    else .error ("Unknown transcribe option: ".toList ++ argument)

/-- An argument that is no option where options are read. -/
def isPlainArgument (argument : Text) : Bool := argument.head? ≠ some '-' || argument = kStdinFile

/-- The arguments of `transcribe`, one after the other. -/
def readTranscribe (read : Transcribe) (optionsEnded : Bool) : List Text → Except Text Transcribe
  | [] => .ok read
  | argument :: rest =>
    if optionsEnded || isPlainArgument argument then
      readTranscribe { read with files := read.files ++ [argument] } optionsEnded rest
    else if argument = separator then readTranscribe read true rest
    else
      match readTranscribeOption lower system file argument rest.head? read with
      | .error message => .error message
      | .ok (false, read) => readTranscribe read optionsEnded rest
      | .ok (true, read) =>
        match rest with
        | [] => .ok read
        | _ :: rest => readTranscribe read optionsEnded rest

/-- `speecher transcribe -`, which always runs headless and has no folder to save beside. -/
def finishStdinTranscribe (read : Transcribe) (decision : CommandLineDecision) : Except Text CommandLineDecision :=
  let options :=
    if read.options.destination = .besideInput then { read.options with destination := .none } else read.options
  if 1 < read.files.length then .error "- reads stdin and must be the only file".toList
  else if read.besideGiven then .error "--output beside cannot be used with -, which has no folder".toList
  else if !options.printTranscripts && !options.json && options.destination ≠ .folder then
    .error "transcribe - needs --stdout, --json or --output <folder>".toList
  else .ok { decision with headless := options, transcribeFiles := read.files, mode := .transcribeHeadless }

def absolutePaths (paths : List Text) : List Text := paths.map system.absoluteFilePath

def parseTranscribeArguments (arguments : List Text) (decision : CommandLineDecision) :
    Except Text CommandLineDecision := do
  let read ← readTranscribe lower system file { options := decision.headless } false arguments
  if read.options.raw && read.options.format ≠ .text then
    .error
      "--raw cannot be used with --srt or --vtt, whose subtitles always come from the raw transcript".toList
  else if read.files.isEmpty then .error "transcribe needs at least one audio file".toList
  else if read.files.contains kStdinFile then finishStdinTranscribe read decision
  else
    let files := absolutePaths system read.files
    let decision := { decision with headless := read.options, transcribeFiles := files }
    if !read.headless then .ok decision
    else
      match files.find? fun path => !system.isReadable path || !system.isFile path with
      | some path => .error ("Cannot read ".toList ++ path)
      | none => .ok { decision with mode := .transcribeHeadless }

/-! ## listen -/

def kDefaultUntilSilenceSeconds : ℚ := 2
/-- The number nearest to a tenth of a second. -/
def kMinUntilSilenceSeconds : ℚ := 3602879701896397 / 36028797018963968
def kMaxUntilSilenceSeconds : ℚ := 3600

/-- The optional seconds of `--until-silence`, and whether they were given. -/
def readUntilSilence (next : Option Text) : Except Text (Bool × ℤ) :=
  match next with
  | none => .ok (false, system.milliseconds kDefaultUntilSilenceSeconds)
  | some next =>
    match system.toDouble next with
    -- A negative number is still the seconds, given wrong.
    | none =>
      if next.head? ≠ some '-' then
        .error ("--until-silence takes seconds from 0.1 to 3600, not ".toList ++ next)
      else .ok (false, system.milliseconds kDefaultUntilSilenceSeconds)
    | some given =>
      match given.filter fun seconds => kMinUntilSilenceSeconds ≤ seconds && seconds ≤ kMaxUntilSilenceSeconds with
      | some seconds => .ok (true, system.milliseconds seconds)
      | none => .error ("--until-silence takes seconds from 0.1 to 3600, not ".toList ++ next)

def readListenOption (argument : Text) (next : Option Text) (decision : CommandLineDecision) :
    Except Text (Bool × CommandLineDecision) :=
  if argument = "--until-silence".toList then
    (readUntilSilence system next).map fun taken => (taken.1, { decision with untilSilenceMs := some taken.2 })
  else
    match readSharedChoice lower system file argument next decision.headless with
    | some result => result.map fun taken => (taken.1, { decision with headless := taken.2 })
    | none => .error ("Unknown listen option: ".toList ++ argument)

/-- Options one after the other, each with the argument after it. -/
def readOptions {α : Type} (read : Text → Option Text → α → Except Text (Bool × α)) (value : α) :
    List Text → Except Text α
  | [] => .ok value
  | argument :: rest =>
    match read argument rest.head? value with
    | .error message => .error message
    | .ok (false, value) => readOptions read value rest
    | .ok (true, value) =>
      match rest with
      | [] => .ok value
      | _ :: rest => readOptions read value rest

def parseListenArguments (arguments : List Text) (decision : CommandLineDecision) :
    Except Text CommandLineDecision := do
  let decision ← readOptions (readListenOption lower system file) decision arguments
  return { decision with mode := .listenHeadless }

/-! ## vocabulary -/

/-- The terms of `vocabulary add`. -/
def readTerms (terms : List Text) (optionsEnded : Bool) : List Text → Except Text (List Text)
  | [] => .ok terms
  | argument :: rest =>
    if !optionsEnded && argument = separator then readTerms terms true rest
    else if !optionsEnded && argument.head? = some '-' then
      .error ("Unknown vocabulary add option: ".toList ++ argument ++
        " (put -- before a term that starts with -)".toList)
    else if (simplified argument).isEmpty then .error "vocabulary add cannot save a blank term".toList
    else readTerms (terms ++ [argument]) optionsEnded rest

def parseVocabularyArguments (arguments : List Text) (decision : CommandLineDecision) :
    Except Text CommandLineDecision :=
  match arguments with
  | [] => .error "vocabulary needs a command: add".toList
  | command :: rest =>
    if lower.text command ≠ "add".toList then
      .error ("Unknown vocabulary command: ".toList ++ command ++ " (expected add)".toList)
    else
      match readTerms [] false rest with
      | .error message => .error message
      | .ok [] => .error "vocabulary add needs at least one term".toList
      | .ok terms =>
        .ok { decision with mode := .runCli, ipcCommand := .addVocabulary, vocabularyTerms := terms }

/-! ## record, status and providers -/

def readRecordOption (subcommand argument : Text) (next : Option Text) (decision : CommandLineDecision) :
    Except Text (Bool × CommandLineDecision) :=
  if subcommand = "start".toList && argument = "--to".toList then
    withValue argument next fun path =>
      if path.isEmpty then .error "--to requires a file".toList
      else if system.isDir path then .error ("--to needs a file, not a folder: ".toList ++ path)
      else .ok { decision with recordPath := system.absoluteFilePath path }
  else if subcommand = "start".toList && argument = "--mic-only".toList then
    .ok (false, { decision with recordMicrophoneOnly := true })
  else if subcommand = "start".toList && argument = "--vocab-file".toList then
    withValue argument next fun path =>
      match system.readVocabularyFile path with
      | some terms => .ok { decision with vocabularyTerms := decision.vocabularyTerms ++ terms }
      | none => .error ("Cannot read vocabulary file ".toList ++ path)
  else if subcommand = "status".toList && argument = "--json".toList then
    .ok (false, { decision with json := true })
  else .error ("Unknown record ".toList ++ subcommand ++ " option: ".toList ++ argument)

def parseRecordArguments (arguments : List Text) (decision : CommandLineDecision) :
    Except Text CommandLineDecision :=
  let subcommand := lower.text (arguments.head?.getD [])
  if subcommand ≠ "start".toList && subcommand ≠ "status".toList && subcommand ≠ "stop".toList then
    .error "record needs start, status or stop".toList
  else do
    let decision ← readOptions (readRecordOption system subcommand) decision arguments.tail
    return { decision with
      ipcCommand :=
        if subcommand = "start".toList then .recordStart
        else if subcommand = "status".toList then .recordStatus
        else .recordStop }

def readStatusOption (argument : Text) (_ : Option Text) (decision : CommandLineDecision) :
    Except Text (Bool × CommandLineDecision) :=
  if argument = "--json".toList then .ok (false, { decision with json := true })
  else if argument = "--watch".toList then .ok (false, { decision with ipcCommand := .watchStatus })
  else .error ("Unknown status option: ".toList ++ argument)

def parseStatusArguments (arguments : List Text) (decision : CommandLineDecision) :
    Except Text CommandLineDecision :=
  readOptions readStatusOption { decision with ipcCommand := .status } arguments

def readProvidersOption (argument : Text) (_ : Option Text) (decision : CommandLineDecision) :
    Except Text (Bool × CommandLineDecision) :=
  if argument = "--json".toList then .ok (false, { decision with json := true })
  else .error ("Unknown providers option: ".toList ++ argument)

def parseProvidersArguments (arguments : List Text) (decision : CommandLineDecision) :
    Except Text CommandLineDecision := do
  let decision ← readOptions readProvidersOption decision arguments
  return { decision with mode := .listProviders }

/-! ## The whole command line -/

def kCompletionShells : List Text := ["bash", "zsh", "fish"].map String.toList

/-- `completions <shell>` and `completions --list <list>`. -/
def printCompletions (arguments : List Text) : Except Text Printed :=
  let unknown := Except.error ("Unknown completions argument: ".toList ++ [' '].intercalate arguments ++
    " (expected bash, zsh or fish)".toList)
  match arguments with
  | [] => .error "completions needs a shell: bash, zsh or fish".toList
  | [shell] => if kCompletionShells.contains shell then .ok (.completionScript shell) else unknown
  | [option, list] =>
    if option = "--list".toList then (completionList lower file list).elim unknown fun names => .ok (.names names)
    else unknown
  | _ => unknown

/-- The verbs sent to the running instance. -/
def cliCommands : List Text :=
  ["toggle", "start", "stop", "cancel", "status", "last", "settings", "setup", "record", "quit"].map String.toList

/-- The output format the arguments give, wherever they give it. -/
def formatGiven (arguments : List Text) : Except Text (Option OutputFormat) := do
  match ← dictationOptionValue arguments "--format".toList with
  | some value => (outputFormatNamed lower fold value).map some
  | none => return none

/-- The dictation options, which `transcribe` and `listen` have some of for themselves. -/
def readOverrides (arguments : List Text) (verb : Text) : Except Text SessionOverrides := do
  let outputFormat ← formatGiven lower fold arguments
  if verb = "transcribe".toList || verb = "listen".toList then return ⟨outputFormat, none, none⟩
  else
    let profile ← dictationOptionValue arguments "--profile".toList
    let writingProfile ← profile.elim (.ok none) fun value => (writingProfileNamed lower file value).map some
    let language ← dictationOptionValue arguments "--language".toList
    let spokenLanguage ← language.elim (.ok none) fun value => (spokenLanguageNamed lower value).map some
    return ⟨outputFormat, writingProfile, spokenLanguage⟩

/-- A dictation option given to a command that takes none. -/
def misplacedOption (overrides : SessionOverrides) : Option Text :=
  if overrides.outputFormat.isSome then some "--format".toList
  else if overrides.writingProfile.isSome then some "--profile".toList
  else if overrides.spokenLanguage.isSome then some "--language".toList
  else none

/-- A command for the running instance. -/
def parseCliCommand (verb : Text) (arguments : List Text) (decision : CommandLineDecision) :
    Except Text CommandLineDecision :=
  let misplaced :=
    if verb ≠ "toggle".toList && verb ≠ "start".toList then misplacedOption decision.sessionOverrides else none
  match misplaced with
  | some option => .error (option ++ " can only be used with toggle or start".toList)
  | none =>
    let decision := { decision with mode := .runCli }
    if verb = "record".toList then parseRecordArguments lower system (arguments.drop 2) decision
    else if verb = "status".toList then parseStatusArguments (arguments.drop 2) decision
    else if verb = "settings".toList then .ok { decision with ipcCommand := .showSettings }
    else if verb = "setup".toList then .ok { decision with ipcCommand := .showSetup }
    else .ok { decision with ipcCommand := (ipcCommandNamed verb).getD .status }

/-- Files open in a window. -/
def openedInWindow (decision : CommandLineDecision) : CommandLineDecision :=
  if decision.transcribeFiles.isEmpty then decision else { decision with mode := .runGui }

/-- What is for this process: transcribe, listen, list the providers, or the app itself. -/
def parseLaunch (verb : Text) (arguments : List Text) (decision : CommandLineDecision) :
    Except Text CommandLineDecision := do
  let decision :=
    { decision with
      mode := if arguments.contains "--daemon".toList then LaunchMode.runDaemon else LaunchMode.runGui }
  if verb = "transcribe".toList then
    let decision ← parseTranscribeArguments lower system file (arguments.drop 2) decision
    if decision.mode = .transcribeHeadless then return decision else return openedInWindow decision
  else if verb = "listen".toList then parseListenArguments lower system file (arguments.drop 2) decision
  else if verb = "providers".toList then parseProvidersArguments (arguments.drop 2) decision
  else
    let files := absolutePaths system (arguments.tail.filter system.isAudioFile)
    return openedInWindow { decision with transcribeFiles := files }

def verbOf (arguments : List Text) : Text :=
  arguments[1]?.elim [] fun argument => lower.text (trimmed argument)

/-- What the process is for, and what it prints, after the version and the help. -/
def parseArguments (arguments : List Text) : Except Text (CommandLineDecision × List Printed) :=
  let verb := verbOf lower arguments
  if verb = "completions".toList then
    (printCompletions lower file (arguments.drop 2)).map fun printed => ({ mode := .exit }, [printed])
  -- Before the dictation options, which vocabulary does not take.
  else if verb = "vocabulary".toList then
    (parseVocabularyArguments lower (arguments.drop 2) {}).map fun decision => (decision, [])
  else do
    let sessionOverrides ← readOverrides lower fold file arguments verb
    let decision : CommandLineDecision :=
      { sessionOverrides
        startListening := arguments.contains "--start-listening".toList
        showSettings := arguments.contains "--show-settings".toList
        showSetup := arguments.contains "--show-setup".toList }
    if cliCommands.contains verb then
      let decision ← parseCliCommand lower system verb arguments decision
      return (decision, [])
    else
      let decision ← parseLaunch lower system file verb arguments decision
      return (decision, [])

/-- What a process started with the arguments is for, and what it prints itself. -/
def parseCommandLine (arguments : List Text) (logPath : Text) : CommandLineDecision × List Printed :=
  -- After `--`, an argument is a term or a file, never one of these.
  let options := arguments.takeWhile (· ≠ separator)
  if options.contains "--version".toList then ({ mode := .exit }, [.version logPath])
  else if options.contains "--help".toList || options.contains "-h".toList then ({ mode := .exit }, [.help])
  else
    match parseArguments lower fold system file arguments with
    | .ok result => result
    | .error message => ({ mode := .exit, exitCode := 2 }, [.mistake message])

end Speecher.CommandLine
