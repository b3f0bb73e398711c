import Speecher.App.CommandLine

/-!
# Arguments after `--`

After `--`, an argument of `transcribe` is a file and one of `vocabulary add` a term. Both verbs read it so,
and the version and the help are only looked for before it. But what may stand anywhere, `--format` and the
options that start dictation or show a page, is looked for in the whole list (`readOverrides`).

* `readTranscribe_separator`, `readTerms_separator`: what follows `--` is added to the files, or the terms.
* `names_after_separator_iff`: two lists of names after `--` are decided alike exactly when they agree on what
  may stand anywhere; always for `vocabulary add`.
* `separator_starts_dictation`: a file called `--start-listening` starts a dictation.
-/

namespace Speecher.CommandLine

variable (lower : AsciiLowerCase) (fold : CaseFolding) (system : System) (file : SettingsFile)

/-! ## Options with values -/

/-- The options of `transcribe` that take the argument after them. -/
def takesValue (argument : Text) : Bool :=
  (["--model", "--refine", "--cleanup", "--profile", "--language", "--tone", "--vocab-file",
    "--output"].map String.toList).contains argument

/-- The arguments end in an option still waiting for its value. -/
def awaitsValue : List Text → Bool
  | [] => false
  | argument :: rest =>
    if isPlainArgument argument || !takesValue argument then awaitsValue rest
    else
      match rest with
      | [] => true
      | _ :: rest => awaitsValue rest

/-- The files among the arguments of `transcribe`. -/
def filesIn : List Text → List Text
  | [] => []
  | argument :: rest =>
    if isPlainArgument argument then argument :: filesIn rest
    else if takesValue argument then
      match rest with
      | [] => []
      | _ :: rest => filesIn rest
    else filesIn rest

/-- An option among the arguments makes `transcribe` run headless. -/
def runsHeadless (arguments : List Text) : Bool := arguments.any (!isPlainArgument ·)

/-- A step that went well, and what was made of it. -/
theorem bind_eq_ok {ε α β : Type} {x : Except ε α} {f : α → Except ε β} {b : β} (h : (x >>= f) = .ok b) :
    ∃ a, x = .ok a ∧ f a = .ok b := by
  cases x with
  | error message => cases h
  | ok a => exact ⟨a, rfl, h⟩

theorem map_eq_ok {ε α β : Type} {x : Except ε α} {f : α → β} {b : β} (h : x.map f = .ok b) :
    ∃ a, x = .ok a ∧ f a = b := by
  cases x with
  | error message => cases h
  | ok a => exact ⟨a, rfl, Except.ok.inj h⟩

variable {lower system file} {argument : Text}

/-- An option without a value is read the same before any argument. -/
theorem readSharedChoice_next (h : takesValue argument = false) (next next' : Option Text)
    (options : HeadlessTranscribeOptions) :
    readSharedChoice lower system file argument next options =
      readSharedChoice lower system file argument next' options := by
  have hne : ∀ name : Text, takesValue name = true → argument ≠ name := by
    rintro name hname rfl
    rw [hname] at h
    cases h
  unfold readSharedChoice
  refine ite_congr rfl (fun _ => rfl) fun _ => ite_congr rfl (fun _ => rfl) fun _ => ite_congr rfl (fun _ => rfl)
    fun _ => ?_
  rw [if_neg (hne _ rfl), if_neg (hne _ rfl), if_neg (hne _ rfl), if_neg (hne _ rfl), if_neg (hne _ rfl),
    if_neg (hne _ rfl), if_neg (hne _ rfl)]
  rw [if_neg (hne _ rfl), if_neg (hne _ rfl), if_neg (hne _ rfl), if_neg (hne _ rfl), if_neg (hne _ rfl),
    if_neg (hne _ rfl), if_neg (hne _ rfl)]

/-- An option read takes the argument after it when it has a value, and leaves `post`. -/
def OptionRead {α : Type} (argument : Text) (post : α → Prop) (result : Except Text (Bool × α)) : Prop :=
  ∀ taken, result = .ok taken → taken.1 = takesValue argument ∧ post taken.2

section

variable {α : Type} {post : α → Prop} {name : Text}

theorem optionRead_ok {value : α} (hname : takesValue name = false) (hpost : post value) (h : argument = name) :
    OptionRead argument post (.ok (false, value)) := by
  rintro _ ⟨⟩
  exact ⟨by rw [h, hname], hpost⟩

theorem optionRead_error (message : Text) : OptionRead argument post (.error message) := fun _ h => nomatch h

theorem optionRead_withValue {next : Option Text} {read : Text → Except Text α} (hname : takesValue name = true)
    (hpost : ∀ value result, read value = .ok result → post result) (h : argument = name) :
    OptionRead argument post (withValue argument next read) := by
  intro taken htaken
  obtain ⟨value, -, htaken⟩ := bind_eq_ok htaken
  obtain ⟨result, hresult, htaken⟩ := bind_eq_ok htaken
  obtain rfl := Except.ok.inj htaken
  exact ⟨by rw [h, hname], hpost value result hresult⟩

theorem optionRead_ite {result others : Except Text (Bool × α)}
    (hresult : argument = name → OptionRead argument post result) (hothers : OptionRead argument post others) :
    OptionRead argument post (if argument = name then result else others) := by
  split_ifs with hname
  · exact hresult hname
  · exact hothers

end

theorem optionRead_sharedChoice (next : Option Text) (options : HeadlessTranscribeOptions) :
    ∀ result ∈ readSharedChoice lower system file argument next options,
      OptionRead argument (fun _ => True) result := by
  have hite : ∀ {name : Text} {result : Except Text (Bool × HeadlessTranscribeOptions)}
      {others : Option (Except Text (Bool × HeadlessTranscribeOptions))},
      (argument = name → OptionRead argument (fun _ => True) result) →
      (∀ found ∈ others, OptionRead argument (fun _ => True) found) →
      ∀ found ∈ (if argument = name then some result else others), OptionRead argument (fun _ => True) found := by
    intro name result others hresult hothers found hfound
    split_ifs at hfound with hname
    · exact Option.some.inj hfound ▸ hresult hname
    · exact hothers found hfound
  have hflag : ∀ {name : Text} {options : HeadlessTranscribeOptions}, takesValue name = false → argument = name →
      OptionRead argument (fun _ => True) (.ok (false, options)) := fun hname h => optionRead_ok hname trivial h
  have hvalue : ∀ {name : Text} {read : Text → Except Text HeadlessTranscribeOptions}, takesValue name = true →
      argument = name → OptionRead argument (fun _ => True) (withValue argument next read) :=
    fun hname h => optionRead_withValue hname (fun _ _ _ => trivial) h
  unfold readSharedChoice
  refine hite (hflag rfl) (hite (hflag rfl) (hite (hflag rfl) ?_))
  refine hite (hvalue rfl) (hite (hvalue rfl) (hite (hvalue rfl) (hite (hvalue rfl) ?_)))
  exact hite (hvalue rfl) (hite (hvalue rfl) (hite (hvalue rfl) fun _ h => nomatch h))

/-- An option of `transcribe` takes the argument after it when it has a value, leaves the files, and makes
the run headless. -/
theorem optionRead_transcribe (next : Option Text) (read : Transcribe) :
    OptionRead argument (fun taken => taken.files = read.files ∧ taken.headless = true)
      (readTranscribeOption lower system file argument next read) := by
  unfold readTranscribeOption
  dsimp only
  cases hshared : readSharedChoice lower system file argument next read.options with
  | some result =>
    intro taken htaken
    obtain ⟨found, hfound, rfl⟩ := map_eq_ok htaken
    exact ⟨(optionRead_sharedChoice next read.options result hshared found hfound).1, rfl, rfl⟩
  | none =>
    have hsubtitles : ∀ {name : Text} (format : TranscriptFormat), takesValue name = false → argument = name →
        OptionRead argument (fun taken => taken.files = read.files ∧ taken.headless = true)
          (readSubtitles format { read with headless := true }) := by
      intro name format hname h
      rw [readSubtitles]
      split_ifs
      · exact optionRead_error _
      · exact optionRead_ok hname ⟨rfl, rfl⟩ h
    refine optionRead_ite (optionRead_ok rfl ⟨rfl, rfl⟩) (optionRead_ite (optionRead_ok rfl ⟨rfl, rfl⟩) ?_)
    refine optionRead_ite (hsubtitles .srt rfl) (optionRead_ite (hsubtitles .webVtt rfl) ?_)
    refine optionRead_ite (optionRead_withValue rfl fun value result hresult => ?_) ?_
    · obtain ⟨options, -, hresult⟩ := bind_eq_ok hresult
      obtain rfl := Except.ok.inj hresult
      exact ⟨rfl, rfl⟩
    · exact optionRead_ite (fun _ => optionRead_error _) (optionRead_error _)

/-- An option of `transcribe` without a value is read the same before any argument. -/
theorem readTranscribeOption_next (h : takesValue argument = false) (next next' : Option Text) (read : Transcribe) :
    readTranscribeOption lower system file argument next read =
      readTranscribeOption lower system file argument next' read := by
  have houtput : argument ≠ "--output".toList := by
    rintro rfl
    cases h
  unfold readTranscribeOption
  dsimp only
  rw [readSharedChoice_next h next next', if_neg houtput, if_neg houtput]

/-! ## transcribe's files -/

section

variable {rest : List Text} {value : Text}

theorem awaitsValue_skip (h : (isPlainArgument argument || !takesValue argument) = true) :
    awaitsValue (argument :: rest) = awaitsValue rest := by
  cases rest <;> exact if_pos h

theorem awaitsValue_value (hplain : isPlainArgument argument = false) (hvalue : takesValue argument = true) :
    awaitsValue (argument :: value :: rest) = awaitsValue rest := by
  rw [awaitsValue, hplain, hvalue]
  rfl

theorem filesIn_plain (h : isPlainArgument argument = true) :
    filesIn (argument :: rest) = argument :: filesIn rest := by
  cases rest <;> exact if_pos h

theorem filesIn_value (hplain : isPlainArgument argument = false) (hvalue : takesValue argument = true) :
    filesIn (argument :: value :: rest) = filesIn rest := by
  rw [filesIn, hplain, hvalue]
  rfl

theorem filesIn_option (hplain : isPlainArgument argument = false) (hvalue : takesValue argument = false) :
    filesIn (argument :: rest) = filesIn rest := by
  cases rest <;> exact (if_neg (by simp [hplain])).trans (if_neg (by simp [hvalue]))

end

/-- After `--`, every argument is a file. -/
theorem readTranscribe_ended (arguments : List Text) (read : Transcribe) :
    readTranscribe lower system file read true arguments = .ok { read with files := read.files ++ arguments } := by
  induction arguments generalizing read with
  | nil => rw [readTranscribe, List.append_nil]
  | cons argument rest ih =>
    rw [readTranscribe, Bool.true_or, if_pos rfl, ih]
    simp

/-- **What follows `--` is added to the files**, where no option still waits for its value. -/
theorem readTranscribe_separator (names : List Text) : ∀ (arguments : List Text) (read : Transcribe),
    separator ∉ arguments → awaitsValue arguments = false →
    readTranscribe lower system file read false (arguments ++ separator :: names) =
      (readTranscribe lower system file read false arguments).map fun read => { read with files := read.files ++ names }
  | [], read, _, _ => by
    exact readTranscribe_ended names read
  | argument :: rest, read, hseparator, hawaits => by
    obtain ⟨hne, hrest⟩ := List.ne_and_not_mem_of_not_mem_cons hseparator
    rw [List.cons_append, readTranscribe, readTranscribe]
    by_cases hplain : isPlainArgument argument = true
    · rw [hplain, Bool.false_or, if_pos rfl, if_pos rfl]
      rw [awaitsValue_skip (by rw [hplain, Bool.true_or])] at hawaits
      exact readTranscribe_separator names rest _ hrest hawaits
    · rw [Bool.not_eq_true] at hplain
      rw [hplain, Bool.false_or, if_neg Bool.false_ne_true, if_neg Bool.false_ne_true, if_neg hne.symm, if_neg hne.symm]
      by_cases hvalue : takesValue argument = true
      · -- The value is there, and the same in both.
        cases rest with
        | nil =>
          rw [awaitsValue, hplain, hvalue] at hawaits
          cases hawaits
        | cons value rest =>
          rw [awaitsValue_value hplain hvalue] at hawaits
          rw [List.cons_append, List.head?_cons, List.head?_cons]
          cases hread : readTranscribeOption lower system file argument (some value) read with
          | error message => rfl
          | ok taken =>
            obtain ⟨htaken, -⟩ := optionRead_transcribe _ _ taken hread
            obtain ⟨took, next⟩ := taken
            obtain rfl : took = true := htaken.trans hvalue
            exact readTranscribe_separator names rest next (fun h => hrest (List.mem_cons_of_mem value h)) hawaits
      · rw [Bool.not_eq_true] at hvalue
        rw [awaitsValue_skip (by rw [hvalue, Bool.not_false, Bool.or_true])] at hawaits
        rw [readTranscribeOption_next hvalue (rest ++ separator :: names).head? rest.head?]
        cases hread : readTranscribeOption lower system file argument rest.head? read with
        | error message => rfl
        | ok taken =>
          obtain ⟨htaken, -⟩ := optionRead_transcribe _ _ taken hread
          obtain ⟨took, next⟩ := taken
          obtain rfl : took = false := htaken.trans hvalue
          exact readTranscribe_separator names rest next hrest hawaits

/-- What is read of the arguments before `--`. -/
theorem files_of_readTranscribe : ∀ (arguments : List Text) (read : Transcribe) {result : Transcribe},
    separator ∉ arguments → readTranscribe lower system file read false arguments = .ok result →
    result.files = read.files ++ filesIn arguments ∧ result.headless = (read.headless || runsHeadless arguments)
  | [], read, result, _, h => by
    obtain rfl := Except.ok.inj h
    exact ⟨(List.append_nil _).symm, (Bool.or_false _).symm⟩
  | argument :: rest, read, result, hseparator, h => by
    obtain ⟨hne, hrest⟩ := List.ne_and_not_mem_of_not_mem_cons hseparator
    rw [readTranscribe] at h
    by_cases hplain : isPlainArgument argument = true
    · rw [hplain, Bool.false_or, if_pos rfl] at h
      obtain ⟨hfiles, hheadless⟩ := files_of_readTranscribe rest _ hrest h
      rw [filesIn_plain hplain, runsHeadless, List.any_cons, hplain]
      refine ⟨?_, hheadless⟩
      rw [hfiles, List.append_assoc]
      rfl
    · rw [Bool.not_eq_true] at hplain
      rw [hplain, Bool.false_or, if_neg Bool.false_ne_true, if_neg hne.symm] at h
      rw [runsHeadless, List.any_cons, hplain, Bool.not_false, Bool.true_or, Bool.or_true]
      cases hread : readTranscribeOption lower system file argument rest.head? read with
      | error message =>
        rw [hread] at h
        cases h
      | ok taken =>
        obtain ⟨htaken, hsame, hheadless⟩ := optionRead_transcribe _ _ taken hread
        obtain ⟨took, next⟩ := taken
        rw [hread] at h
        obtain rfl : took = takesValue argument := htaken
        by_cases hvalue : takesValue argument = true
        · rw [hvalue] at h
          cases rest with
          | nil =>
            obtain rfl := Except.ok.inj h
            rw [filesIn, hplain, if_neg Bool.false_ne_true, hvalue]
            exact ⟨hsame.trans (List.append_nil _).symm, hheadless⟩
          | cons value rest =>
            have hrest' : separator ∉ rest := fun h => hrest (List.mem_cons_of_mem value h)
            obtain ⟨hfiles, hlater⟩ := files_of_readTranscribe rest next hrest' h
            rw [filesIn_value hplain hvalue, ← hsame]
            exact ⟨hfiles, by rw [hlater, hheadless, Bool.true_or]⟩
        · rw [Bool.not_eq_true] at hvalue
          rw [hvalue] at h
          obtain ⟨hfiles, hlater⟩ := files_of_readTranscribe rest next hrest h
          rw [filesIn_option hplain hvalue, ← hsame]
          exact ⟨hfiles, by rw [hlater, hheadless, Bool.true_or]⟩

/-! ## vocabulary's terms -/

theorem readTerms_ended {names : List Text} (h : ∀ term ∈ names, simplified term ≠ []) (terms : List Text) :
    readTerms terms true names = .ok (terms ++ names) := by
  induction names generalizing terms with
  | nil => rw [readTerms, List.append_nil]
  | cons term rest ih =>
    have hterm := h term List.mem_cons_self
    rw [readTerms, Bool.not_true, Bool.false_and, Bool.false_and, if_neg Bool.false_ne_true, if_neg Bool.false_ne_true,
      if_neg (by simpa using hterm), ih fun term hmem => h term (List.mem_cons_of_mem _ hmem)]
    simp

/-- **What follows `--` is added to the terms.** -/
theorem readTerms_separator {names : List Text} (h : ∀ term ∈ names, simplified term ≠ []) :
    ∀ (arguments terms : List Text), separator ∉ arguments →
      readTerms terms false (arguments ++ separator :: names) = (readTerms terms false arguments).map (· ++ names)
  | [], terms, _ => by
    rw [List.nil_append, readTerms]
    exact readTerms_ended h terms
  | argument :: rest, terms, hseparator => by
    obtain ⟨hne, hrest⟩ := List.ne_and_not_mem_of_not_mem_cons hseparator
    rw [List.cons_append, readTerms, readTerms, readTerms_separator h rest _ hrest]
    split_ifs <;> first | rfl | simp_all

/-- The terms before `--` are the arguments. -/
theorem readTerms_eq : ∀ (arguments terms : List Text) {result : List Text}, separator ∉ arguments →
    readTerms terms false arguments = .ok result → result = terms ++ arguments
  | [], terms, result, _, h => by
    obtain rfl := Except.ok.inj h
    exact (List.append_nil _).symm
  | argument :: rest, terms, result, hseparator, h => by
    obtain ⟨hne, hrest⟩ := List.ne_and_not_mem_of_not_mem_cons hseparator
    rw [readTerms, if_neg (by simp [hne.symm])] at h
    split_ifs at h
    rw [readTerms_eq rest _ hrest h, List.append_assoc]
    rfl

/-! ## What is decided -/

variable (system) in
/-- Nothing in what was read before `--` is a mistake. -/
structure Transcribe.Ready (read : Transcribe) : Prop where
  formats : (read.options.raw && read.options.format ≠ .text) = false
  stdin : kStdinFile ∉ read.files
  readable : read.headless = true → ∀ path ∈ read.files,
    system.isReadable (system.absoluteFilePath path) = true ∧ system.isFile (system.absoluteFilePath path) = true

variable (system) in
/-- The decision to transcribe what was read, and the files after `--`. -/
def transcribing (decision : CommandLineDecision) (read : Transcribe) (names : List Text) : CommandLineDecision :=
  { decision with
    headless := read.options
    transcribeFiles := absolutePaths system (read.files ++ names)
    mode := if read.headless then .transcribeHeadless else decision.mode }

theorem parseTranscribe_iff {arguments names : List Text} {decision result : CommandLineDecision}
    (hseparator : separator ∉ arguments) (hawaits : awaitsValue arguments = false) (hne : names ≠ [])
    (hstdin : kStdinFile ∉ names)
    (hreadable : runsHeadless arguments = true → ∀ path ∈ names,
      system.isReadable (system.absoluteFilePath path) = true ∧ system.isFile (system.absoluteFilePath path) = true) :
    parseTranscribeArguments lower system file (arguments ++ separator :: names) decision = .ok result ↔
      ∃ read, readTranscribe lower system file { options := decision.headless } false arguments = .ok read ∧
        read.Ready system ∧ result = transcribing system decision read names := by
  rw [parseTranscribeArguments, readTranscribe_separator names arguments _ hseparator hawaits]
  cases hread : readTranscribe lower system file { options := decision.headless } false arguments with
  | error message =>
    constructor
    · rintro ⟨⟩
    · rintro ⟨_, ⟨⟩, _⟩
  | ok read =>
    obtain ⟨-, hheadless⟩ := files_of_readTranscribe arguments _ hseparator hread
    rw [Bool.false_or] at hheadless
    have hexists : (∃ found, Except.ok (ε := Text) read = .ok found ∧ found.Ready system ∧
        result = transcribing system decision found names) ↔
        read.Ready system ∧ result = transcribing system decision read names := by
      refine ⟨?_, fun h => ⟨read, rfl, h⟩⟩
      rintro ⟨found, heq, h⟩
      exact Except.ok.inj heq ▸ h
    rw [hexists]
    show (if (read.options.raw && read.options.format ≠ .text) = true then _ else _) = _ ↔ _
    by_cases hformats : (read.options.raw && read.options.format ≠ .text) = true
    · rw [if_pos hformats]
      exact ⟨by rintro ⟨⟩, fun h => absurd hformats (by rw [h.1.formats]; exact Bool.false_ne_true)⟩
    · rw [if_neg hformats]
      have hfiles : (read.files ++ names).isEmpty = false := by simp [hne]
      show (if (read.files ++ names).isEmpty = true then _ else _) = _ ↔ _
      rw [hfiles, if_neg Bool.false_ne_true]
      show (if (read.files ++ names).contains kStdinFile = true then _ else _) = _ ↔ _
      by_cases hfile : kStdinFile ∈ read.files
      · have hcontains : (read.files ++ names).contains kStdinFile = true := by simp [hfile]
        have hlength : 1 < (read.files ++ names).length := by
          have h₁ := List.length_pos_of_mem hfile
          have h₂ := List.length_pos_of_ne_nil hne
          rw [List.length_append]
          omega
        rw [if_pos hcontains, finishStdinTranscribe, if_pos hlength]
        exact ⟨by rintro ⟨⟩, fun h => absurd hfile h.1.stdin⟩
      · have hcontains : (read.files ++ names).contains kStdinFile = false := by simp [hfile, hstdin]
        rw [hcontains, if_neg Bool.false_ne_true]
        have hready : (∀ path ∈ read.files, read.headless = true →
            system.isReadable (system.absoluteFilePath path) = true ∧
              system.isFile (system.absoluteFilePath path) = true) → read.Ready system := fun h =>
          ⟨Bool.eq_false_iff.mpr hformats, hfile, fun hheadless path hpath => h path hpath hheadless⟩
        cases hrun : read.headless with
        | false =>
          have heq : transcribing system decision read names = { decision with
              headless := read.options
              transcribeFiles := absolutePaths system (read.files ++ names) } := by
            rw [transcribing, hrun]
            rfl
          rw [heq]
          refine ⟨fun h => ⟨hready fun _ _ h => ?_, (Except.ok.inj h).symm⟩, fun h => congrArg Except.ok h.2.symm⟩
          rw [hrun] at h
          cases h
        | true =>
          have heq : transcribing system decision read names = { decision with
              headless := read.options
              transcribeFiles := absolutePaths system (read.files ++ names)
              mode := .transcribeHeadless } := by
            rw [transcribing, hrun]
            rfl
          rw [heq]
          simp only [Bool.not_true, Bool.false_eq_true, if_false]
          split
          · rename_i path hfind
            have hpath := List.find?_some hfind
            refine ⟨by rintro ⟨⟩, fun h => ?_⟩
            obtain ⟨name, hname, rfl⟩ := List.mem_map.mp (List.mem_of_find?_eq_some hfind)
            have hfine := (List.mem_append.mp hname).elim (h.1.readable hrun name)
              (hreadable (hheadless.symm.trans hrun) name)
            rw [hfine.1, hfine.2] at hpath
            cases hpath
          · rename_i hfind
            refine ⟨fun h => ⟨hready fun path hpath _ => ?_, (Except.ok.inj h).symm⟩,
              fun h => congrArg Except.ok h.2.symm⟩
            have hmem : system.absoluteFilePath path ∈ absolutePaths system (read.files ++ names) :=
              List.mem_map_of_mem (List.mem_append_left names hpath)
            simpa using List.find?_eq_none.mp hfind _ hmem

/-! ## The whole command line -/

variable (lower system) in
/-- The arguments begin with the program and `transcribe`. -/
def Transcribes (arguments : List Text) : Prop := verbOf lower arguments = "transcribe".toList

variable (lower) in
/-- The arguments begin with the program and `vocabulary add`. -/
def AddsVocabulary (arguments : List Text) : Prop :=
  verbOf lower arguments = "vocabulary".toList ∧ arguments[2]?.map lower.text = some "add".toList

theorem verbOf_append {arguments : List Text} (h : verbOf lower arguments ≠ []) (more : List Text) :
    2 ≤ arguments.length ∧ verbOf lower (arguments ++ more) = verbOf lower arguments := by
  have hlength : 1 < arguments.length := by
    by_contra hshort
    rw [verbOf, List.getElem?_eq_none (by omega)] at h
    exact h rfl
  exact ⟨hlength, by rw [verbOf, verbOf, List.getElem?_append_left hlength]⟩

/-- The version and the help are only looked for before `--`. -/
theorem takeWhile_separator {arguments : List Text} (h : separator ∉ arguments) (names : List Text) :
    (arguments ++ separator :: names).takeWhile (· ≠ separator) = arguments := by
  have hkept : ∀ argument ∈ arguments, decide (argument ≠ separator) = true := fun argument hmem =>
    decide_eq_true fun heq => h (heq ▸ hmem)
  rw [List.takeWhile_append_of_pos hkept]
  simp

variable {fold : CaseFolding} {logPath : Text}

/-- Arguments that ask for the version or the help. -/
def asksForBanner (arguments : List Text) : Bool :=
  arguments.contains "--version".toList || (arguments.contains "--help".toList || arguments.contains "-h".toList)

/-- Arguments are accepted when nothing asks for the version or the help, and they are read without a mistake. -/
theorem accepted_iff {arguments names : List Text} (h : separator ∉ arguments) {decision : CommandLineDecision} :
    parseCommandLine lower fold system file (arguments ++ separator :: names) logPath = (decision, []) ↔
      asksForBanner arguments = false ∧
        parseArguments lower fold system file (arguments ++ separator :: names) = .ok (decision, []) := by
  rw [parseCommandLine, takeWhile_separator h, asksForBanner]
  cases arguments.contains "--version".toList with
  | true => exact ⟨fun h => (nomatch congrArg Prod.snd h), fun h => (nomatch h.1)⟩
  | false =>
    rw [if_neg Bool.false_ne_true, Bool.false_or]
    cases arguments.contains "--help".toList || arguments.contains "-h".toList with
    | true => exact ⟨fun h => (nomatch congrArg Prod.snd h), fun h => (nomatch h.1)⟩
    | false =>
      rw [if_neg Bool.false_ne_true]
      cases parseArguments lower fold system file (arguments ++ separator :: names) with
      | error message => exact ⟨fun h => (nomatch congrArg Prod.snd h), fun h => (nomatch h.2)⟩
      | ok result => exact ⟨fun h => ⟨rfl, congrArg Except.ok h⟩, fun h => Except.ok.inj h.2⟩

/-- What may stand anywhere, as `transcribe` has it. -/
def standingAnywhere (arguments : List Text) (format : Option OutputFormat) : CommandLineDecision where
  sessionOverrides := ⟨format, none, none⟩
  startListening := arguments.contains "--start-listening".toList
  showSettings := arguments.contains "--show-settings".toList
  showSetup := arguments.contains "--show-setup".toList

theorem readOverrides_transcribe (arguments : List Text) :
    readOverrides lower fold file arguments "transcribe".toList =
      (formatGiven lower fold arguments).map fun format => ⟨format, none, none⟩ := by
  rw [readOverrides]
  cases formatGiven lower fold arguments with
  | error message => rfl
  | ok format => rfl

theorem parseArguments_transcribe {arguments : List Text} (h : Transcribes lower arguments) :
    parseArguments lower fold system file arguments = (do
      let format ← formatGiven lower fold arguments
      let decision ← parseLaunch lower system file "transcribe".toList arguments (standingAnywhere arguments format)
      return (decision, [])) := by
  rw [Transcribes] at h
  rw [parseArguments]
  dsimp only
  rw [h, if_neg (by decide), if_neg (by decide), readOverrides_transcribe]
  cases formatGiven lower fold arguments with
  | error message => rfl
  | ok format => rfl

/-- Transcribing, with or without a window. -/
theorem parseLaunch_transcribe_iff {arguments names : List Text} {decision result : CommandLineDecision}
    (h : Transcribes lower arguments) (hseparator : separator ∉ arguments)
    (hawaits : awaitsValue (arguments.drop 2) = false) (hdecision : decision.headless = {}) (hne : names ≠ [])
    (hstdin : kStdinFile ∉ names)
    (hreadable : runsHeadless (arguments.drop 2) = true → ∀ path ∈ names,
      system.isReadable (system.absoluteFilePath path) = true ∧ system.isFile (system.absoluteFilePath path) = true) :
    parseLaunch lower system file "transcribe".toList (arguments ++ separator :: names) decision = .ok result ↔
      ∃ read, readTranscribe lower system file {} false (arguments.drop 2) = .ok read ∧ read.Ready system ∧
        result = transcribing system { decision with mode := .runGui } read names := by
  have hlength : 2 ≤ arguments.length := (verbOf_append (by rw [h]; decide) []).1
  have hdrop : (arguments ++ separator :: names).drop 2 = arguments.drop 2 ++ separator :: names :=
    List.drop_append_of_le_length hlength
  have hiff : ∀ (mode : LaunchMode) (found : CommandLineDecision), parseTranscribeArguments lower system file
      (arguments.drop 2 ++ separator :: names) { decision with mode } = .ok found ↔
        ∃ read, readTranscribe lower system file {} false (arguments.drop 2) = .ok read ∧ read.Ready system ∧
          found = transcribing system { decision with mode } read names := by
    intro mode found
    rw [parseTranscribe_iff (fun h => hseparator (List.mem_of_mem_drop h)) hawaits hne hstdin hreadable]
    show (∃ read, readTranscribe lower system file { options := decision.headless } _ _ = _ ∧ _) ↔ _
    rw [hdecision]
  have hmode : ∀ (mode : LaunchMode) (read : Transcribe), mode ≠ .transcribeHeadless →
      (if (transcribing system { decision with mode } read names).mode = .transcribeHeadless then
        Except.ok (transcribing system { decision with mode } read names)
      else Except.ok (openedInWindow (transcribing system { decision with mode } read names))) =
        Except.ok (ε := Text) (transcribing system { decision with mode := .runGui } read names) := by
    intro mode read hmode
    have hfiles : (absolutePaths system (read.files ++ names)).isEmpty = false := by simp [absolutePaths, hne]
    cases hrun : read.headless with
    | true => simp [transcribing, hrun]
    | false => simp [transcribing, openedInWindow, hrun, hmode, hfiles]
  rw [parseLaunch, if_pos rfl, hdrop]
  generalize hmode' : (if (arguments ++ separator :: names).contains "--daemon".toList then LaunchMode.runDaemon
    else LaunchMode.runGui) = mode
  have hne' : mode ≠ .transcribeHeadless := by
    rw [← hmode']
    split_ifs <;> exact fun h => nomatch h
  constructor
  · intro h
    obtain ⟨found, hfound, h⟩ := bind_eq_ok h
    obtain ⟨read, hread, hready, rfl⟩ := (hiff mode found).mp hfound
    exact ⟨read, hread, hready, Except.ok.inj (h.symm.trans (hmode mode read hne'))⟩
  · rintro ⟨read, hread, hready, rfl⟩
    rw [(hiff mode _).mpr ⟨read, hread, hready, rfl⟩]
    exact hmode mode read hne'

variable (lower system) in
/-- Names that may follow `--`: some, none blank for `vocabulary add`; for `transcribe` none the standard
input, and readable files where it runs headless. -/
structure Names (arguments names : List Text) : Prop where
  ne_nil : names ≠ []
  terms : AddsVocabulary lower arguments → ∀ term ∈ names, simplified term ≠ []
  stdin : Transcribes lower arguments → kStdinFile ∉ names
  readable : Transcribes lower arguments → runsHeadless (arguments.drop 2) = true → ∀ path ∈ names,
    system.isReadable (system.absoluteFilePath path) = true ∧ system.isFile (system.absoluteFilePath path) = true

/-- The decision `transcribe` comes to, where it is accepted. -/
theorem accepted_transcribe_iff {arguments names : List Text} (h : Transcribes lower arguments)
    (hseparator : separator ∉ arguments) (hawaits : awaitsValue (arguments.drop 2) = false)
    (hnames : Names lower system arguments names) {decision : CommandLineDecision} :
    parseCommandLine lower fold system file (arguments ++ separator :: names) logPath = (decision, []) ↔
      asksForBanner arguments = false ∧ ∃ format read,
        formatGiven lower fold (arguments ++ separator :: names) = .ok format ∧
        readTranscribe lower system file {} false (arguments.drop 2) = .ok read ∧ read.Ready system ∧
        decision = transcribing system (standingAnywhere (arguments ++ separator :: names) format) read names := by
  have hverb : Transcribes lower (arguments ++ separator :: names) :=
    (verbOf_append (by rw [h]; decide) _).2.trans h
  rw [accepted_iff hseparator, parseArguments_transcribe hverb]
  refine and_congr_right fun _ => ⟨fun haccepted => ?_, ?_⟩
  · obtain ⟨format, hformat, haccepted⟩ := bind_eq_ok haccepted
    obtain ⟨found, hfound, haccepted⟩ := bind_eq_ok haccepted
    obtain rfl : found = decision := congrArg Prod.fst (Except.ok.inj haccepted)
    obtain ⟨read, hread, hready, rfl⟩ := (parseLaunch_transcribe_iff h hseparator hawaits rfl hnames.ne_nil
      (hnames.stdin h) (hnames.readable h)).mp hfound
    exact ⟨format, read, hformat, hread, hready, rfl⟩
  · rintro ⟨format, read, hformat, hread, hready, rfl⟩
    rw [hformat]
    show (parseLaunch lower system file "transcribe".toList _ _ >>= _) = _
    rw [(parseLaunch_transcribe_iff h hseparator hawaits rfl hnames.ne_nil (hnames.stdin h)
      (hnames.readable h)).mpr ⟨read, hread, hready, rfl⟩]
    rfl

/-- The decision `vocabulary add` comes to, where it is accepted. -/
theorem accepted_vocabulary_iff {arguments names : List Text} (h : AddsVocabulary lower arguments)
    (hseparator : separator ∉ arguments) (hnames : Names lower system arguments names)
    {decision : CommandLineDecision} :
    parseCommandLine lower fold system file (arguments ++ separator :: names) logPath = (decision, []) ↔
      asksForBanner arguments = false ∧ (∃ terms, readTerms [] false (arguments.drop 3) = .ok terms) ∧
        decision =
          { mode := .runCli, ipcCommand := .addVocabulary, vocabularyTerms := arguments.drop 3 ++ names } := by
  obtain ⟨hverb, hadd⟩ := h
  obtain ⟨hlength, hverb'⟩ := verbOf_append (by rw [hverb]; decide) (separator :: names)
  obtain ⟨command, hcommand, hlower⟩ := Option.map_eq_some_iff.mp hadd
  have hdrop : (arguments ++ separator :: names).drop 2 = command :: (arguments.drop 3 ++ separator :: names) := by
    obtain ⟨hshort, hget⟩ := List.getElem?_eq_some_iff.mp hcommand
    rw [List.drop_append_of_le_length hlength, List.drop_eq_getElem_cons hshort, hget, List.cons_append]
  have hread := readTerms_separator (hnames.terms ⟨hverb, hadd⟩) (arguments.drop 3) []
    fun h => hseparator (List.mem_of_mem_drop h)
  rw [accepted_iff hseparator, parseArguments]
  dsimp only
  rw [hverb', hverb, if_neg (by decide), if_pos rfl, hdrop, parseVocabularyArguments,
    if_neg (by rw [hlower]; simp), hread]
  refine and_congr_right fun _ => ?_
  cases hterms : readTerms [] false (arguments.drop 3) with
  | error message => exact ⟨fun h => (nomatch h), fun ⟨⟨_, h⟩, _⟩ => (nomatch h)⟩
  | ok terms =>
    obtain rfl := readTerms_eq (arguments.drop 3) [] (fun h => hseparator (List.mem_of_mem_drop h)) hterms
    have hne : arguments.drop 3 ++ names ≠ [] := List.append_ne_nil_of_right_ne_nil _ hnames.ne_nil
    rw [Except.map, List.nil_append]
    cases hall : arguments.drop 3 ++ names with
    | nil => exact absurd hall hne
    | cons first more =>
      constructor
      · intro haccepted
        exact ⟨⟨_, rfl⟩, (congrArg Prod.fst (Except.ok.inj haccepted)).symm⟩
      · rintro ⟨-, rfl⟩
        rfl

/-! ## Two lists of names -/

/-- A decision but for the files and the terms. -/
def CommandLineDecision.besidesNames (decision : CommandLineDecision) : CommandLineDecision :=
  { decision with transcribeFiles := [], vocabularyTerms := [] }

variable (lower system) in
/-- The files of a decision, or its terms, are those given before `--` and the names after it. -/
structure CommandLineDecision.HasNames (arguments names : List Text) (decision : CommandLineDecision) : Prop where
  files : Transcribes lower arguments →
    decision.transcribeFiles = absolutePaths system (filesIn (arguments.drop 2) ++ names)
  terms : AddsVocabulary lower arguments → decision.vocabularyTerms = arguments.drop 3 ++ names

variable (lower fold system file logPath) in
/-- With names after `--` the decision is the one with others, but for the names. -/
def ReadAsNames (arguments names : List Text) (decision : CommandLineDecision) : Prop :=
  ∃ found, parseCommandLine lower fold system file (arguments ++ separator :: names) logPath = (found, []) ∧
    found.besidesNames = decision.besidesNames ∧ found.HasNames lower system arguments names

variable (lower fold) in
/-- Two lists of arguments agree on what may stand anywhere. -/
structure Agree (arguments others : List Text) : Prop where
  format : formatGiven lower fold arguments = formatGiven lower fold others
  startListening : "--start-listening".toList ∈ arguments ↔ "--start-listening".toList ∈ others
  showSettings : "--show-settings".toList ∈ arguments ↔ "--show-settings".toList ∈ others
  showSetup : "--show-setup".toList ∈ arguments ↔ "--show-setup".toList ∈ others

/-- Decisions to transcribe differ in nothing but the files when they agree on what may stand anywhere. -/
theorem besidesNames_transcribing_iff (arguments arguments' : List Text) (format format' : Option OutputFormat)
    (read : Transcribe) (names others : List Text) :
    (transcribing system (standingAnywhere arguments format) read names).besidesNames =
        (transcribing system (standingAnywhere arguments' format') read others).besidesNames ↔
      format = format' ∧ ("--start-listening".toList ∈ arguments ↔ "--start-listening".toList ∈ arguments') ∧
        ("--show-settings".toList ∈ arguments ↔ "--show-settings".toList ∈ arguments') ∧
        ("--show-setup".toList ∈ arguments ↔ "--show-setup".toList ∈ arguments') := by
  have hcontains : ∀ option : Text, (arguments.contains option = arguments'.contains option) ↔
      (option ∈ arguments ↔ option ∈ arguments') := by
    intro option
    rw [Bool.eq_iff_iff, List.contains_iff_mem, List.contains_iff_mem]
  rw [← hcontains, ← hcontains, ← hcontains]
  constructor
  · intro h
    have hformat := congrArg (fun decision => decision.sessionOverrides.outputFormat) h
    exact ⟨hformat, congrArg CommandLineDecision.startListening h, congrArg CommandLineDecision.showSettings h,
      congrArg CommandLineDecision.showSetup h⟩
  · rintro ⟨rfl, hlistening, hsettings, hsetup⟩
    simp only [transcribing, standingAnywhere, CommandLineDecision.besidesNames, hlistening, hsettings, hsetup]

/-- **What follows `--` is read as names and nothing else exactly when it agrees with other names on what may
stand anywhere**, and always for `vocabulary add`. -/
theorem names_after_separator_iff {arguments names others : List Text}
    (h : Transcribes lower arguments ∨ AddsVocabulary lower arguments) (hseparator : separator ∉ arguments)
    (hawaits : Transcribes lower arguments → awaitsValue (arguments.drop 2) = false)
    (hnames : Names lower system arguments names) (hothers : Names lower system arguments others)
    {decision : CommandLineDecision}
    (haccepted : parseCommandLine lower fold system file (arguments ++ separator :: others) logPath = (decision, [])) :
    ReadAsNames lower system file fold logPath arguments names decision ∧
        decision.HasNames lower system arguments others ↔
      AddsVocabulary lower arguments ∨
        Agree lower fold (arguments ++ separator :: names) (arguments ++ separator :: others) := by
  have hverbs : Transcribes lower arguments → ¬ AddsVocabulary lower arguments := by
    intro htranscribes hvocabulary
    have := htranscribes.symm.trans hvocabulary.1
    revert this
    decide
  rcases h with h | h
  · obtain ⟨hbanner, format, read, hformat, hread, hready, rfl⟩ :=
      (accepted_transcribe_iff h hseparator (hawaits h) hothers).mp haccepted
    have hfiles : read.files = filesIn (arguments.drop 2) :=
      (files_of_readTranscribe _ _ (fun h => hseparator (List.mem_of_mem_drop h)) hread).1
    have hhas : ∀ (names : List Text) (decision : CommandLineDecision),
        (transcribing system decision read names).HasNames lower system arguments names := fun names decision =>
      ⟨fun _ => by rw [← hfiles]; rfl, fun hvocabulary => absurd hvocabulary (hverbs h)⟩
    constructor
    · rintro ⟨⟨found, hfound, hbesides, -⟩, -⟩
      obtain ⟨-, format', read', hformat', hread', -, rfl⟩ :=
        (accepted_transcribe_iff h hseparator (hawaits h) hnames).mp hfound
      obtain rfl := Except.ok.inj (hread.symm.trans hread')
      obtain ⟨rfl, hlistening, hsettings, hsetup⟩ := (besidesNames_transcribing_iff ..).mp hbesides
      exact .inr ⟨hformat'.trans hformat.symm, hlistening, hsettings, hsetup⟩
    · rintro (hvocabulary | hagree)
      · exact absurd hvocabulary (hverbs h)
      · have hfound : parseCommandLine lower fold system file (arguments ++ separator :: names) logPath =
            (transcribing system (standingAnywhere (arguments ++ separator :: names) format) read names, []) :=
          (accepted_transcribe_iff h hseparator (hawaits h) hnames).mpr
            ⟨hbanner, format, read, hagree.format.trans hformat, hread, hready, rfl⟩
        have hbesides :
            (transcribing system (standingAnywhere (arguments ++ separator :: names) format) read names).besidesNames =
              (transcribing system (standingAnywhere (arguments ++ separator :: others) format) read
                others).besidesNames :=
          (besidesNames_transcribing_iff ..).mpr ⟨rfl, hagree.startListening, hagree.showSettings, hagree.showSetup⟩
        exact ⟨⟨_, hfound, hbesides, hhas names _⟩, hhas others _⟩
  · obtain ⟨hbanner, hterms, rfl⟩ := (accepted_vocabulary_iff h hseparator hothers).mp haccepted
    have hfound : parseCommandLine lower fold system file (arguments ++ separator :: names) logPath = (_, []) :=
      (accepted_vocabulary_iff h hseparator hnames).mpr ⟨hbanner, hterms, rfl⟩
    refine iff_of_true ⟨⟨_, hfound, rfl, ?_⟩, ?_⟩ (.inl h)
    · exact ⟨fun htranscribes => absurd h (hverbs htranscribes), fun _ => rfl⟩
    · exact ⟨fun htranscribes => absurd h (hverbs htranscribes), fun _ => rfl⟩

/-- The options that may stand anywhere. -/
def optionsAnywhere : List Text :=
  ["--format", "--start-listening", "--show-settings", "--show-setup"].map String.toList

/-- A desk where every file is there to read. -/
def desk : System where
  absoluteFilePath path := path
  isDir _ := false
  isReadable _ := true
  isFile _ := true
  isAudioFile _ := false
  readVocabularyFile _ := none
  toDouble _ := none
  milliseconds _ := 0

def speecherTranscribe : List Text := ["speecher", "transcribe", "talk.wav"].map String.toList

def memo : List Text := ["memo.wav".toList]

theorem names_dashed (name : Text) (h : name ≠ kStdinFile) : Names .letters desk speecherTranscribe [name] where
  ne_nil := List.cons_ne_nil _ _
  terms h := absurd h.1 (by decide)
  stdin _ := by simpa using h.symm
  readable _ hheadless := absurd hheadless (by decide)

theorem transcribes_speecher : Transcribes .letters speecherTranscribe := by
  rw [Transcribes]
  decide

/-- The two recordings, transcribed in a window. -/
def memoDecision : CommandLineDecision := { transcribeFiles := ["talk.wav", "memo.wav"].map String.toList }

/-- A file called `--version` is read as one called `memo.wav` is. -/
theorem names_after_separator_version :
    ReadAsNames .letters desk .empty .ascii [] speecherTranscribe ["--version".toList] memoDecision ∧
        memoDecision.HasNames .letters desk speecherTranscribe memo ↔
      AddsVocabulary .letters speecherTranscribe ∨
        Agree .letters .ascii (speecherTranscribe ++ separator :: ["--version".toList])
          (speecherTranscribe ++ separator :: memo) :=
  names_after_separator_iff (.inl transcribes_speecher) (by decide) (fun _ => by decide) (names_dashed _ (by decide))
    (names_dashed "memo.wav".toList (by decide)) rfl

/-- A file called `--start-listening` starts a dictation. -/
theorem separator_starts_dictation :
    ¬ ∀ (names others : List Text) (decision : CommandLineDecision), Names .letters desk speecherTranscribe names →
      Names .letters desk speecherTranscribe others →
      parseCommandLine .letters .ascii desk .empty (speecherTranscribe ++ separator :: others) [] = (decision, []) →
      ReadAsNames .letters desk .empty .ascii [] speecherTranscribe names decision := by
  intro h
  obtain ⟨found, hfound, hbesides, -⟩ := h ["--start-listening".toList] memo memoDecision (names_dashed _ (by decide))
    (names_dashed _ (by decide)) rfl
  have hlistening : (parseCommandLine .letters .ascii desk .empty
      (speecherTranscribe ++ separator :: ["--start-listening".toList]) []).1.startListening = true := rfl
  have hsame : found.besidesNames.startListening = memoDecision.besidesNames.startListening := by rw [hbesides]
  rw [hfound] at hlistening
  cases hlistening.symm.trans hsame

end Speecher.CommandLine
