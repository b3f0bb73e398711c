import Speecher.Bindings.AndroidMatching
import Speecher.Dictation.AndroidAudio

/-!
# What the phone commits

Between two starts the engine puts words into the field at most once, and never after a cancel. What it puts there is
the words as heard with the replacements, or what a cleanup answered that was not given up before; while it edits a
selection, only a revision of the text that is still selected. The dictation is reported done once, and only when it is.

`Records` says this of the history, `Standing` what the phase of the engine promises for what comes; every event keeps
both (`Committing.step`).
-/

namespace Speecher.Android

/-! ## The history of commits -/

namespace Effect

/-- A commit goes through. -/
def succeeds : Effect → Bool
  | .commit _ _ _ took => took
  | _ => false

/-- The dictation is reported done. -/
def reports : Effect → Bool
  | .committed _ => true
  | _ => false

/-- The dictation is over: its words went in, it was reported done, or it was cancelled. -/
def settles : Effect → Bool
  | .commit _ _ _ took => took
  | .committed _ => true
  | .cancelled => true
  | _ => false

/-- What does not end a dictation. -/
theorem of_settles {e : Effect} (h : e.settles = false) : e.reports = false ∧ e ≠ .cancelled ∧ e.succeeds = false := by
  cases e with
  | commit _ _ _ took => exact ⟨rfl, nofun, h⟩
  | committed _ => cases h
  | cancelled => cases h
  | _ => exact ⟨rfl, nofun, rfl⟩

end Effect

section Conditions

variable (u : Unicode) (v : Digits)

/-- What replacements make of words as heard. -/
def FromWords (replaced : ReplacedTranscript) : Prop := ∃ raw rules, replaced = replaceSpoken u raw rules

/-- Where a text to commit comes from: without a selection to edit, the words as heard with their replacements, or a
cleanup's answer with its placeholders restored; with one, the revision of it that a cleanup answered. -/
def Source (history : List Effect) (edited : Option Text) (text : Text) : Prop :=
  match edited with
  | none => (∃ replaced, FromWords u replaced ∧ text = replaced.text) ∨
      ∃ request replaced answer, .answered request replaced none answer ∈ history ∧ replaced.restore u v answer = some text
  | some selected => ∃ request replaced answer, .answered request replaced (some selected) answer ∈ history ∧
      DictationEngine.restoreEdit u v replaced answer selected = some text

theorem Source.mono {u : Unicode} {v : Digits} {history more : List Effect} {edited : Option Text} {text : Text}
    (h : Source u v history edited text) (hmore : history ⊆ more) : Source u v more edited text := by
  cases edited with
  | none =>
    exact h.imp_right fun ⟨request, replaced, answer, hmem, hrestore⟩ =>
      ⟨request, replaced, answer, hmore hmem, hrestore⟩
  | some selected =>
    obtain ⟨request, replaced, answer, hmem, hrestore⟩ := h
    exact ⟨request, replaced, answer, hmore hmem, hrestore⟩

/-- What may be in the history of a dictation after `before`. -/
def Allowed (before : List Effect) : Effect → Prop
  | .commit text edited selection _ => (∀ e ∈ before, e.settles = false) ∧ Source u v before edited text ∧
      ∀ selected, edited = some selected → selection = some selected
  | .committed inserted => (∀ e ∈ before, e.reports = false ∧ e ≠ .cancelled) ∧
      (isBlank inserted.text ∧ (∀ e ∈ before, e.succeeds = false) ∨
        ∃ edited selection, before.getLast? = some (.commit inserted.text edited selection true))
  | _ => True

end Conditions

/-- A cleanup's answer is taken only while the cleanup was not given up. -/
def Unabandoned (log : List Effect) : Prop :=
  Each (fun before e => ∀ request replaced edited text, e = .answered request replaced edited text →
    .abandoned request ∉ before) log

/-! ## Blank words -/

variable {u : Unicode} {v : Digits}

theorem words_of_isBlank {text : Text} (h : isBlank text = true) : words u text = [] := by
  have hfrom : ∀ (rest : Text) (index : ℕ), (∀ c ∈ rest, isWhitespace c = true) → wordsFrom u text rest index none = [] := by
    intro rest
    induction rest with
    | nil => exact fun _ _ => rfl
    | cons c rest ih =>
      intro index hrest
      have hc : u.isLetterOrNumber c = false := isLetterOrNumber_of_isWhitespace u (hrest c List.mem_cons_self)
      rw [wordsFrom, hc, if_neg Bool.false_ne_true, ih (index + 1) fun c hc => hrest c (List.mem_cons_of_mem _ hc)]
      rfl
  exact hfrom text 0 (List.all_eq_true.mp h)

/-- Without words nothing matches. -/
theorem findMatches_of_isBlank {text : Text} (h : isBlank text = true) (rules : List BindingRule) :
    findMatches u text rules = [] := by
  have hmatches : ∀ rule, matchesOf u [] rule = [] := by
    intro rule
    have hlength : 0 < ((normalizedPhrase u rule.phrase).splitOn ' ').length :=
      List.length_pos_of_ne_nil (List.splitOn_ne_nil _ _)
    rw [matchesOf, List.length_nil, Nat.sub_eq_zero_of_le hlength]
    rfl
  rw [findMatches, words_of_isBlank h]
  simp only [List.flatMap_eq_nil_iff.mpr fun rule _ => hmatches rule]
  rfl

/-- Replacements make no words of none. -/
theorem isBlank_replaceSpoken {raw : Text} (h : isBlank raw = true) (rules : List BindingRule) :
    isBlank (replaceSpoken u raw rules).text = true := by
  rw [replaceSpoken]
  simp only [findMatches_of_isBlank h]
  exact h

namespace DictationEngine

variable {s s' : DictationEngine}

/-! ## What the engine keeps -/

/-- The dictation under way is not over. -/
def Open (s : DictationEngine) : Prop := ∀ e ∈ dictation s.log, e.settles = false

/-- What the history and the requests keep, in every phase. -/
structure Records (u : Unicode) (v : Digits) (s : DictationEngine) : Prop where
  allowed : Each (Allowed u v) (dictation s.log)
  unabandoned : Unabandoned s.log
  prepared : ∀ replaced, s.prepared = some replaced → FromWords u replaced
  cleanups : ∀ c ∈ s.cleanups, FromWords u c.replaced ∧ c.request < s.requests
  batches : ∀ b ∈ s.batches, b.request < s.requests
  abandoned : ∀ request, .abandoned request ∈ s.log → request < s.requests

/-- What a phase promises. -/
def Standing (u : Unicode) (v : Digits) (s : DictationEngine) : Phase → Prop
  | .idle => (.started ∈ s.log → ∃ e ∈ dictation s.log, e = .cancelled ∨ e.reports = true) ∧
      ∀ e ∈ dictation s.log, e.succeeds = true → ∃ e' ∈ dictation s.log, e'.reports = true
  | .listening mic _ => s.Open ∧ s.prepared = none ∧ (s.selected ≠ none → ∃ provider, mic = .stopped (some provider))
  | .refining request cleanup _ => s.Open ∧ request < s.requests ∧ .abandoned request ∉ s.log ∧
      (∀ c ∈ s.cleanups, c.request = request → cleanup.isSome ∧ c.edited = s.selected) ∧
      ∀ b ∈ s.batches, b.request = request → cleanup = none ∧ s.prepared = none ∧ (s.selected ≠ none → b.cleanup.isSome)
  | .failed retry _ => s.Open ∧
      ∀ text, retry = .commit text → Source u v (dictation s.log) s.selected text ∨ isBlank text = true

/-- What holds after each event. -/
structure Committing (u : Unicode) (v : Digits) (s : DictationEngine) : Prop where
  records : Records u v s
  standing : Standing u v s s.phase

/-- Effects that end no dictation, and answer or commit nothing. -/
def Plain (effects : List Effect) : Prop :=
  ∀ e ∈ effects, (∃ audio, e = .captured audio) ∨ (∃ opening audio, e = .sent opening audio) ∨ (∃ opening, e = .ended opening)

namespace Plain

variable {effects : List Effect}

theorem nil : Plain [] := fun _ he => absurd he List.not_mem_nil

theorem dictation (h : Plain effects) (log : List Effect) : dictation (log ++ effects) = dictation log ++ effects := by
  refine since_append _ (fun e he => ?_) log
  rcases h e he with ⟨_, rfl⟩ | ⟨_, _, rfl⟩ | ⟨_, rfl⟩ <;> rfl

end Plain

/-- A step that leaves the commits alone: the microphone stays as it was, and nothing is asked, answered or given up. -/
structure Apart (s s' : DictationEngine) : Prop where
  selected : s'.selected = s.selected
  prepared : s'.prepared = s.prepared
  requests : s'.requests = s.requests
  cleanups : s'.cleanups = s.cleanups
  batches : s'.batches = s.batches
  log : ∃ effects, Plain effects ∧ s'.log = s.log ++ effects

namespace Apart

theorem same (hselected : s'.selected = s.selected) (hprepared : s'.prepared = s.prepared)
    (hrequests : s'.requests = s.requests) (hcleanups : s'.cleanups = s.cleanups) (hbatches : s'.batches = s.batches)
    (hlog : s'.log = s.log) : Apart s s' :=
  ⟨hselected, hprepared, hrequests, hcleanups, hbatches, [], Plain.nil, by rw [hlog, List.append_nil]⟩

theorem isOpen (h : Apart s s') (hopen : s.Open) : s'.Open := by
  obtain ⟨effects, hplain, hlog⟩ := h.log
  rw [Open, hlog, hplain.dictation]
  intro e he
  rcases List.mem_append.mp he with he | he
  · exact hopen e he
  · rcases hplain e he with ⟨_, rfl⟩ | ⟨_, _, rfl⟩ | ⟨_, rfl⟩ <;> rfl

theorem records (h : Apart s s') (hrecords : Records u v s) : Records u v s' := by
  obtain ⟨effects, hplain, hlog⟩ := h.log
  exact {
    allowed := by
      rw [hlog, hplain.dictation]
      refine hrecords.allowed.append fun before e after heffects => ?_
      rcases hplain e (heffects ▸ List.mem_append_right before List.mem_cons_self) with
        ⟨_, rfl⟩ | ⟨_, _, rfl⟩ | ⟨_, rfl⟩ <;> trivial
    unabandoned := by
      rw [hlog]
      refine Each.append hrecords.unabandoned fun before e after heffects request replaced edited text he => ?_
      rcases hplain e (heffects ▸ List.mem_append_right before List.mem_cons_self) with
        ⟨_, rfl⟩ | ⟨_, _, rfl⟩ | ⟨_, rfl⟩ <;> cases he
    prepared := h.prepared ▸ hrecords.prepared
    cleanups := by
      rw [h.cleanups, h.requests]
      exact hrecords.cleanups
    batches := by
      rw [h.batches, h.requests]
      exact hrecords.batches
    abandoned := by
      intro request hmem
      rw [hlog] at hmem
      rw [h.requests]
      refine hrecords.abandoned request ((List.mem_append.mp hmem).resolve_right fun hplained => ?_)
      rcases hplain _ hplained with ⟨_, he⟩ | ⟨_, _, he⟩ | ⟨_, he⟩ <;> cases he }

theorem mem_log (h : Apart s s') {e : Effect} (hcaptured : ∀ audio, e ≠ .captured audio)
    (hsent : ∀ opening audio, e ≠ .sent opening audio) (hended : ∀ opening, e ≠ .ended opening) :
    e ∈ s'.log ↔ e ∈ s.log := by
  obtain ⟨effects, hplain, hlog⟩ := h.log
  rw [hlog, List.mem_append, or_iff_left fun hmem => ?_]
  rcases hplain e hmem with ⟨audio, he⟩ | ⟨opening, audio, he⟩ | ⟨opening, he⟩
  · exact hcaptured audio he
  · exact hsent opening audio he
  · exact hended opening he

theorem standing (h : Apart s s') {phase : Phase} (hstanding : Standing u v s phase) : Standing u v s' phase := by
  obtain ⟨effects, hplain, hlog⟩ := h.log
  have hdictation : dictation s'.log = dictation s.log ++ effects := by rw [hlog, hplain.dictation]
  cases phase with
  | idle =>
    refine ⟨fun hstarted => ?_, fun e he hsucceeds => ?_⟩
    · obtain ⟨e, he, hends⟩ := hstanding.1 ((h.mem_log (e := .started) nofun nofun nofun).mp hstarted)
      exact ⟨e, hdictation ▸ List.mem_append_left effects he, hends⟩
    · rw [hdictation] at he
      rcases List.mem_append.mp he with he | he
      · obtain ⟨e', he', hreports⟩ := hstanding.2 e he hsucceeds
        exact ⟨e', hdictation ▸ List.mem_append_left effects he', hreports⟩
      · rcases hplain e he with ⟨_, rfl⟩ | ⟨_, _, rfl⟩ | ⟨_, rfl⟩ <;> cases hsucceeds
  | listening mic finishingPause =>
    exact ⟨h.isOpen hstanding.1, h.prepared.trans hstanding.2.1, h.selected ▸ hstanding.2.2⟩
  | refining request cleanup raw =>
    obtain ⟨hopen, hmade, habandoned, hcleanups, hbatches⟩ := hstanding
    refine ⟨h.isOpen hopen, h.requests ▸ hmade, fun hmem => ?_, ?_, ?_⟩
    · exact habandoned ((h.mem_log (e := .abandoned request) nofun nofun nofun).mp hmem)
    · rw [h.cleanups, h.selected]
      exact hcleanups
    · rw [h.batches, h.selected, h.prepared]
      exact hbatches
  | failed retry raw =>
    refine ⟨h.isOpen hstanding.1, fun text heq => (hstanding.2 text heq).imp_left fun hsource => ?_⟩
    rw [h.selected]
    refine hsource.mono ?_
    rw [hdictation]
    exact List.subset_append_left _ _

end Apart

/-! ## Commits and failures -/

theorem Records.logged (h : Records u v s) {e : Effect} (hstart : e.isStart = false)
    (hallowed : Allowed u v (dictation s.log) e)
    (hanswered : ∀ request replaced edited text, e = .answered request replaced edited text →
      .abandoned request ∉ s.log)
    (habandoned : ∀ request, e = .abandoned request → request < s.requests) : Records u v (s.logged e) where
  allowed := by
    rw [DictationEngine.logged, dictation_snoc hstart]
    exact h.allowed.snoc hallowed
  unabandoned := Each.snoc h.unabandoned hanswered
  prepared := h.prepared
  cleanups := h.cleanups
  batches := h.batches
  abandoned := by
    intro request hmem
    rcases List.mem_append.mp hmem with hmem | hmem
    · exact h.abandoned request hmem
    · exact habandoned request (List.mem_singleton.mp hmem).symm

theorem Open.logged (h : s.Open) {e : Effect} (hstart : e.isStart = false) (hsettles : e.settles = false) :
    (s.logged e).Open := by
  rw [Open, DictationEngine.logged, dictation_snoc hstart]
  intro e' he'
  rcases List.mem_append.mp he' with he' | he'
  · exact h e' he'
  · exact List.mem_singleton.mp he' ▸ hsettles

/-- The request a phase waits on was made. -/
def Made (s : DictationEngine) : Prop :=
  ∀ request cleanup raw, s.phase = .refining request cleanup raw → request < s.requests

theorem Committing.made (h : Committing u v s) : s.Made := by
  intro request cleanup raw hphase
  have hstanding := h.standing
  rw [hphase] at hstanding
  exact hstanding.2.1

theorem Made.of_not_refining (h : ∀ request cleanup raw, s.phase ≠ .refining request cleanup raw) : s.Made :=
  fun request cleanup raw hphase => absurd hphase (h request cleanup raw)

/-- What a dictation that is given up logs. -/
theorem cancelSession_logged : s.cancelSession.log = s.log ∨
    ∃ request cleanup raw, s.phase = .refining request cleanup raw ∧
      s.cancelSession.log = (s.logged (.abandoned request)).log := by
  rw [cancelSession]
  split
  · rename_i hphase
    exact .inr ⟨_, _, _, hphase, rfl⟩
  · exact .inl (List.append_nil _)

theorem Records.cancelSession (h : Records u v s) (hmade : s.Made) : Records u v s.cancelSession := by
  rcases cancelSession_logged (s := s) with hlog | ⟨request, cleanup, raw, hphase, hlog⟩
  · exact (Apart.same rfl rfl rfl rfl rfl hlog : Apart s s.cancelSession).records h
  · have hlogged : Records u v (s.logged (.abandoned request)) :=
      h.logged rfl trivial nofun fun _ he => Effect.abandoned.inj he ▸ hmade request cleanup raw hphase
    exact (Apart.same rfl rfl rfl rfl rfl hlog : Apart (s.logged (.abandoned request)) s.cancelSession).records hlogged

theorem dictation_cancelSession : ∃ effects, (∀ e ∈ effects, ∃ request, e = .abandoned request) ∧
    dictation s.cancelSession.log = dictation s.log ++ effects := by
  rcases cancelSession_logged (s := s) with hlog | ⟨request, cleanup, raw, hphase, hlog⟩
  · exact ⟨[], nofun, by rw [hlog, List.append_nil]⟩
  · refine ⟨[.abandoned request], fun e he => ⟨request, List.mem_singleton.mp he⟩, ?_⟩
    rw [hlog, DictationEngine.logged, dictation_snoc rfl]

theorem Open.cancelSession (h : s.Open) : s.cancelSession.Open := by
  obtain ⟨effects, heffects, hdictation⟩ := dictation_cancelSession (s := s)
  rw [Open, hdictation]
  intro e he
  rcases List.mem_append.mp he with he | he
  · exact h e he
  · obtain ⟨request, rfl⟩ := heffects e he
    rfl

theorem committing_showFailure (hrecords : Records u v s) (hmade : s.Made) (hopen : s.Open) (raw : Text) {retry : Retry}
    (hretry : ∀ text, retry = .commit text → Source u v (dictation s.log) s.selected text ∨ isBlank text = true) :
    Committing u v (s.showFailure raw retry) := by
  obtain ⟨effects, _, hdictation⟩ := dictation_cancelSession (s := s)
  have hapart : Apart s.cancelSession (s.showFailure raw retry) := .same rfl rfl rfl rfl rfl rfl
  refine ⟨hapart.records (hrecords.cancelSession hmade), hapart.isOpen hopen.cancelSession, fun text htext => ?_⟩
  refine (hretry text htext).imp_left fun hsource => hsource.mono ?_
  change dictation s.log ⊆ dictation s.cancelSession.log
  rw [hdictation]
  exact List.subset_append_left _ _

/-- The dictation is reported done, its words in the field or blank. -/
theorem committing_report (hrecords : Records u v s) (text : Text)
    (hallowed : Allowed u v (dictation s.log) (.committed (s.inserted text))) : Committing u v (s.report text) := by
  have hapart : Apart (s.logged (.committed (s.inserted text))) (s.report text) := .same rfl rfl rfl rfl rfl rfl
  have hreported : .committed (s.inserted text) ∈ dictation (s.report text).log := by
    change _ ∈ dictation (s.log ++ [_])
    rw [dictation_snoc rfl]
    exact List.mem_append_right _ List.mem_cons_self
  exact ⟨hapart.records (hrecords.logged rfl hallowed nofun nofun), fun _ => ⟨_, hreported, .inr rfl⟩,
    fun _ _ _ => ⟨_, hreported, rfl⟩⟩

theorem committing_commitTranscript (hrecords : Records u v s) (hmade : s.Made) (hopen : s.Open) (field : Field)
    {text : Text} (hsource : Source u v (dictation s.log) s.selected text ∨ isBlank text = true) :
    Committing u v (s.commitTranscript field text) := by
  have hunsettled : ∀ e ∈ dictation s.log, e.reports = false ∧ e ≠ .cancelled :=
    fun e he => ⟨(Effect.of_settles (hopen e he)).1, (Effect.of_settles (hopen e he)).2.1⟩
  rw [commitTranscript]
  split
  · exact committing_showFailure hrecords hmade hopen text fun _ heq => Retry.commit.inj heq ▸ hsource
  · rename_i hselection
    split
    · rename_i hblank
      exact committing_report hrecords text
        ⟨hunsettled, .inl ⟨hblank, fun e he => (Effect.of_settles (hopen e he)).2.2⟩⟩
    · rename_i hblank
      have hallowed : Allowed u v (dictation s.log) (.commit text s.selected field.selection (field.takes text)) := by
        refine ⟨hopen, hsource.resolve_right hblank, fun selected hselected => ?_⟩
        by_contra hne
        exact hselection ⟨by rw [hselected]; rintro ⟨⟩, fun heq => hne (heq.trans hselected)⟩
      have htried : Records u v (s.logged (.commit text s.selected field.selection (field.takes text))) :=
        hrecords.logged rfl hallowed (by rintro _ _ _ _ ⟨⟩) (by rintro _ ⟨⟩)
      have hdictation : dictation (s.logged (.commit text s.selected field.selection (field.takes text))).log =
          dictation s.log ++ [.commit text s.selected field.selection (field.takes text)] := dictation_snoc rfl
      simp only
      split
      · rename_i htakes
        refine committing_report htried text ⟨fun e he => ?_, .inr ⟨s.selected, field.selection, ?_⟩⟩
        · rw [hdictation] at he
          rcases List.mem_append.mp he with he | he
          · exact hunsettled e he
          · obtain rfl := List.mem_singleton.mp he
            exact ⟨rfl, by rintro ⟨⟩⟩
        · rw [hdictation, List.getLast?_concat, htakes]
          rfl
      · rename_i htakes
        refine committing_showFailure htried hmade (hopen.logged rfl (Bool.eq_false_iff.mpr htakes)) text fun _ heq => ?_
        obtain rfl := Retry.commit.inj heq
        refine hsource.imp_left fun hsource => hsource.mono ?_
        rw [hdictation]
        exact List.subset_append_left _ _

theorem FromWords.replaced (hprepared : ∀ replaced, s.prepared = some replaced → FromWords u replaced) (field : Field)
    (raw : Text) : FromWords u (s.replaced u field raw) := by
  rw [DictationEngine.replaced]
  cases hp : s.prepared with
  | none => exact ⟨raw, field.replacements, rfl⟩
  | some replaced => exact hprepared replaced hp

/-- The engine once the replacement step has run. -/
theorem Records.prepare (h : Records u v s) (field : Field) (raw : Text) : Records u v (s.prepare u field raw) where
  allowed := h.allowed
  unabandoned := h.unabandoned
  prepared := fun _ heq => Option.some.inj heq ▸ FromWords.replaced h.prepared field raw
  cleanups := h.cleanups
  batches := h.batches
  abandoned := h.abandoned

theorem committing_commitHeard (hrecords : Records u v s) (hmade : s.Made) (hopen : s.Open) (field : Field) {raw : Text}
    (hselected : s.selected ≠ none → isBlank (s.replaced u field raw).text = true) :
    Committing u v (s.commitHeard u field raw) := by
  refine committing_commitTranscript (hrecords.prepare field raw) hmade hopen field ?_
  change Source u v (dictation s.log) s.selected _ ∨ _
  cases hsel : s.selected with
  | none => exact .inl (.inl ⟨_, FromWords.replaced hrecords.prepared field raw, rfl⟩)
  | some selected => exact .inr (hselected (by rw [hsel]; exact nofun))

theorem committing_refineTranscript (hrecords : Records u v s) (hmade : s.Made) (hopen : s.Open) (field : Field)
    (provider : CleanupProvider) (raw : Text) : Committing u v (s.refineTranscript u field provider raw) := by
  have hprepared := hrecords.prepare field raw
  rw [refineTranscript]
  split_ifs with hskips
  · exact committing_commitHeard hrecords hmade hopen field fun hne => absurd hskips.1 hne
  · refine ⟨{
      allowed := hprepared.allowed
      unabandoned := hprepared.unabandoned
      prepared := hprepared.prepared
      cleanups := ?_
      batches := fun b hb => Nat.lt_succ_of_lt (hprepared.batches b hb)
      abandoned := fun request hmem => Nat.lt_succ_of_lt (hprepared.abandoned request hmem) }, ?_⟩
    · intro c hc
      rcases List.mem_append.mp hc with hc | hc
      · exact (hprepared.cleanups c hc).imp_right Nat.lt_succ_of_lt
      · obtain rfl := List.mem_singleton.mp hc
        exact ⟨FromWords.replaced hrecords.prepared field raw, Nat.lt_succ_self _⟩
    · refine ⟨hopen, Nat.lt_succ_self _, fun hmem => (hrecords.abandoned _ hmem).false, fun c hc heq => ?_, fun b hb heq => ?_⟩
      · rcases List.mem_append.mp hc with hc | hc
        · exact absurd heq (hrecords.cleanups c hc).2.ne
        · obtain rfl := List.mem_singleton.mp hc
          exact ⟨rfl, rfl⟩
      · exact absurd heq (hrecords.batches b hb).ne

theorem committing_finish (hrecords : Records u v s) (hmade : s.Made) (hopen : s.Open) (hprepared : s.prepared = none)
    (field : Field) {cleanup : Option CleanupProvider} (hcleanup : s.selected ≠ none → cleanup.isSome) (text : Text) :
    Committing u v (s.finish u field cleanup text) := by
  cases cleanup with
  | some provider =>
    rw [finish.eq_def]
    simp only
    split_ifs with hblank
    · refine committing_commitHeard hrecords hmade hopen field fun _ => ?_
      rw [replaced, hprepared]
      exact isBlank_replaceSpoken hblank field.replacements
    · exact committing_refineTranscript hrecords hmade hopen field provider text
  | none => exact committing_commitHeard hrecords hmade hopen field fun hne => (Bool.false_ne_true (hcleanup hne)).elim

theorem committing_insertBest (hrecords : Records u v s) (hmade : s.Made) (hopen : s.Open) (hprepared : s.prepared = none)
    (transcribes : Bool) (field : Field) {cleanup : Option CleanupProvider}
    (hcleanup : s.selected ≠ none → cleanup.isSome) :
    Committing u v (s.insertBest u transcribes field cleanup) := by
  rw [insertBest]
  split_ifs
  · exact committing_finish hrecords hmade hopen hprepared field hcleanup _
  · refine ⟨{
      allowed := hrecords.allowed
      unabandoned := hrecords.unabandoned
      prepared := hrecords.prepared
      cleanups := fun c hc => (hrecords.cleanups c hc).imp_right Nat.lt_succ_of_lt
      batches := ?_
      abandoned := fun request hmem => Nat.lt_succ_of_lt (hrecords.abandoned request hmem) }, ?_⟩
    · intro b hb
      rcases List.mem_append.mp hb with hb | hb
      · exact Nat.lt_succ_of_lt (hrecords.batches b hb)
      · obtain rfl := List.mem_singleton.mp hb
        exact Nat.lt_succ_self _
    · refine ⟨hopen, Nat.lt_succ_self _, fun hmem => (hrecords.abandoned _ hmem).false, fun c hc heq => ?_, fun b hb heq => ?_⟩
      · exact absurd heq (hrecords.cleanups c hc).2.ne
      · rcases List.mem_append.mp hb with hb | hb
        · exact absurd heq (hrecords.batches b hb).ne
        · obtain rfl := List.mem_singleton.mp hb
          exact ⟨rfl, hprepared, hcleanup⟩

namespace Committing

variable {transcribes : Bool} {field : Field} {mic : Mic} {finishingPause : Bool}

theorem isOpen (h : Committing u v s) (hidle : s.phase ≠ .idle) : s.Open := by
  have hstanding := h.standing
  cases hphase : s.phase with
  | idle => exact absurd hphase hidle
  | listening mic finishingPause =>
    rw [hphase] at hstanding
    exact hstanding.1
  | refining request cleanup raw =>
    rw [hphase] at hstanding
    exact hstanding.1
  | failed retry raw =>
    rw [hphase] at hstanding
    exact hstanding.1

theorem fail (h : Committing u v s) (current : ℕ) (raw : Option Text) : Committing u v (s.fail current raw) := by
  rw [DictationEngine.fail]
  split_ifs
  · exact h
  · split
    · exact h
    · exact h
    · rename_i hphase
      exact committing_showFailure h.records h.made (h.isOpen (by rw [hphase]; rintro ⟨⟩)) _ (by rintro _ ⟨⟩)
    · rename_i cleanup _ hphase
      refine committing_showFailure h.records h.made (h.isOpen (by rw [hphase]; rintro ⟨⟩)) _ fun text heq => ?_
      cases cleanup <;> cases heq

/-! ## Streams -/

theorem listening (h : Committing u v s) (hphase : s.phase = .listening mic finishingPause) :
    s.Open ∧ s.prepared = none ∧ (s.selected ≠ none → ∃ provider, mic = .stopped (some provider)) := by
  have hstanding := h.standing
  rwa [hphase] at hstanding

theorem insertBest (h : Committing u v s) {cleanup : Option CleanupProvider}
    (hphase : s.phase = .listening (.stopped cleanup) finishingPause) :
    Committing u v (s.insertBest u transcribes field cleanup) := by
  obtain ⟨hopen, hprepared, hselected⟩ := h.listening hphase
  refine committing_insertBest h.records h.made hopen hprepared transcribes field fun hne => ?_
  obtain ⟨provider, hmic⟩ := hselected hne
  rw [Mic.stopped.inj hmic]
  rfl

/-- What is apart from the commits keeps them, in every phase. -/
theorem apart (h : Committing u v s) (hapart : Apart s s') (hphase : s'.phase = s.phase) : Committing u v s' :=
  ⟨hapart.records h.records, hphase ▸ hapart.standing h.standing⟩

/-- A listening dictation that listens on, with nothing of its commits changed. -/
theorem listens (h : Committing u v s) {finishingPause' : Bool} (hphase : s.phase = .listening mic finishingPause)
    (hphase' : s'.phase = .listening mic finishingPause') (hselected : s'.selected = s.selected)
    (hprepared : s'.prepared = s.prepared) (hrequests : s'.requests = s.requests) (hcleanups : s'.cleanups = s.cleanups)
    (hbatches : s'.batches = s.batches) (hlog : s'.log = s.log) : Committing u v s' := by
  have hapart : Apart s s' := .same hselected hprepared hrequests hcleanups hbatches hlog
  have hstanding : Standing u v s (.listening mic finishingPause) := hphase ▸ h.standing
  refine ⟨hapart.records h.records, ?_⟩
  rw [hphase']
  exact hapart.standing hstanding

theorem reopen (h : Committing u v s) (hphase : s.phase = .listening mic finishingPause) (current : ℕ) :
    Committing u v (s.reopen current) :=
  h.listens hphase hphase rfl rfl rfl rfl rfl rfl

theorem pausedStreamEnded (h : Committing u v s) (hphase : s.phase = .listening mic finishingPause) (current : ℕ)
    (openFailed : Bool) : Committing u v (s.pausedStreamEnded u transcribes field current mic openFailed) := by
  have hregrouped : Committing u v (s.regrouped s.phase) := h.listens hphase hphase rfl rfl rfl rfl rfl rfl
  have hended : Committing u v (s.regrouped (.listening mic false)) := h.listens hphase rfl rfl rfl rfl rfl rfl rfl
  simp only [DictationEngine.pausedStreamEnded]
  split
  · exact h.listens hphase hphase rfl rfl rfl rfl rfl rfl
  · cases mic with
    | on => exact hended.reopen rfl current
    | paused => exact hended
    | stopped cleanup =>
      simp only
      split_ifs
      · exact hregrouped.fail current none
      · exact hended.insertBest rfl

theorem streamFailed (h : Committing u v s) (hphase : s.phase = .listening mic finishingPause) (current : ℕ)
    (retryable : Bool) (kind : ProviderFailureKind) :
    Committing u v (s.streamFailed u transcribes field current mic retryable kind) := by
  cases mic with
  | stopped cleanup =>
    simp only [DictationEngine.streamFailed]
    split_ifs
    · exact h.insertBest hphase
    · exact h.fail current none
  | on =>
    simp only [DictationEngine.streamFailed]
    split_ifs
    · exact h.listens hphase hphase rfl rfl rfl rfl rfl rfl
    · exact h.fail current none
  | paused => exact h.fail current none

theorem onSpeech (h : Committing u v s) (current opening : ℕ) (event : SpeechEvent) :
    Committing u v (s.onSpeech u transcribes field current opening event) := by
  rw [DictationEngine.onSpeech]
  split
  · exact h
  · rename_i mic finishingPause hlistening
    have hphase := (listeningTo_eq_some.mp hlistening).1
    cases event with
    | connected => exact h.listens hphase hphase rfl rfl rfl rfl rfl rfl
    | interim text => exact h.listens hphase hphase rfl rfl rfl rfl rfl rfl
    | final text => exact h.listens hphase hphase rfl rfl rfl rfl rfl rfl
    | completed =>
      simp only
      split
      · exact h.pausedStreamEnded hphase current false
      · cases mic with
        | on => exact h.reopen hphase current
        | paused => exact h
        | stopped cleanup => exact h.insertBest hphase
    | failed kind retryable =>
      simp only
      split_ifs
      · exact h.fail current none
      · exact h.pausedStreamEnded hphase current false
      · exact h.streamFailed hphase current retryable kind

theorem emit (h : Committing u v s) (current opening : ℕ) (events : List SpeechEvent) :
    Committing u v (s.emit u transcribes field current opening events) := by
  induction events generalizing s with
  | nil => exact h
  | cons event events ih => exact ih (h.onSpeech current opening event)

theorem logged (h : Committing u v s) {e : Effect} (hplain : Plain [e]) : Committing u v (s.logged e) :=
  h.apart ⟨rfl, rfl, rfl, rfl, rfl, [e], hplain, rfl⟩ rfl

theorem sendAudio (h : Committing u v s) (current opening : ℕ) (audio : Chunk) (failure : Option StreamFailure) :
    Committing u v (s.sendAudio u transcribes field current opening audio failure) := by
  have hsent : Committing u v (s.logged (.sent opening audio)) :=
    h.logged fun e he => .inr (.inl ⟨opening, audio, List.mem_singleton.mp he⟩)
  cases failure with
  | none => exact hsent
  | some failure => exact hsent.onSpeech current opening (.failed failure.kind failure.retryable)

theorem endInput (h : Committing u v s) (events : List SpeechEvent) :
    Committing u v (s.endInput u transcribes field events) := by
  rw [DictationEngine.endInput]
  split
  · exact h
  · rename_i opening _
    have htold : Committing u v (s.logged (.ended opening)) :=
      h.logged fun e he => .inr (.inr ⟨opening, List.mem_singleton.mp he⟩)
    exact htold.emit s.session opening events

variable (transcribes field) in
theorem handUnsent (h : Committing u v s) (current opening n : ℕ) (failures : List (Option StreamFailure)) :
    Committing u v (handUnsent u transcribes field current opening n failures s) := by
  induction n generalizing s failures with
  | zero => exact h
  | succ n ih =>
    rw [DictationEngine.handUnsent]
    split
    · exact h
    · rename_i audio rest _
      split_ifs
      · have htaken : Committing u v { s with unsent := rest } := h.apart (.same rfl rfl rfl rfl rfl rfl) rfl
        exact ih (htaken.sendAudio current opening audio _) failures.tail
      · exact h

theorem opened (h : Committing u v s) (o : Opening) (failures : List (Option StreamFailure)) (atEnd : List SpeechEvent) :
    Committing u v (s.opened u transcribes field o failures atEnd) := by
  rw [DictationEngine.opened]
  split
  · exact h
  · have hopened : Committing u v { s with client := some o.opening, connected := s.connected ++ [o] } :=
      h.apart (.same rfl rfl rfl rfl rfl rfl) rfl
    have hhanded := hopened.handUnsent transcribes field o.session o.opening s.unsent.length failures
    simp only
    split_ifs
    · exact hhanded.endInput atEnd
    · exact hhanded

theorem openFailed (h : Committing u v s) (o : Opening) (kind : ProviderFailureKind) :
    Committing u v (s.openFailed u transcribes field o kind) := by
  rw [DictationEngine.openFailed]
  split
  · exact h
  · rename_i mic finishingPause hlistening
    have hphase := (listeningTo_eq_some.mp hlistening).1
    split_ifs
    · exact h.pausedStreamEnded hphase o.session true
    · exact h.streamFailed hphase o.session _ kind

theorem captureAudio (h : Committing u v s) (current : ℕ) (audio : Chunk) (failure : Option StreamFailure) :
    Committing u v (s.captureAudio u transcribes field current audio failure) := by
  have hrecord : ∀ {t : DictationEngine}, Committing u v t → Committing u v (t.record transcribes audio) := by
    intro t ht
    rw [record]
    simp only
    split_ifs <;> exact ht.apart (.same rfl rfl rfl rfl rfl rfl) rfl
  have hcaptured : Committing u v (s.logged (.captured audio)) :=
    h.logged fun e he => .inl ⟨audio, List.mem_singleton.mp he⟩
  rw [DictationEngine.captureAudio]
  split
  · split_ifs
    · exact h
    · exact hrecord (hcaptured.apart (.same rfl rfl rfl rfl rfl rfl) rfl)
    · refine hrecord ?_
      split
      · exact hcaptured.apart (.same rfl rfl rfl rfl rfl rfl) rfl
      · exact hcaptured.sendAudio _ _ _ _
  · exact h

/-! ## Taps -/

theorem startSession (hrecords : Records u v s) (hmade : s.Made) (hopen : s.Open) (provider : SpeechProvider)
    (priorTranscript : Text) : Committing u v (s.startSession provider priorTranscript) := by
  have hdropped := hrecords.cancelSession hmade
  exact ⟨⟨hdropped.allowed, hdropped.unabandoned, nofun, hdropped.cleanups, hdropped.batches, hdropped.abandoned⟩,
    hopen.cancelSession, rfl, fun hne => absurd rfl hne⟩

theorem start (h : Committing u v s) (provider : SpeechProvider) : Committing u v (s.start provider) := by
  have hdropped := h.records.cancelSession h.made
  have hnew : dictation (s.start provider).log = [] := since_snoc _ _ _
  have hmem : ∀ {e : Effect}, e ≠ .started → e ∈ (s.start provider).log → e ∈ s.cancelSession.log :=
    fun he hin => (List.mem_append.mp hin).resolve_right fun hlast => he (List.mem_singleton.mp hlast)
  refine ⟨{
    allowed := by
      rw [hnew]
      exact Each.nil
    unabandoned := Each.snoc hdropped.unabandoned nofun
    prepared := nofun
    cleanups := hdropped.cleanups
    batches := hdropped.batches
    abandoned := fun request hin => hdropped.abandoned request (hmem nofun hin) }, ?_, rfl, fun hne => absurd rfl hne⟩
  intro e he
  rw [hnew] at he
  cases he

/-- The microphone of a listening dictation is turned on or off. -/
theorem turned (h : Committing u v s) (hphase : s.phase = .listening mic finishingPause)
    (hmic : ∀ cleanup, mic ≠ .stopped cleanup) (mic' : Mic) (finishingPause' : Bool) :
    Committing u v { s with phase := .listening mic' finishingPause' } := by
  obtain ⟨hopen, hprepared, hselected⟩ := h.listening hphase
  have hapart : Apart s { s with phase := .listening mic' finishingPause' } := .same rfl rfl rfl rfl rfl rfl
  refine ⟨hapart.records h.records, hopen, hprepared, fun hne => ?_⟩
  obtain ⟨provider, hstopped⟩ := hselected hne
  exact absurd hstopped (hmic _)

/-- The microphone is stopped, for an Insert or for an edit of a selection by a cleanup. -/
theorem stopped (h : Committing u v s) (hphase : s.phase = .listening mic finishingPause) {selected : Option Text}
    {cleanup : Option CleanupProvider} (hselected : selected ≠ none → cleanup.isSome) (finishingPause' : Bool) :
    Committing u v { s with selected, phase := .listening (.stopped cleanup) finishingPause' } := by
  obtain ⟨hopen, hprepared, _⟩ := h.listening hphase
  have hrecords := h.records
  refine ⟨⟨hrecords.allowed, hrecords.unabandoned, hrecords.prepared, hrecords.cleanups, hrecords.batches,
    hrecords.abandoned⟩, hopen, hprepared, fun hne => ?_⟩
  obtain ⟨provider, rfl⟩ := Option.isSome_iff_exists.mp (hselected hne)
  exact ⟨provider, rfl⟩

theorem stop (h : Committing u v s) (hphase : s.phase = .listening mic finishingPause)
    (hmic : ∀ cleanup, mic ≠ .stopped cleanup) {selected : Option Text} {cleanup : Option CleanupProvider}
    (hselected : selected ≠ none → cleanup.isSome) (reports : List SpeechEvent) :
    Committing u v ({ s with selected }.stop u transcribes field cleanup reports) := by
  rw [DictationEngine.stop]
  cases mic with
  | on =>
    simp only [hphase]
    split_ifs
    · exact h.stopped hphase hselected finishingPause
    · exact (h.stopped hphase hselected finishingPause).endInput reports
  | paused =>
    simp only [hphase]
    split_ifs
    · exact h.stopped hphase hselected finishingPause
    · exact (h.stopped hphase hselected true).listens rfl rfl rfl rfl rfl rfl rfl rfl
    · exact (h.stopped hphase hselected finishingPause).insertBest rfl
  | stopped cleanup => exact absurd rfl (hmic cleanup)

theorem pause (h : Committing u v s) (reports : List SpeechEvent) :
    Committing u v (s.pause u transcribes field reports) := by
  rw [DictationEngine.pause]
  split
  · rename_i finishingPause hphase
    have hpaused := h.turned hphase (by rintro _ ⟨⟩) .paused true
    simp only
    split_ifs
    · exact hpaused
    · exact hpaused.endInput reports
  · exact h

theorem resume (h : Committing u v s) : Committing u v s.resume := by
  rw [DictationEngine.resume]
  split
  · rename_i finishingPause hphase
    have hresumed := h.turned hphase (by rintro _ ⟨⟩) .on finishingPause
    simp only
    split_ifs
    · exact hresumed
    · exact hresumed.reopen rfl s.session
  · exact h

theorem cancel (h : Committing u v s) : Committing u v s.cancel := by
  obtain ⟨effects, heffects, hdictation⟩ := dictation_cancelSession (s := s)
  have hdropped : Records u v s.cancelSession := h.records.cancelSession h.made
  have hcancelled : Records u v (s.cancelSession.logged .cancelled) := hdropped.logged rfl trivial nofun nofun
  have hlog : dictation s.cancel.log = dictation s.log ++ effects ++ [.cancelled] := by
    change dictation (s.cancelSession.log ++ [.cancelled]) = _
    rw [dictation_snoc rfl, hdictation]
  have hapart : Apart (s.cancelSession.logged .cancelled) s.cancel := .same rfl rfl rfl rfl rfl rfl
  refine ⟨hapart.records hcancelled, fun _ => ⟨.cancelled, ?_, .inl rfl⟩, fun e he hsucceeds => ?_⟩
  · rw [hlog]
    exact List.mem_append_right _ List.mem_cons_self
  · rw [hlog, List.append_assoc] at he
    rcases List.mem_append.mp he with he | he
    · cases hphase : s.phase with
      | idle =>
        have hstanding := h.standing
        rw [hphase] at hstanding
        obtain ⟨e', he', hreports⟩ := hstanding.2 e he hsucceeds
        exact ⟨e', hlog ▸ List.append_assoc _ _ _ ▸ List.mem_append_left _ he', hreports⟩
      | _ =>
        have hopen := h.isOpen (by rw [hphase]; exact nofun)
        exact absurd ((Effect.of_settles (hopen e he)).2.2.symm.trans hsucceeds) Bool.false_ne_true
    · rcases List.mem_append.mp he with he | he
      · obtain ⟨request, rfl⟩ := heffects e he
        cases hsucceeds
      · obtain rfl := List.mem_singleton.mp he
        cases hsucceeds

theorem failed (h : Committing u v s) {retry : Retry} {raw : Text} (hphase : s.phase = .failed retry raw) :
    s.Open ∧ ∀ text, retry = .commit text → Source u v (dictation s.log) s.selected text ∨ isBlank text = true := by
  have hstanding := h.standing
  rwa [hphase] at hstanding

theorem insert (h : Committing u v s) (reports : List SpeechEvent) :
    Committing u v (s.insert u transcribes field reports) := by
  rw [DictationEngine.insert]
  split
  · rename_i mic finishingPause hphase
    cases mic with
    | stopped cleanup =>
      rw [DictationEngine.stop, hphase]
      exact h
    | on =>
      have hselected : s.selected ≠ none → (none : Option CleanupProvider).isSome := by
        intro hne
        obtain ⟨_, hmic⟩ := (h.listening hphase).2.2 hne
        cases hmic
      exact h.stop hphase (by rintro _ ⟨⟩) hselected reports
    | paused =>
      have hselected : s.selected ≠ none → (none : Option CleanupProvider).isSome := by
        intro hne
        obtain ⟨_, hmic⟩ := (h.listening hphase).2.2 hne
        cases hmic
      exact h.stop hphase (by rintro _ ⟨⟩) hselected reports
  · rename_i request cleanup raw hphase
    split
    · exact h
    · rename_i provider
      split_ifs with hselected
      · exact h
      · have hopen : s.Open := h.isOpen (by rw [hphase]; rintro ⟨⟩)
        have hdropped : Records u v (s.cancelSession.addCleanup provider) :=
          (Apart.same rfl rfl rfl rfl rfl rfl : Apart s.cancelSession (s.cancelSession.addCleanup provider)).records
            (h.records.cancelSession h.made)
        exact committing_commitHeard hdropped (.of_not_refining (by rintro _ _ _ ⟨⟩)) hopen.cancelSession field
          fun hne => absurd hne hselected
  · rename_i retry raw hphase
    obtain ⟨hopen, hretry⟩ := h.failed hphase
    split_ifs with hselected
    · exact h
    · split
      · rename_i text
        exact committing_commitTranscript h.records h.made hopen field (hretry text rfl)
      · exact committing_commitHeard h.records h.made hopen field fun hne => absurd hne hselected
  · exact h

theorem insertRefined (h : Committing u v s) (cleanup : Option CleanupProvider) (reports : List SpeechEvent) :
    Committing u v (s.insertRefined u transcribes field cleanup reports) := by
  rw [DictationEngine.insertRefined]
  split
  · exact h
  · rename_i mic finishingPause hunstopped hphase
    simp only
    split_ifs with hcleanup
    · refine h.stop hphase hunstopped (fun hne => ?_) reports
      obtain ⟨provider, heq⟩ := (h.listening hphase).2.2 hne
      exact absurd heq (hunstopped _)
    · exact h.stop hphase hunstopped (fun _ => Option.isSome_iff_ne_none.mpr hcleanup) reports
  · exact h

theorem retry (h : Committing u v s) : Committing u v (s.retry u field) := by
  rw [DictationEngine.retry]
  split
  · rename_i text _ hphase
    obtain ⟨hopen, hretry⟩ := h.failed hphase
    exact committing_commitTranscript h.records h.made hopen field (hretry text rfl)
  · rename_i hphase
    exact committing_refineTranscript h.records h.made (h.failed hphase).1 field _ _
  · rename_i hphase
    exact startSession h.records h.made (h.failed hphase).1 _ _
  · exact h

/-! ## Answers -/

theorem refining (h : Committing u v s) {request : ℕ} (hrunning : s.isRunning request = true) :
    ∃ cleanup raw, s.phase = .refining request cleanup raw ∧ s.Open ∧ .abandoned request ∉ s.log ∧
      (∀ c ∈ s.cleanups, c.request = request → cleanup.isSome ∧ c.edited = s.selected) ∧
      ∀ b ∈ s.batches, b.request = request → cleanup = none ∧ s.prepared = none ∧
        (s.selected ≠ none → b.cleanup.isSome) := by
  obtain ⟨cleanup, raw, hphase⟩ := phase_of_isRunning hrunning
  have hstanding := h.standing
  rw [hphase] at hstanding
  obtain ⟨hopen, _, habandoned, hcleanups, hbatches⟩ := hstanding
  exact ⟨cleanup, raw, hphase, hopen, habandoned, hcleanups, hbatches⟩

/-- The requests that run become fewer. -/
theorem taken (h : Committing u v s) {cleanups : List Cleanup} (hcleanups : cleanups ⊆ s.cleanups) {batches : List Batch}
    (hbatches : batches ⊆ s.batches) : Committing u v { s with cleanups, batches } := by
  have hrecords := h.records
  have hstanding := h.standing
  refine ⟨⟨hrecords.allowed, hrecords.unabandoned, hrecords.prepared, fun c hc => hrecords.cleanups c (hcleanups hc),
    fun b hb => hrecords.batches b (hbatches hb), hrecords.abandoned⟩, ?_⟩
  change Standing u v _ s.phase
  cases hphase : s.phase with
  | refining request cleanup raw =>
    rw [hphase] at hstanding
    obtain ⟨hopen, hmade, habandoned, hc, hb⟩ := hstanding
    exact ⟨hopen, hmade, habandoned, fun c hmem => hc c (hcleanups hmem), fun b hmem => hb b (hbatches hmem)⟩
  | _ =>
    rw [hphase] at hstanding
    exact hstanding

theorem addCleanup (h : Committing u v s) (provider : CleanupProvider) : Committing u v (s.addCleanup provider) :=
  h.apart (.same rfl rfl rfl rfl rfl rfl) rfl

theorem cleanupAnswered (h : Committing u v s) {c : Cleanup} (hwords : FromWords u c.replaced)
    (hedited : s.isRunning c.request = true → c.edited = s.selected) (text : Option Text) :
    Committing u v (s.cleanupAnswered u v field c text) := by
  cases hrunning : s.isRunning c.request with
  | false =>
    rw [DictationEngine.cleanupAnswered.eq_def, hrunning]
    exact h
  | true =>
    obtain ⟨cleanup, raw, hphase, hopen, habandoned, hcleanups, hbatches⟩ := h.refining hrunning
    have hselected := hedited hrunning
    rw [DictationEngine.cleanupAnswered.eq_def, if_pos hrunning]
    cases text with
    | none =>
      simp only
      split
      · rename_i hnone
        refine committing_commitTranscript h.records h.made hopen field (.inl ?_)
        rw [← hselected, hnone]
        exact .inl ⟨c.replaced, hwords, rfl⟩
      · exact h.fail c.session (some c.raw)
    | some text =>
      have hrecords : Records u v ((s.addCleanup c.provider).logged (.answered c.request c.replaced c.edited text)) :=
        (h.addCleanup c.provider).records.logged rfl trivial (fun _ _ _ _ heq => by cases heq; exact habandoned)
          (by rintro _ ⟨⟩)
      have hstill : Open ((s.addCleanup c.provider).logged (.answered c.request c.replaced c.edited text)) :=
        Open.logged hopen rfl rfl
      have htaken : Committing u v ((s.addCleanup c.provider).logged (.answered c.request c.replaced c.edited text)) := by
        refine ⟨hrecords, ?_⟩
        change Standing u v _ s.phase
        rw [hphase]
        exact ⟨hstill, h.made _ _ _ hphase, fun hmem => habandoned ((List.mem_append.mp hmem).resolve_right (by simp)),
          hcleanups, hbatches⟩
      have hanswered : .answered c.request c.replaced c.edited text ∈
          dictation ((s.addCleanup c.provider).logged (.answered c.request c.replaced c.edited text)).log := by
        rw [DictationEngine.logged, dictation_snoc rfl]
        exact List.mem_append_right _ List.mem_cons_self
      simp only
      split
      · rename_i hnone
        refine committing_commitTranscript htaken.records htaken.made hstill field (.inl ?_)
        change Source u v _ s.selected _
        rw [← hselected, hnone]
        rw [hnone] at hanswered
        cases hrestore : c.replaced.restore u v text with
        | some restored => exact .inr ⟨c.request, c.replaced, text, hanswered, hrestore⟩
        | none => exact .inl ⟨c.replaced, hwords, rfl⟩
      · rename_i edited hsome
        split
        · rename_i edit hedit
          refine committing_commitTranscript htaken.records htaken.made hstill field (.inl ?_)
          change Source u v _ s.selected edit
          rw [← hselected, hsome]
          rw [hsome] at hanswered
          exact ⟨c.request, c.replaced, text, hanswered, hedit⟩
        · exact htaken.fail c.session (some c.raw)

theorem cleanupFailed (h : Committing u v s) (c : Cleanup) : Committing u v (s.cleanupFailed c) := by
  have hcalled : Committing u v (if c.session = s.session then s.addCleanup c.provider else s) := by
    split_ifs
    · exact h.addCleanup c.provider
    · exact h
  rw [DictationEngine.cleanupFailed]
  split
  · exact hcalled.fail c.session (some c.raw)
  · exact hcalled

theorem batchAnswered (h : Committing u v s) {b : Batch}
    (hrunning : s.isRunning b.request = true → s.prepared = none ∧ (s.selected ≠ none → b.cleanup.isSome))
    (batch : Option Text) : Committing u v (s.batchAnswered u field b batch) := by
  rw [DictationEngine.batchAnswered]
  split_ifs with hstill
  · obtain ⟨_, _, hphase, hopen, _⟩ := h.refining hstill
    obtain ⟨hprepared, hcleanup⟩ := hrunning hstill
    exact committing_finish h.records h.made hopen hprepared field hcleanup _
  · exact h

/-- **Every event keeps the commits.** -/
theorem step (h : Committing u v s) (e : Event) (hstep : DictationEngine.step u v transcribes s e = some s') :
    Committing u v s' := by
  have hopening : ∀ o, Committing u v (s.taken o) := fun o => h.apart (.same rfl rfl rfl rfl rfl rfl) rfl
  cases e with
  | start provider =>
    cases hstep
    exact h.start provider
  | pause field reports =>
    cases hstep
    exact h.pause reports
  | resume =>
    cases hstep
    exact h.resume
  | cancel =>
    cases hstep
    exact h.cancel
  | insert field reports =>
    cases hstep
    exact h.insert reports
  | insertRefined cleanup field reports =>
    cases hstep
    exact h.insertRefined cleanup reports
  | retry field =>
    cases hstep
    exact h.retry
  | audio current chunk field failure =>
    cases hstep
    exact h.captureAudio current chunk failure
  | captureFailed current =>
    cases hstep
    exact h.fail current none
  | opened o field failures atEnd =>
    obtain ⟨_, hs'⟩ := Option.ite_none_right_eq_some.mp hstep
    cases hs'
    exact (hopening o).opened o failures atEnd
  | openFailed o field kind =>
    obtain ⟨_, hs'⟩ := Option.ite_none_right_eq_some.mp hstep
    cases hs'
    exact (hopening o).openFailed o kind
  | cannotListen o =>
    obtain ⟨_, hs'⟩ := Option.ite_none_right_eq_some.mp hstep
    cases hs'
    split_ifs
    · exact (hopening o).fail o.session none
    · exact hopening o
  | speech o field event =>
    obtain ⟨_, hs'⟩ := Option.ite_none_right_eq_some.mp hstep
    cases hs'
    exact h.onSpeech o.session o.opening event
  | piece request text =>
    cases hstep
    exact h
  | cleanupAnswered request field text =>
    obtain ⟨c, hfound, rfl⟩ := Option.map_eq_some_iff.mp hstep
    have hmem := List.mem_of_find?_eq_some hfound
    have htaken : Committing u v { s with cleanups := s.cleanups.filter (·.request ≠ request) } :=
      h.taken List.filter_sublist.subset (List.Subset.refl s.batches)
    refine htaken.cleanupAnswered (h.records.cleanups c hmem).1 (fun hrunning => ?_) text
    obtain ⟨_, _, _, _, _, hcleanups, _⟩ := refining h hrunning
    exact (hcleanups c hmem rfl).2
  | cleanupFailed request =>
    obtain ⟨c, _, rfl⟩ := Option.map_eq_some_iff.mp hstep
    have htaken : Committing u v { s with cleanups := s.cleanups.filter (·.request ≠ request) } :=
      h.taken List.filter_sublist.subset (List.Subset.refl s.batches)
    exact htaken.cleanupFailed c
  | batchAnswered request field batch =>
    obtain ⟨b, hfound, rfl⟩ := Option.map_eq_some_iff.mp hstep
    have hmem := List.mem_of_find?_eq_some hfound
    have htaken : Committing u v { s with batches := s.batches.filter (·.request ≠ request) } :=
      h.taken (List.Subset.refl s.cleanups) List.filter_sublist.subset
    refine htaken.batchAnswered (fun hrunning => ?_) batch
    obtain ⟨_, _, _, _, _, _, hbatches⟩ := refining h hrunning
    exact (hbatches b hmem rfl).2

end Committing

end DictationEngine

end Speecher.Android
