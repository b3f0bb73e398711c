import Speecher.Bindings.Words
import Speecher.Foundations.History
import Speecher.Foundations.Runs

/-!
# The phone's own updates

Checks for an update, periodic ones and those the user asks for, run on worker threads and overlap; a count of the
checks begun and the channel changes decides whose answer counts. An install downloads the update, stages it with
Android's installer and commits it once no dictation runs and the app is on screen. Everything else happens on the main
thread, one thing after the other.

* `Sound`: what holds in every run.
* `updates_undisturbed`: checks and installs do not disturb each other, and Checking ends with the checks, unless a
  check that began while another was under way is cancelled.
-/

namespace Speecher.UpdateViewModel

inductive UpdateChannel
  | stable
  | nightly
  deriving DecidableEq

structure ApkUpdate where
  version : Text
  downloadUrl : Text
  pageUrl : Text
  replacesNightly : Bool
  deriving DecidableEq

inductive UpdateState
  | idle
  | checking
  | upToDate
  | checkFailed
  | available (update : ApkUpdate)
  | downloading (update : ApkUpdate) (percent : Option ℤ)
  | waitingForDictation (update : ApkUpdate)
  | installing (update : ApkUpdate)
  | installFailed (update : ApkUpdate) (message : Text) (manualInstall : Bool)
  deriving DecidableEq

namespace UpdateState

/-- The update a state is about. -/
def update : UpdateState → Option ApkUpdate
  | idle | checking | upToDate | checkFailed => none
  | available update | downloading update _ | waitingForDictation update | installing update
  | installFailed update _ _ => some update

/-- An update is on its way in. -/
def isInstalling : UpdateState → Bool
  | downloading _ _ | waitingForDictation _ | installing _ => true
  | _ => false

def isAvailable : UpdateState → Bool
  | available _ => true
  | _ => false

/-- An install that is under way shows so. -/
def shows (release : ApkUpdate) : UpdateState → Bool
  | downloading update _ | waitingForDictation update => update = release
  | _ => false

end UpdateState

def reinstallNeeded (update : ApkUpdate) : UpdateState :=
  .installFailed update
    ("This update can't replace the installed app. Uninstall Speecher, then install it from ".toList ++
      "the release page.".toList) true

def downloadFailure (update : ApkUpdate) : UpdateState :=
  .installFailed update "Couldn't download the update. Check your connection and try again.".toList false

/-- What is said when Android refuses an update: the statuses are aborted, storage and conflict. -/
def installFailure (update : ApkUpdate) (status : ℤ) : UpdateState :=
  if status = 3 then .installFailed update "The update was canceled.".toList false
  else if status = 6 then .installFailed update "Not enough storage to install the update.".toList false
  else if status = 5 then reinstallNeeded update
  else .installFailed update "Couldn't install the update.".toList false

/-- `PackageInstaller.STATUS_FAILURE`. -/
def statusFailure : ℤ := 1

/-! ## What is stored -/

structure Preferences where
  lastCheck : ℤ := 0
  installedVersion : Option Text := none
  channel : Option UpdateChannel := none
  dismissedVersion : Option Text := none
  offerVersion : Option Text := none
  offerUrl : Option Text := none
  offerPage : Option Text := none
  offerReplacesNightly : Bool := false
  deriving DecidableEq

namespace Preferences

def savedOffer (p : Preferences) : Option ApkUpdate := do
  let version ← p.offerVersion
  let url ← p.offerUrl
  let page ← p.offerPage
  return ⟨version, url, page, p.offerReplacesNightly⟩

def putOffer (update : ApkUpdate) (p : Preferences) : Preferences :=
  { p with
    offerVersion := some update.version, offerUrl := some update.downloadUrl, offerPage := some update.pageUrl,
    offerReplacesNightly := update.replacesNightly }

def removeOffer (p : Preferences) : Preferences :=
  { p with offerVersion := none, offerUrl := none, offerPage := none, offerReplacesNightly := false }

/-- This version made the last check, on the channel. -/
def lastCheckCurrent (version : Text) (channel : UpdateChannel) (p : Preferences) : Bool :=
  p.installedVersion = some version && p.channel.getD .stable = channel

@[simp] theorem savedOffer_putOffer (update : ApkUpdate) (p : Preferences) :
    (p.putOffer update).savedOffer = some update := rfl

@[simp] theorem savedOffer_removeOffer (p : Preferences) : p.removeOffer.savedOffer = none := rfl

end Preferences

/-! ## The view model -/

/-- A check under way: its count, and what it remembers. -/
structure Check where
  id : ℕ
  channel : UpdateChannel
  manual : Bool
  before : UpdateState
  now : ℤ
  deriving DecidableEq

/-- Where an install waits. -/
inductive Stage
  | downloading
  | comparing
  | staging
  | waiting (session : ℕ)
  deriving DecidableEq

structure Install where
  release : ApkUpdate
  stage : Stage
  deriving DecidableEq

inductive Told
  | began (check : ℕ)
  | changedChannel
  | staged (session : ℕ)
  /-- With whether a dictation ran and the app was on screen. -/
  | committed (session : ℕ) (dictating onScreen : Bool)
  | abandoned (session : ℕ)
  deriving DecidableEq

structure Updates where
  state : UpdateState := .idle
  checkCount : ℕ := 0
  preferences : Preferences := {}
  onScreen : Bool := false
  /-- `ActiveDictation.session` is there. -/
  dictating : Bool := false
  checks : List Check := []
  installs : List Install := []
  /-- How many sessions the installer has made. -/
  sessions : ℕ := 0
  /-- The version and the channel of the check that found the saved offer. -/
  offerFrom : Option (Text × UpdateChannel) := none
  log : List Told := []

namespace Updates

/-- A check up to where it waits for the releases. -/
def beginCheck (channel : UpdateChannel) (manual : Bool) (now : ℤ) (u : Updates) : Updates :=
  if u.state.isInstalling then u
  else
    { u with
      checkCount := u.checkCount + 1
      state := if u.state.isAvailable then u.state else .checking
      checks := u.checks ++ [⟨u.checkCount + 1, channel, manual, u.state, now⟩]
      log := u.log ++ [.began (u.checkCount + 1)] }

/-- A check that is over. -/
def endCheck (check : Check) (u : Updates) : Updates := { u with checks := u.checks.filter (·.id ≠ check.id) }

def cancelCheck (check : Check) (u : Updates) : Updates :=
  { u.endCheck check with
    state := if check.id = u.checkCount ∧ u.state = .checking then check.before else u.state }

def removeOffer (u : Updates) : Updates := { u with preferences := u.preferences.removeOffer, offerFrom := none }

/-- What a check that counts stores. -/
def record (version : Text) (check : Check) (release : Option ApkUpdate) (u : Updates) : Updates :=
  let counted := { u.preferences with
    lastCheck := check.now, installedVersion := some version, channel := some check.channel }
  match release with
  | none => { u with preferences := counted.removeOffer, offerFrom := none }
  | some update => { u with preferences := counted.putOffer update, offerFrom := some (version, check.channel) }

/-- An offer an earlier version or channel found is stale. -/
def dropStaleOffer (version : Text) (check : Check) (u : Updates) : Updates :=
  if u.preferences.lastCheckCurrent version check.channel then u else u.removeOffer

/-- What a check that counts reports. -/
def report (version : Text) (check : Check) (u : Updates) : Option (Option ApkUpdate) → Updates
  | some release =>
    { u with
      state := if u.state.isInstalling then u.state else (release.map UpdateState.available).getD .upToDate
      }.record version check release
  | none => if !u.state.isInstalling && !check.before.isAvailable then { u with state := .checkFailed } else u

/-- A check whose releases came, or did not. -/
def answerCheck (version : Text) (check : Check) (result : Option (Option ApkUpdate)) (u : Updates) : Updates :=
  if check.id ≠ u.checkCount then u.endCheck check
  else ((u.endCheck check).dropStaleOffer version check).report version check result

def changeChannel (u : Updates) : Updates :=
  { u with
    checkCount := u.checkCount + 1
    state := if u.state.isInstalling then u.state else .idle
    log := u.log ++ [.changedChannel] }

def showSavedOffer (version : Text) (channel : UpdateChannel) (u : Updates) : Updates :=
  if u.state ≠ .idle || !u.preferences.lastCheckCurrent version channel then u
  else
    match u.preferences.savedOffer with
    | some update => { u with state := .available update }
    | none => u

def install (release : ApkUpdate) (u : Updates) : Updates :=
  { u with state := .downloading release none, installs := u.installs ++ [⟨release, .downloading⟩] }

/-- Installs an offer, tries a failed install again, or checks; a page opened for it leaves everything as it is. -/
def proceed (channel : UpdateChannel) (now : ℤ) (u : Updates) : Updates :=
  match u.state with
  | .available update => u.install update
  | .installFailed update _ manualInstall => if manualInstall then u else u.install update
  | _ => u.beginCheck channel true now

def dismissOffer (u : Updates) : Updates :=
  match u.state.update with
  | some update =>
    { u with
      preferences := { u.preferences with dismissedVersion := some update.version }
      state := .available update }
  | none => u

def installRefused (version : Option Text) (status : ℤ) (u : Updates) : Updates :=
  match u.state with
  | .installing update | .available update =>
    if some update.version = version then { u with state := installFailure update status } else u
  | _ => u

def createSession (u : Updates) : Updates :=
  { u with sessions := u.sessions + 1, log := u.log ++ [.staged u.sessions] }

/-- A session that failed is abandoned. -/
def abandon (release : ApkUpdate) (session : ℕ) (u : Updates) : Updates :=
  { u with state := installFailure release statusFailure, log := u.log ++ [.abandoned session] }

/-- `commitApk`, which abandons the session when it fails. -/
def commit (release : ApkUpdate) (session : ℕ) (commits : Bool) (u : Updates) : Updates :=
  if commits then
    { u with state := .installing release, log := u.log ++ [.committed session u.dictating u.onScreen] }
  else u.abandon release session

/-- The loop an install waits its turn in: it goes on waiting, or commits. -/
def awaitTurn (release : ApkUpdate) (session : ℕ) (commits : Bool) (u : Updates) : Updates × Option Stage :=
  if u.dictating || !u.onScreen then
    ({ u with state := if u.dictating then .waitingForDictation release else u.state }, some (.waiting session))
  else (u.commit release session commits, none)

end Updates

/-- What an install waits for; staging may fail before or after the installer made a session. -/
inductive InstallEvent
  | progress (percent : ℤ)
  | downloaded (ok : Bool)
  | compared (downgrade : Bool)
  | stagingFailed (created : Bool)
  | staged (commits : Bool)
  | waited (commits : Bool)
  deriving DecidableEq

/-- What an install does next, and where it then waits, if it goes on. -/
def Install.next (i : Install) (event : InstallEvent) (u : Updates) : Option (Updates × Option Stage) :=
  match i.stage, event with
  | .downloading, .progress percent =>
    some ({ u with state := .downloading i.release (some percent) }, some .downloading)
  | .downloading, .downloaded true => some (u, some .comparing)
  | .downloading, .downloaded false => some ({ u with state := downloadFailure i.release }, none)
  | .comparing, .compared true => some ({ u with state := reinstallNeeded i.release }, none)
  | .comparing, .compared false => some (u, some .staging)
  | .staging, .stagingFailed false => some ({ u with state := installFailure i.release statusFailure }, none)
  | .staging, .stagingFailed true => some (u.createSession.abandon i.release u.sessions, none)
  | .staging, .staged commits => some (u.createSession.awaitTurn i.release u.sessions commits)
  | .waiting session, .waited commits => some (u.awaitTurn i.release session commits)
  | _, _ => none

inductive Event
  | checkPeriodically (channel : UpdateChannel) (now : ℤ)
  /-- A periodic check is cancelled. -/
  | cancelled (check : ℕ)
  /-- The releases a check asked for, and what is newer among them. -/
  | answered (check : ℕ) (result : Option (Option ApkUpdate))
  | proceed (channel : UpdateChannel) (now : ℤ)
  | changeChannel
  /-- On an offer or a failed install, as the card shows it. -/
  | dismissOffer
  | showSavedOffer (channel : UpdateChannel)
  | installRefused (version : Option Text) (status : ℤ)
  | dictation (running : Bool)
  | screen (on : Bool)
  | install (index : ℕ) (event : InstallEvent)
  deriving DecidableEq

/-- The card offers to dismiss. -/
def UpdateState.dismissible : UpdateState → Bool
  | .available _ | .installFailed _ _ _ => true
  | _ => false

/-- The installs after one of them went on, or ended. -/
def moved (installs : List Install) (index : ℕ) (i : Install) : Option Stage → List Install
  | some stage => installs.set index { i with stage := stage }
  | none => installs.eraseIdx index

def step (version : Text) (u : Updates) : Event → Option Updates
  | .checkPeriodically channel now => some (u.beginCheck channel false now)
  | .cancelled id => (u.checks.find? fun check => check.id = id && !check.manual).map u.cancelCheck
  | .answered id result =>
    (u.checks.find? fun check => check.id = id).map fun check => u.answerCheck version check result
  | .proceed channel now => some (u.proceed channel now)
  | .changeChannel => some u.changeChannel
  | .dismissOffer => if u.state.dismissible then some u.dismissOffer else none
  | .showSavedOffer channel => some (u.showSavedOffer version channel)
  | .installRefused refused status => some (u.installRefused refused status)
  | .dictation running => some { u with dictating := running }
  | .screen on => some { u with onScreen := on }
  | .install index event =>
    u.installs[index]?.bind fun i =>
      (i.next event u).map fun next => { next.1 with installs := moved u.installs index i next.2 }

/-! ## What holds in every run -/

/-- The check begun or the channel changed. -/
def Told.isQuestion : Told → Bool
  | .began _ | .changedChannel => true
  | _ => false

/-- What was asked last. -/
def lastAsked (log : List Told) : Option Told := (log.filter Told.isQuestion).getLast?

/-- A session is committed or abandoned. -/
def Settled (log : List Told) (session : ℕ) : Prop :=
  (∃ dictating onScreen, .committed session dictating onScreen ∈ log) ∨ .abandoned session ∈ log

/-- A commit is of a session not settled yet, with no dictation running and the app on screen. -/
def Timely (before : List Told) (entry : Told) : Prop :=
  ∀ session dictating onScreen, entry = .committed session dictating onScreen →
    dictating = false ∧ onScreen = true ∧ ¬ Settled before session

/-- The checks under way were counted, and the one counted last is what was asked last. -/
structure ChecksSound (checks : List Check) (count : ℕ) (log : List Told) : Prop where
  le : ∀ check ∈ checks, check.id ≤ count
  before : ∀ check ∈ checks, check.before.isInstalling = false
  current : ∀ check ∈ checks, check.id = count → lastAsked log = some (.began check.id)

/-- One install at most is under way, and shows. -/
def InstallsSound (installs : List Install) (state : UpdateState) : Prop :=
  ∀ i ∈ installs, installs = [i] ∧ state.shows i.release = true

/-- An install waits with the session. -/
def Holds (installs : List Install) (session : ℕ) : Prop := ∃ i ∈ installs, i.stage = .waiting session

/-- A staged session is settled or an install waits with it. -/
structure SessionsSound (installs : List Install) (sessions : ℕ) (log : List Told) : Prop where
  staged : ∀ session, .staged session ∈ log → session < sessions
  settled : ∀ session, Settled log session → session < sessions
  held : ∀ session, Holds installs session → session < sessions ∧ ¬ Settled log session
  accounted : ∀ session < sessions, Settled log session ∨ Holds installs session
  commits : Each Timely log

/-- The saved offer is from the check recorded with it. -/
def OfferSound (preferences : Preferences) (offerFrom : Option (Text × UpdateChannel)) : Prop :=
  ∀ update, preferences.savedOffer = some update →
    ∃ version, preferences.installedVersion = some version ∧
      offerFrom = some (version, preferences.channel.getD .stable)

structure Sound (u : Updates) : Prop where
  checks : ChecksSound u.checks u.checkCount u.log
  installs : InstallsSound u.installs u.state
  sessions : SessionsSound u.installs u.sessions u.log
  offer : OfferSound u.preferences u.offerFrom

/-- Checking ends with the check begun last, which replaced no offer. -/
def Settles (u : Updates) : Prop :=
  u.state = .checking → (∃ check ∈ u.checks, check.id = u.checkCount) ∧
    ∀ check ∈ u.checks, check.id = u.checkCount → check.before.isAvailable = false

theorem lastAsked_question {entry : Told} (h : entry.isQuestion = true) (log : List Told) :
    lastAsked (log ++ [entry]) = some entry := by
  rw [lastAsked, List.filter_append, List.filter_singleton, h, cond_true, List.getLast?_concat]

theorem lastAsked_other {entry : Told} (h : entry.isQuestion = false) (log : List Told) :
    lastAsked (log ++ [entry]) = lastAsked log := by
  rw [lastAsked, List.filter_append, List.filter_singleton, h, cond_false, List.append_nil]
  rfl

namespace ChecksSound

variable {checks : List Check} {count : ℕ} {log : List Told}

theorem begin (h : ChecksSound checks count log) {check : Check} (hid : check.id = count + 1)
    (hbefore : check.before.isInstalling = false) :
    ChecksSound (checks ++ [check]) (count + 1) (log ++ [.began (count + 1)]) where
  le c hc := by
    rcases List.mem_append.mp hc with hc | hc
    · exact Nat.le_succ_of_le (h.le c hc)
    · exact (List.mem_singleton.mp hc ▸ hid).le
  before c hc := by
    rcases List.mem_append.mp hc with hc | hc
    · exact h.before c hc
    · exact List.mem_singleton.mp hc ▸ hbefore
  current c hc heq := by
    rw [lastAsked_question rfl, heq]

theorem filter (h : ChecksSound checks count log) (p : Check → Bool) : ChecksSound (checks.filter p) count log where
  le c hc := h.le c (List.mem_of_mem_filter hc)
  before c hc := h.before c (List.mem_of_mem_filter hc)
  current c hc := h.current c (List.mem_of_mem_filter hc)

theorem changeChannel (h : ChecksSound checks count log) :
    ChecksSound checks (count + 1) (log ++ [.changedChannel]) where
  le c hc := Nat.le_succ_of_le (h.le c hc)
  before := h.before
  current c hc heq := absurd (h.le c hc) (by rw [heq]; exact Nat.not_succ_le_self count)

theorem same_question (h : ChecksSound checks count log) {log' : List Told} (hlog : lastAsked log' = lastAsked log) :
    ChecksSound checks count log' where
  le := h.le
  before := h.before
  current c hc heq := hlog.trans (h.current c hc heq)

end ChecksSound

/-! ## Sessions -/

theorem settled_snoc {log : List Told} {entry : Told} {session : ℕ} : Settled (log ++ [entry]) session ↔
    Settled log session ∨ (∃ dictating onScreen, entry = .committed session dictating onScreen) ∨
      entry = .abandoned session := by
  simp only [Settled, List.mem_append, List.mem_singleton, @eq_comm _ _ entry, exists_or]
  constructor
  · rintro ((h | h) | h | h)
    · exact .inl (.inl h)
    · exact .inr (.inl h)
    · exact .inl (.inr h)
    · exact .inr (.inr h)
  · rintro ((h | h) | h | h)
    · exact .inl (.inl h)
    · exact .inr (.inl h)
    · exact .inl (.inr h)
    · exact .inr (.inr h)

theorem holds_singleton {release : ApkUpdate} {held session : ℕ} :
    Holds [⟨release, .waiting held⟩] session ↔ session = held := by
  simp [Holds, eq_comm]

theorem not_holds_singleton {i : Install} (h : ∀ session, i.stage ≠ .waiting session) (session : ℕ) :
    ¬ Holds [i] session := by
  rintro ⟨j, hj, hstage⟩
  rw [List.mem_singleton.mp hj] at hstage
  exact h session hstage

theorem not_holds_nil (session : ℕ) : ¬ Holds [] session := fun ⟨_, h, _⟩ => absurd h List.not_mem_nil

namespace SessionsSound

variable {installs installs' : List Install} {sessions : ℕ} {log : List Told}

/-- The installs that wait are the same. -/
theorem congr (h : SessionsSound installs sessions log)
    (hholds : ∀ session, Holds installs' session ↔ Holds installs session) : SessionsSound installs' sessions log where
  staged := h.staged
  settled := h.settled
  held session hheld := h.held session ((hholds session).mp hheld)
  accounted session hlt := (h.accounted session hlt).imp_right (hholds session).mpr
  commits := h.commits

/-- Something else is told. -/
theorem told (h : SessionsSound installs sessions log) {entry : Told} (hentry : entry.isQuestion = true) :
    SessionsSound installs sessions (log ++ [entry]) := by
  have hsettled : ∀ session, Settled (log ++ [entry]) session ↔ Settled log session := by
    intro session
    rw [settled_snoc]
    refine or_iff_left ?_
    rintro (⟨_, _, rfl⟩ | rfl) <;> cases hentry
  refine ⟨fun session hmem => ?_, fun session hs => h.settled session ((hsettled session).mp hs),
    fun session hheld => ⟨(h.held session hheld).1, fun hs => (h.held session hheld).2 ((hsettled session).mp hs)⟩,
    fun session hlt => (h.accounted session hlt).imp_left (hsettled session).mpr, h.commits.snoc ?_⟩
  · rcases List.mem_append.mp hmem with hmem | hmem
    · exact h.staged session hmem
    · rw [← List.mem_singleton.mp hmem] at hentry
      cases hentry
  · rintro session dictating onScreen rfl
    cases hentry

/-- A session is made, and an install waits with it. -/
theorem create (h : SessionsSound installs sessions log) (hnone : ∀ session, ¬ Holds installs session)
    (hone : ∀ session, Holds installs' session ↔ session = sessions) :
    SessionsSound installs' (sessions + 1) (log ++ [.staged sessions]) := by
  have hsettled : ∀ session, Settled (log ++ [.staged sessions]) session ↔ Settled log session := by
    intro session
    rw [settled_snoc]
    refine or_iff_left ?_
    rintro (⟨_, _, heq⟩ | heq) <;> cases heq
  refine ⟨fun session hmem => ?_, fun session hs => ?_, fun session hheld => ?_, fun session hlt => ?_,
    h.commits.snoc fun session _ _ heq => by cases heq⟩
  · rcases List.mem_append.mp hmem with hmem | hmem
    · exact Nat.lt_succ_of_lt (h.staged session hmem)
    · cases List.mem_singleton.mp hmem
      exact Nat.lt_succ_self _
  · exact Nat.lt_succ_of_lt (h.settled session ((hsettled session).mp hs))
  · rw [(hone session).mp hheld]
    exact ⟨Nat.lt_succ_self _, fun hs => absurd (h.settled _ ((hsettled _).mp hs)) (lt_irrefl _)⟩
  · rcases Nat.lt_succ_iff_lt_or_eq.mp hlt with hlt | heq
    · exact .inl ((hsettled session).mpr ((h.accounted session hlt).resolve_right (hnone session)))
    · exact .inr ((hone session).mpr heq)

/-- The session an install waits with is settled. -/
theorem settle (h : SessionsSound installs sessions log) {held : ℕ}
    (hone : ∀ session, Holds installs session ↔ session = held) {entry : Told}
    (hentry : entry = .committed held false true ∨ entry = .abandoned held) :
    SessionsSound [] sessions (log ++ [entry]) := by
  obtain ⟨hlt, hopen⟩ := h.held held ((hone held).mpr rfl)
  have hsettled : ∀ session, Settled (log ++ [entry]) session ↔ Settled log session ∨ session = held := by
    intro session
    rw [settled_snoc]
    refine or_congr_right ⟨?_, ?_⟩
    · rintro (⟨_, _, rfl⟩ | rfl) <;> rcases hentry with heq | heq <;> cases heq <;> rfl
    · rintro rfl
      exact hentry.imp_left fun heq => ⟨false, true, heq⟩
  refine ⟨fun session hmem => ?_, fun session hs => ?_, fun session hheld => absurd hheld (not_holds_nil session),
    fun session hlt' => ?_, h.commits.snoc ?_⟩
  · rcases List.mem_append.mp hmem with hmem | hmem
    · exact h.staged session hmem
    · rw [← List.mem_singleton.mp hmem] at hentry
      rcases hentry with heq | heq <;> cases heq
  · rcases (hsettled session).mp hs with hs | rfl
    · exact h.settled session hs
    · exact hlt
  · refine .inl ((hsettled session).mpr ?_)
    exact (h.accounted session hlt').imp_right (hone session).mp
  · rintro session dictating onScreen rfl
    rcases hentry with heq | heq
    · cases heq
      exact ⟨rfl, rfl, hopen⟩
    · cases heq

end SessionsSound

/-! ## Installs -/

/-- What an install leaves under way. -/
def Install.rest (i : Install) (stage : Option Stage) : List Install :=
  stage.toList.map fun stage => { i with stage := stage }

/-- What an install changes: its own part of the state, and never to Checking. -/
structure Goes (i : Install) (u u' : Updates) (stage : Option Stage) : Prop where
  checks : u'.checks = u.checks
  checkCount : u'.checkCount = u.checkCount
  preferences : u'.preferences = u.preferences
  offerFrom : u'.offerFrom = u.offerFrom
  lastAsked : lastAsked u'.log = lastAsked u.log
  installs : InstallsSound (i.rest stage) u'.state
  sessions : SessionsSound (i.rest stage) u'.sessions u'.log
  state : u'.state ≠ .checking

theorem installsSound_nil (state : UpdateState) : InstallsSound [] state := fun _ h => absurd h List.not_mem_nil

theorem installsSound_singleton {i : Install} {state : UpdateState} (h : state.shows i.release = true) :
    InstallsSound [i] state := by
  intro j hj
  rw [List.mem_singleton.mp hj]
  exact ⟨rfl, h⟩

theorem UpdateState.not_checking_of_shows {release : ApkUpdate} {state : UpdateState} (h : state.shows release = true) :
    state ≠ .checking := by
  rintro rfl
  cases h

theorem installFailure_ne_checking (update : ApkUpdate) (status : ℤ) : installFailure update status ≠ .checking := by
  unfold installFailure
  split_ifs <;> exact fun h => by cases h

variable {u u' : Updates}

/-- An install that waits its turn with a session. -/
theorem awaitTurn_goes {i : Install} {session : ℕ} {stage : Option Stage} (commits : Bool)
    (hshows : u.state.shows i.release = true)
    (hsessions : SessionsSound [⟨i.release, .waiting session⟩] u.sessions u.log)
    (hnext : u.awaitTurn i.release session commits = (u', stage)) : Goes i u u' stage := by
  unfold Updates.awaitTurn at hnext
  by_cases hwait : (u.dictating || !u.onScreen) = true
  · rw [if_pos hwait] at hnext
    cases hnext
    have hshows' : (if u.dictating = true then .waitingForDictation i.release else u.state).shows i.release = true := by
      split_ifs
      · exact decide_eq_true rfl
      · exact hshows
    exact ⟨rfl, rfl, rfl, rfl, rfl, installsSound_singleton hshows', hsessions,
      UpdateState.not_checking_of_shows hshows'⟩
  · rw [if_neg hwait] at hnext
    cases hnext
    obtain ⟨hdictating, hscreen⟩ := Bool.or_eq_false_iff.mp (Bool.eq_false_iff.mpr hwait)
    have hscreen' : u.onScreen = true := by simpa using hscreen
    cases commits with
    | true =>
      refine ⟨rfl, rfl, rfl, rfl, lastAsked_other rfl _, installsSound_nil _, ?_, fun h => by cases h⟩
      refine hsessions.settle (fun _ => holds_singleton) (.inl ?_)
      rw [hdictating, hscreen']
    | false =>
      exact ⟨rfl, rfl, rfl, rfl, lastAsked_other rfl _, installsSound_nil _,
        hsessions.settle (fun _ => holds_singleton) (.inr rfl), installFailure_ne_checking i.release statusFailure⟩

theorem createSession_sessions {i : Install} (hnone : ∀ session, i.stage ≠ .waiting session)
    (hsessions : SessionsSound [i] u.sessions u.log) :
    SessionsSound [⟨i.release, .waiting u.sessions⟩] u.createSession.sessions u.createSession.log :=
  hsessions.create (not_holds_singleton hnone) fun _ => holds_singleton

/-- **What an install does next.** -/
theorem Install.next_goes {i : Install} {event : InstallEvent} {stage : Option Stage}
    (hshows : u.state.shows i.release = true) (hsessions : SessionsSound [i] u.sessions u.log)
    (hnext : i.next event u = some (u', stage)) : Goes i u u' stage := by
  obtain ⟨release, stage'⟩ := i
  have hmoved (hnone : ∀ session, (⟨release, stage'⟩ : Install).stage ≠ .waiting session) {j : List Install}
      (hj : ∀ session, ¬ Holds j session) : SessionsSound j u.sessions u.log :=
    hsessions.congr fun session => iff_of_false (hj session) (not_holds_singleton hnone session)
  cases stage' with
  | downloading =>
    have hnone : ∀ session, Stage.downloading ≠ .waiting session := fun _ h => by cases h
    cases event with
    | progress percent =>
      cases hnext
      exact ⟨rfl, rfl, rfl, rfl, rfl, installsSound_singleton (decide_eq_true rfl), hsessions, fun h => by cases h⟩
    | downloaded ok =>
      cases ok with
      | true =>
        cases hnext
        exact ⟨rfl, rfl, rfl, rfl, rfl, installsSound_singleton hshows,
          hmoved hnone (not_holds_singleton fun _ h => by cases h), UpdateState.not_checking_of_shows hshows⟩
      | false =>
        cases hnext
        exact ⟨rfl, rfl, rfl, rfl, rfl, installsSound_nil _, hmoved hnone not_holds_nil, fun h => by cases h⟩
    | _ => cases hnext
  | comparing =>
    have hnone : ∀ session, Stage.comparing ≠ .waiting session := fun _ h => by cases h
    cases event with
    | compared downgrade =>
      cases downgrade with
      | true =>
        cases hnext
        exact ⟨rfl, rfl, rfl, rfl, rfl, installsSound_nil _, hmoved hnone not_holds_nil, fun h => by cases h⟩
      | false =>
        cases hnext
        exact ⟨rfl, rfl, rfl, rfl, rfl, installsSound_singleton hshows,
          hmoved hnone (not_holds_singleton fun _ h => by cases h), UpdateState.not_checking_of_shows hshows⟩
    | _ => cases hnext
  | staging =>
    have hnone : ∀ session, Stage.staging ≠ .waiting session := fun _ h => by cases h
    have hcreated := createSession_sessions hnone hsessions
    have hasked : lastAsked u.createSession.log = lastAsked u.log := lastAsked_other rfl _
    cases event with
    | stagingFailed created =>
      cases created with
      | true =>
        cases hnext
        exact ⟨rfl, rfl, rfl, rfl, (lastAsked_other rfl _).trans hasked, installsSound_nil _,
          hcreated.settle (fun _ => holds_singleton) (.inr rfl), installFailure_ne_checking release statusFailure⟩
      | false =>
        cases hnext
        exact ⟨rfl, rfl, rfl, rfl, rfl, installsSound_nil _, hmoved hnone not_holds_nil,
          installFailure_ne_checking release statusFailure⟩
    | staged commits =>
      have hgoes := awaitTurn_goes (u := u.createSession) (i := ⟨release, .staging⟩) commits hshows hcreated
        (Option.some.inj hnext)
      exact ⟨hgoes.checks, hgoes.checkCount, hgoes.preferences, hgoes.offerFrom, hgoes.lastAsked.trans hasked,
        hgoes.installs, hgoes.sessions, hgoes.state⟩
    | _ => cases hnext
  | waiting session =>
    cases event with
    | waited commits => exact awaitTurn_goes commits hshows hsessions (Option.some.inj hnext)
    | _ => cases hnext

/-! ## Checks -/

theorem UpdateState.isInstalling_of_shows {release : ApkUpdate} {state : UpdateState} (h : state.shows release = true) :
    state.isInstalling = true := by
  cases state with
  | downloading | waitingForDictation => rfl
  | _ => cases h

/-- No install is under way unless the state says so. -/
theorem InstallsSound.eq_nil {installs : List Install} {state : UpdateState} (h : InstallsSound installs state)
    (hshows : ∀ release, state.shows release = false) : installs = [] := by
  refine List.eq_nil_iff_forall_not_mem.mpr fun i hi => ?_
  obtain ⟨-, htrue⟩ := h i hi
  rw [hshows] at htrue
  cases htrue

theorem UpdateState.shows_of_not_installing {state : UpdateState} (h : state.isInstalling = false)
    (release : ApkUpdate) : state.shows release = false := by
  cases state with
  | downloading | waitingForDictation => cases h
  | _ => rfl

theorem InstallsSound.change {installs : List Install} {state : UpdateState} (h : InstallsSound installs state)
    (hstate : state.isInstalling = false) (state' : UpdateState) : InstallsSound installs state' := by
  rw [h.eq_nil (UpdateState.shows_of_not_installing hstate)]
  exact installsSound_nil state'

/-- The state is replaced unless an update is on its way in. -/
theorem InstallsSound.unless {installs : List Install} {state : UpdateState} (h : InstallsSound installs state)
    (state' : UpdateState) : InstallsSound installs (if state.isInstalling then state else state') := by
  split_ifs with hinstalling
  · exact h
  · exact h.change (Bool.eq_false_iff.mpr hinstalling) state'

theorem offerSound_of_none {preferences : Preferences} {offerFrom : Option (Text × UpdateChannel)}
    (h : preferences.savedOffer = none) : OfferSound preferences offerFrom := by
  intro update hoffer
  rw [h] at hoffer
  cases hoffer

namespace Sound

variable (h : Sound u)

include h

theorem beginCheck (channel : UpdateChannel) (manual : Bool) (now : ℤ) : Sound (u.beginCheck channel manual now) := by
  by_cases hinstalling : u.state.isInstalling = true
  · rw [Updates.beginCheck, if_pos hinstalling]
    exact h
  · rw [Updates.beginCheck, if_neg hinstalling]
    have hstate : u.state.isInstalling = false := Bool.eq_false_iff.mpr hinstalling
    exact ⟨h.checks.begin rfl hstate, h.installs.change hstate _, h.sessions.told rfl, h.offer⟩

theorem endCheck (check : Check) : Sound (u.endCheck check) :=
  ⟨h.checks.filter _, h.installs, h.sessions, h.offer⟩

theorem cancelCheck (check : Check) : Sound (u.cancelCheck check) := by
  refine ⟨h.checks.filter _, ?_, h.sessions, h.offer⟩
  unfold Updates.cancelCheck
  split_ifs with hlatest
  · exact h.installs.change (by rw [hlatest.2]; rfl) check.before
  · exact h.installs

theorem removeOffer : Sound u.removeOffer :=
  ⟨h.checks, h.installs, h.sessions, offerSound_of_none rfl⟩

theorem record (version : Text) (check : Check) (release : Option ApkUpdate) :
    Sound (u.record version check release) := by
  cases release with
  | none => exact ⟨h.checks, h.installs, h.sessions, offerSound_of_none rfl⟩
  | some update => exact ⟨h.checks, h.installs, h.sessions, fun _ _ => ⟨version, rfl, rfl⟩⟩

theorem dropStaleOffer (version : Text) (check : Check) : Sound (u.dropStaleOffer version check) := by
  unfold Updates.dropStaleOffer
  split_ifs
  · exact h
  · exact h.removeOffer

theorem change (hstate : u.state.isInstalling = false) (state : UpdateState) : Sound { u with state := state } :=
  ⟨h.checks, h.installs.change hstate state, h.sessions, h.offer⟩

theorem report (version : Text) (check : Check) (result : Option (Option ApkUpdate)) :
    Sound (u.report version check result) := by
  cases result with
  | some release =>
    have hstate : Sound { u with
        state := if u.state.isInstalling then u.state else (release.map UpdateState.available).getD .upToDate } :=
      ⟨h.checks, h.installs.unless _, h.sessions, h.offer⟩
    exact hstate.record version check release
  | none =>
    change Sound (if !u.state.isInstalling && !check.before.isAvailable then { u with state := .checkFailed } else u)
    split_ifs with hfails
    · exact h.change (by simpa using (Bool.and_eq_true_iff.mp hfails).1) _
    · exact h

theorem answerCheck (version : Text) (check : Check) (result : Option (Option ApkUpdate)) :
    Sound (u.answerCheck version check result) := by
  unfold Updates.answerCheck
  split_ifs
  · exact h.endCheck check
  · exact ((h.endCheck check).dropStaleOffer version check).report version check result

theorem changeChannel : Sound u.changeChannel :=
  ⟨h.checks.changeChannel, h.installs.unless _, h.sessions.told rfl, h.offer⟩

theorem showSavedOffer (version : Text) (channel : UpdateChannel) : Sound (u.showSavedOffer version channel) := by
  unfold Updates.showSavedOffer
  split_ifs with hshown
  · exact h
  · have hidle : u.state = .idle := by
      by_contra hne
      exact hshown (Bool.or_eq_true_iff.mpr (.inl (decide_eq_true hne)))
    cases u.preferences.savedOffer with
    | none => exact h
    | some update => exact h.change (by rw [hidle]; rfl) _

theorem install (hstate : u.state.isInstalling = false) (release : ApkUpdate) : Sound (u.install release) := by
  have hnil : u.installs = [] := h.installs.eq_nil (UpdateState.shows_of_not_installing hstate)
  have hsessions : SessionsSound (u.installs ++ [⟨release, .downloading⟩]) u.sessions u.log := by
    refine h.sessions.congr fun session => ?_
    rw [hnil]
    exact iff_of_false (not_holds_singleton (fun _ heq => by cases heq) session) (not_holds_nil session)
  refine ⟨h.checks, ?_, hsessions, h.offer⟩
  unfold Updates.install
  rw [hnil]
  exact installsSound_singleton (decide_eq_true rfl)

theorem proceed (channel : UpdateChannel) (now : ℤ) : Sound (u.proceed channel now) := by
  unfold Updates.proceed
  split
  · rename_i update heq
    exact h.install (by rw [heq]; rfl) update
  · rename_i update message manualInstall heq
    split_ifs
    · exact h
    · exact h.install (by rw [heq]; rfl) update
  · exact h.beginCheck channel true now

theorem dismissOffer (hshown : u.state.dismissible = true) : Sound u.dismissOffer := by
  have hstate : u.state.isInstalling = false := by
    revert hshown
    cases u.state <;> simp [UpdateState.dismissible, UpdateState.isInstalling]
  unfold Updates.dismissOffer
  split
  · exact ⟨h.checks, h.installs.change hstate _, h.sessions, h.offer⟩
  · exact h

theorem installRefused (version : Option Text) (status : ℤ) : Sound (u.installRefused version status) := by
  have hchange (hshows : ∀ release, u.state.shows release = false) (state : UpdateState) :
      Sound { u with state := state } := by
    refine ⟨h.checks, ?_, h.sessions, h.offer⟩
    change InstallsSound u.installs state
    rw [h.installs.eq_nil hshows]
    exact installsSound_nil state
  unfold Updates.installRefused
  split
  · rename_i update heq
    split_ifs
    · exact hchange (fun _ => by rw [heq]; rfl) _
    · exact h
  · rename_i update heq
    split_ifs
    · exact hchange (fun _ => by rw [heq]; rfl) _
    · exact h
  · exact h

theorem goes {index : ℕ} {i : Install} {event : InstallEvent} {next : Updates × Option Stage}
    (hi : u.installs[index]? = some i) (hnext : i.next event u = some next) :
    Goes i u next.1 next.2 ∧ moved u.installs index i next.2 = i.rest next.2 := by
  obtain ⟨hinstalls, hshows⟩ := h.installs i (List.mem_of_getElem? hi)
  have hsessions := h.sessions
  rw [hinstalls] at hsessions hi ⊢
  refine ⟨Install.next_goes hshows hsessions hnext, ?_⟩
  cases index with
  | zero => cases next.2 <;> rfl
  | succ index => cases hi

theorem step {version : Text} {e : Event} (hstep : step version u e = some u') : Sound u' := by
  cases e with
  | checkPeriodically channel now =>
    cases hstep
    exact h.beginCheck channel false now
  | cancelled id =>
    obtain ⟨check, -, rfl⟩ := Option.map_eq_some_iff.mp hstep
    exact h.cancelCheck check
  | answered id result =>
    obtain ⟨check, -, rfl⟩ := Option.map_eq_some_iff.mp hstep
    exact h.answerCheck version check result
  | proceed channel now =>
    cases hstep
    exact h.proceed channel now
  | changeChannel =>
    cases hstep
    exact h.changeChannel
  | dismissOffer =>
    rw [UpdateViewModel.step] at hstep
    split_ifs at hstep with hshown
    cases hstep
    exact h.dismissOffer hshown
  | showSavedOffer channel =>
    cases hstep
    exact h.showSavedOffer version channel
  | installRefused refused status =>
    cases hstep
    exact h.installRefused refused status
  | dictation running =>
    cases hstep
    exact ⟨h.checks, h.installs, h.sessions, h.offer⟩
  | screen on =>
    cases hstep
    exact ⟨h.checks, h.installs, h.sessions, h.offer⟩
  | install index event =>
    obtain ⟨i, hi, hmap⟩ := Option.bind_eq_some_iff.mp hstep
    obtain ⟨next, hnext, rfl⟩ := Option.map_eq_some_iff.mp hmap
    obtain ⟨hgoes, hmoved⟩ := h.goes hi hnext
    refine ⟨?_, ?_, ?_, ?_⟩
    · change ChecksSound next.1.checks next.1.checkCount next.1.log
      rw [hgoes.checks, hgoes.checkCount]
      exact h.checks.same_question hgoes.lastAsked
    · change InstallsSound (moved u.installs index i next.2) next.1.state
      rw [hmoved]
      exact hgoes.installs
    · change SessionsSound (moved u.installs index i next.2) next.1.sessions next.1.log
      rw [hmoved]
      exact hgoes.sessions
    · change OfferSound next.1.preferences next.1.offerFrom
      rw [hgoes.preferences, hgoes.offerFrom]
      exact h.offer

end Sound

/-! ## Checking ends -/

/-- A cancelled check does not put back the Checking of another. -/
def Undisturbed (u : Updates) : Event → Prop
  | .cancelled id =>
    ∀ check ∈ u.checks, check.id = id → id = u.checkCount → u.state = .checking → check.before ≠ .checking
  | _ => True

instance (u : Updates) : ∀ e, Decidable (Undisturbed u e)
  | .cancelled id => inferInstanceAs (Decidable (∀ check ∈ u.checks, check.id = id → id = u.checkCount →
      u.state = .checking → check.before ≠ .checking))
  | .checkPeriodically _ _ | .answered _ _ | .proceed _ _ | .changeChannel | .dismissOffer | .showSavedOffer _
  | .installRefused _ _ | .dictation _ | .screen _ | .install _ _ => inferInstanceAs (Decidable True)

namespace Settles

theorem of_ne (h : u.state ≠ .checking) : Settles u := fun hchecking => absurd hchecking h

theorem beginCheck (hsound : Sound u) (h : Settles u) (channel : UpdateChannel) (manual : Bool) (now : ℤ) :
    Settles (u.beginCheck channel manual now) := by
  by_cases hinstalling : u.state.isInstalling = true
  · rw [Updates.beginCheck, if_pos hinstalling]
    exact h
  · rw [Updates.beginCheck, if_neg hinstalling]
    intro hchecking
    refine ⟨⟨_, List.mem_append_right _ (List.mem_singleton.mpr rfl), rfl⟩, fun check hcheck hid => ?_⟩
    rcases List.mem_append.mp hcheck with hcheck | hcheck
    · exact absurd (hsound.checks.le check hcheck) (by rw [hid]; exact Nat.not_succ_le_self _)
    · rw [List.mem_singleton.mp hcheck]
      refine Bool.eq_false_iff.mpr fun havailable => ?_
      simp only [if_pos havailable] at hchecking
      rw [hchecking] at havailable
      cases havailable

/-- A check that does not count is over. -/
theorem endCheck (h : Settles u) {check : Check} (hid : check.id ≠ u.checkCount) : Settles (u.endCheck check) := by
  intro hchecking
  obtain ⟨⟨latest, hlatest, hcount⟩, hbefore⟩ := h hchecking
  refine ⟨⟨latest, List.mem_filter.mpr ⟨hlatest, decide_eq_true ?_⟩, hcount⟩,
    fun c hc => hbefore c (List.mem_of_mem_filter hc)⟩
  rw [hcount]
  exact hid.symm

theorem cancelCheck (h : Settles u) {check : Check}
    (hok : check.id = u.checkCount → u.state = .checking → check.before ≠ .checking) :
    Settles (u.cancelCheck check) := by
  by_cases hlatest : check.id = u.checkCount ∧ u.state = .checking
  · refine of_ne ?_
    change (if check.id = u.checkCount ∧ u.state = .checking then check.before else u.state) ≠ .checking
    rw [if_pos hlatest]
    exact hok hlatest.1 hlatest.2
  · intro hchecking
    have hstate : u.state = .checking := (if_neg hlatest).symm.trans hchecking
    exact h.endCheck (fun hid => hlatest ⟨hid, hstate⟩) hstate

theorem dropStaleOffer_state (version : Text) (check : Check) (u : Updates) :
    (u.dropStaleOffer version check).state = u.state := by
  unfold Updates.dropStaleOffer
  split_ifs <;> rfl

theorem record_state (version : Text) (check : Check) (release : Option ApkUpdate) (u : Updates) :
    (u.record version check release).state = u.state := by
  cases release <;> rfl

/-- A check that counts is over. -/
theorem report_state {version : Text} {check : Check} {result : Option (Option ApkUpdate)}
    (hbefore : u.state = .checking → check.before.isAvailable = false) :
    (u.report version check result).state ≠ .checking := by
  cases result with
  | some release =>
    change (Updates.record version check release _).state ≠ _
    rw [record_state]
    split_ifs with hinstalling
    · intro hchecking
      rw [hchecking] at hinstalling
      cases hinstalling
    · cases release <;> exact fun heq => by cases heq
  | none =>
    change (if !u.state.isInstalling && !check.before.isAvailable then { u with state := .checkFailed }
      else u).state ≠ _
    intro hchecking
    split_ifs at hchecking with hfails
    · rw [hchecking, hbefore hchecking] at hfails
      exact hfails rfl

theorem answerCheck (h : Settles u) (version : Text) {check : Check} (hcheck : check ∈ u.checks)
    (result : Option (Option ApkUpdate)) : Settles (u.answerCheck version check result) := by
  unfold Updates.answerCheck
  split_ifs with hid
  · exact h.endCheck hid
  · refine of_ne (report_state fun hchecking => ?_)
    rw [dropStaleOffer_state] at hchecking
    exact (h hchecking).2 check hcheck (not_not.mp hid)

theorem step {version : Text} {e : Event} (hsound : Sound u) (h : Settles u) (hok : Undisturbed u e)
    (hstep : step version u e = some u') : Settles u' := by
  cases e with
  | checkPeriodically channel now =>
    cases hstep
    exact h.beginCheck hsound channel false now
  | cancelled id =>
    obtain ⟨check, hfind, rfl⟩ := Option.map_eq_some_iff.mp hstep
    have hmatches := List.find?_some hfind
    have hid : check.id = id := of_decide_eq_true (Bool.and_eq_true_iff.mp hmatches).1
    exact h.cancelCheck fun hcount => hok check (List.mem_of_find?_eq_some hfind) hid (hid.symm.trans hcount)
  | answered id result =>
    obtain ⟨check, hfind, rfl⟩ := Option.map_eq_some_iff.mp hstep
    exact h.answerCheck version (List.mem_of_find?_eq_some hfind) result
  | proceed channel now =>
    cases hstep
    unfold Updates.proceed
    split
    · exact of_ne fun heq => by cases heq
    · split_ifs
      · exact h
      · exact of_ne fun heq => by cases heq
    · exact h.beginCheck hsound channel true now
  | changeChannel =>
    cases hstep
    refine of_ne fun hchecking => ?_
    change (if u.state.isInstalling then u.state else .idle) = _ at hchecking
    split_ifs at hchecking with hinstalling
    rw [hchecking] at hinstalling
    cases hinstalling
  | dismissOffer =>
    rw [UpdateViewModel.step] at hstep
    split_ifs at hstep
    cases hstep
    unfold Updates.dismissOffer
    split
    · exact of_ne fun heq => by cases heq
    · exact h
  | showSavedOffer channel =>
    cases hstep
    unfold Updates.showSavedOffer
    split_ifs
    · exact h
    · split
      · exact of_ne fun heq => by cases heq
      · exact h
  | installRefused refused status =>
    cases hstep
    unfold Updates.installRefused
    split
    · split_ifs
      · exact of_ne (installFailure_ne_checking _ _)
      · exact h
    · split_ifs
      · exact of_ne (installFailure_ne_checking _ _)
      · exact h
    · exact h
  | dictation running =>
    cases hstep
    exact h
  | screen on =>
    cases hstep
    exact h
  | install index event =>
    obtain ⟨i, hi, hmap⟩ := Option.bind_eq_some_iff.mp hstep
    obtain ⟨next, hnext, rfl⟩ := Option.map_eq_some_iff.mp hmap
    exact of_ne (hsound.goes hi hnext).1.state

end Settles

/-! ## Checks and installs do not disturb each other -/

/-- What earlier runs left. -/
structure Starts (u : Updates) : Prop where
  state : u.state = .idle
  checks : u.checks = []
  installs : u.installs = []
  sessions : u.sessions = 0
  log : u.log = []
  offer : OfferSound u.preferences u.offerFrom

theorem Starts.sound (h : Starts u) : Sound u where
  checks := by
    rw [h.checks]
    exact ⟨fun _ hc => absurd hc List.not_mem_nil, fun _ hc => absurd hc List.not_mem_nil,
      fun _ hc => absurd hc List.not_mem_nil⟩
  installs := by
    rw [h.installs]
    exact installsSound_nil _
  sessions := by
    rw [h.installs, h.sessions, h.log]
    refine ⟨fun _ hs => absurd hs List.not_mem_nil, ?_, fun session hs => absurd hs (not_holds_nil session),
      fun _ hlt => absurd hlt (Nat.not_lt_zero _), Each.nil⟩
    rintro session (⟨_, _, hs⟩ | hs) <;> exact absurd hs List.not_mem_nil
  offer := h.offer

theorem settles_run {version : Text} {init : Updates} (hinit : Starts init)
    (h : Reaches (step version) Undisturbed init u) : Sound u ∧ Settles u := by
  have hstart : Settles init := Settles.of_ne (by rw [hinit.state]; exact fun heq => by cases heq)
  exact h.invariant (P := fun u => Sound u ∧ Settles u) ⟨hinit.sound, hstart⟩ fun _ _ _ hok ⟨hsound, hsettles⟩ hstep =>
    ⟨hsound.step hstep, hsettles.step hsound hok hstep⟩

/-- The end of a check. -/
def Event.ends (id : ℕ) : Event → Bool
  | .cancelled check | .answered check _ => check = id
  | _ => false

/-- A check, a channel change, a saved offer, or what the user does with the update shown. -/
def Event.asks : Event → Bool
  | .checkPeriodically _ _ | .cancelled _ | .answered _ _ | .proceed _ _ | .changeChannel | .showSavedOffer _ => true
  | _ => false

/-- The session is committed. -/
def Told.commits (session : ℕ) : Told → Bool
  | .committed other _ _ => other = session
  | _ => false

namespace Sound

variable {version : Text} {e : Event} (h : Sound u)

include h

/-- Only the check asked last changes something by its end. -/
theorem latest_changes {id : ℕ} (hends : e.ends id = true) (hstep : UpdateViewModel.step version u e = some u')
    (hchanges : u'.state ≠ u.state ∨ u'.preferences.savedOffer ≠ u.preferences.savedOffer) :
    lastAsked u.log = some (.began id) := by
  have hcurrent {check : Check} (hcheck : check ∈ u.checks) (hid : check.id = id) (hcount : check.id = u.checkCount) :
      lastAsked u.log = some (.began id) := hid ▸ h.checks.current check hcheck hcount
  cases e with
  | cancelled check =>
    obtain rfl : check = id := of_decide_eq_true hends
    obtain ⟨c, hfind, rfl⟩ := Option.map_eq_some_iff.mp hstep
    have hmatches := List.find?_some hfind
    refine hcurrent (List.mem_of_find?_eq_some hfind) (of_decide_eq_true (Bool.and_eq_true_iff.mp hmatches).1) ?_
    by_contra hcount
    have hsame : (u.cancelCheck c).state = u.state := if_neg fun hlatest => hcount hlatest.1
    exact hchanges.elim (fun hne => hne hsame) fun hne => hne rfl
  | answered check result =>
    obtain rfl : check = id := of_decide_eq_true hends
    obtain ⟨c, hfind, rfl⟩ := Option.map_eq_some_iff.mp hstep
    have hmatches := List.find?_some hfind
    refine hcurrent (List.mem_of_find?_eq_some hfind) (of_decide_eq_true hmatches) ?_
    by_contra hcount
    rw [Updates.answerCheck, if_pos hcount] at hchanges
    exact hchanges.elim (fun hne => hne rfl) fun hne => hne rfl
  | _ => cases hends

omit h in
/-- The end of a check leaves an update on its way in as it is. -/
theorem answerCheck_installing (hinstalling : u.state.isInstalling = true) (check : Check)
    (result : Option (Option ApkUpdate)) :
    (u.answerCheck version check result).state = u.state ∧
      (u.answerCheck version check result).installs = u.installs := by
  unfold Updates.answerCheck
  split_ifs with hcount
  · exact ⟨rfl, rfl⟩
  · have hkept : ((u.endCheck check).dropStaleOffer version check).state = u.state ∧
        ((u.endCheck check).dropStaleOffer version check).installs = u.installs := by
      unfold Updates.dropStaleOffer
      split_ifs <;> exact ⟨rfl, rfl⟩
    generalize (u.endCheck check).dropStaleOffer version check = kept at hkept
    rw [← hkept.1, ← hkept.2]
    rw [← hkept.1] at hinstalling
    cases result with
    | some release =>
      change (Updates.record version check release _).state = _ ∧ (Updates.record version check release _).installs = _
      rw [if_pos hinstalling]
      cases release <;> exact ⟨rfl, rfl⟩
    | none =>
      have hfails : (!kept.state.isInstalling && !check.before.isAvailable) = false := by rw [hinstalling]; rfl
      change (if !kept.state.isInstalling && !check.before.isAvailable then { kept with state := .checkFailed }
        else kept).state = _ ∧ (if !kept.state.isInstalling && !check.before.isAvailable then
        { kept with state := .checkFailed } else kept).installs = _
      rw [if_neg (Bool.eq_false_iff.mp hfails)]
      exact ⟨rfl, rfl⟩

omit h in
/-- An update on its way in stays. -/
theorem installing_stays (hinstalling : u.state.isInstalling = true) (hasks : e.asks = true)
    (hstep : UpdateViewModel.step version u e = some u') : u'.state = u.state ∧ u'.installs = u.installs := by
  have hbegin (channel : UpdateChannel) (manual : Bool) (now : ℤ) : u.beginCheck channel manual now = u :=
    if_pos hinstalling
  cases e with
  | checkPeriodically channel now =>
    cases hstep
    rw [hbegin]
    exact ⟨rfl, rfl⟩
  | cancelled check =>
    obtain ⟨c, -, rfl⟩ := Option.map_eq_some_iff.mp hstep
    refine ⟨if_neg fun hlatest => ?_, rfl⟩
    rw [hlatest.2] at hinstalling
    cases hinstalling
  | answered check result =>
    obtain ⟨c, -, rfl⟩ := Option.map_eq_some_iff.mp hstep
    exact answerCheck_installing hinstalling c result
  | proceed channel now =>
    cases hstep
    unfold Updates.proceed
    split
    · rename_i heq
      rw [heq] at hinstalling
      cases hinstalling
    · rename_i heq
      rw [heq] at hinstalling
      cases hinstalling
    · rw [hbegin]
      exact ⟨rfl, rfl⟩
  | changeChannel =>
    cases hstep
    exact ⟨if_pos hinstalling, rfl⟩
  | showSavedOffer channel =>
    cases hstep
    have hidle : (decide (u.state ≠ .idle) || !u.preferences.lastCheckCurrent version channel) = true := by
      refine Bool.or_eq_true_iff.mpr (.inl (decide_eq_true fun heq => ?_))
      rw [heq] at hinstalling
      cases hinstalling
    rw [Updates.showSavedOffer, if_pos hidle]
    exact ⟨rfl, rfl⟩
  | _ => cases hasks

omit h in
theorem showSavedOffer_from (hoffer : OfferSound u.preferences u.offerFrom) {channel : UpdateChannel}
    (hstep : UpdateViewModel.step version u (.showSavedOffer channel) = some u') (hne : u'.state ≠ u.state) :
    ∃ update, u'.state = .available update ∧ u.preferences.savedOffer = some update ∧
      u.offerFrom = some (version, channel) := by
  cases hstep
  revert hne
  unfold Updates.showSavedOffer
  split_ifs with hkept
  · exact fun hne => absurd rfl hne
  · split
    · rename_i update hsaved
      intro _
      obtain ⟨-, hcurrent⟩ := Bool.or_eq_false_iff.mp (Bool.eq_false_iff.mpr hkept)
      have hboth : u.preferences.lastCheckCurrent version channel = true := by
        cases hlast : u.preferences.lastCheckCurrent version channel with
        | true => rfl
        | false =>
          rw [hlast] at hcurrent
          cases hcurrent
      obtain ⟨hversion, hchannel⟩ := Bool.and_eq_true_iff.mp hboth
      obtain ⟨recorded, hrecorded, hfrom⟩ := hoffer update hsaved
      rw [of_decide_eq_true hversion] at hrecorded
      rw [of_decide_eq_true hchannel] at hfrom
      exact ⟨update, rfl, hsaved, hfrom.trans (by rw [Option.some.inj hrecorded])⟩
    · exact fun hne => absurd rfl hne

theorem installs_length : u.installs.length ≤ 1 := by
  cases hinstalls : u.installs with
  | nil => exact Nat.zero_le _
  | cons i installs =>
    have hsingle := (h.installs i (hinstalls ▸ List.mem_cons_self)).1
    rw [← hinstalls, hsingle]
    exact le_rfl

theorem commits_at_most_once (session : ℕ) : u.log.countP (·.commits session) ≤ 1 := by
  refine Each.countP_le_one (h.sessions.commits.mono fun before entry htimely hcommits t ht => ?_)
  cases entry with
  | committed other dictating onScreen =>
    obtain rfl : other = session := of_decide_eq_true hcommits
    refine Bool.eq_false_iff.mpr fun hagain => ?_
    cases t with
    | committed earlier d o =>
      obtain rfl : earlier = other := of_decide_eq_true hagain
      exact (htimely _ _ _ rfl).2.2 (.inl ⟨d, o, ht⟩)
    | _ => cases hagain
  | _ => cases hcommits

theorem commits_timely {session : ℕ} {dictating onScreen : Bool}
    (hmem : .committed session dictating onScreen ∈ u.log) : dictating = false ∧ onScreen = true := by
  obtain ⟨before, after, hlog⟩ := List.append_of_mem hmem
  obtain ⟨hdictating, hscreen, -⟩ := h.sessions.commits before _ after hlog session dictating onScreen rfl
  exact ⟨hdictating, hscreen⟩

/-- An install that waits settles its session the next time it looks, once no dictation runs and the app is shown. -/
theorem waits_no_longer {session : ℕ} {commits : Bool} (hheld : Holds u.installs session)
    (hdictating : u.dictating = false) (hscreen : u.onScreen = true)
    (hstep : UpdateViewModel.step version u (.install 0 (.waited commits)) = some u') :
    Settled u'.log session := by
  obtain ⟨i, hi, hstage⟩ := hheld
  obtain ⟨hsingle, -⟩ := h.installs i hi
  obtain ⟨release, stage⟩ := i
  cases hstage
  have hwait : (u.dictating || !u.onScreen) = false := by rw [hdictating, hscreen]; rfl
  rw [UpdateViewModel.step, hsingle] at hstep
  obtain ⟨j, hj, hmap⟩ := Option.bind_eq_some_iff.mp hstep
  cases hj
  obtain ⟨next, hnext, rfl⟩ := Option.map_eq_some_iff.mp hmap
  change some (u.awaitTurn release session commits) = some next at hnext
  rw [Updates.awaitTurn, if_neg (Bool.eq_false_iff.mp hwait)] at hnext
  cases hnext
  cases commits with
  | true => exact settled_snoc.mpr (.inr (.inl ⟨u.dictating, u.onScreen, rfl⟩))
  | false => exact settled_snoc.mpr (.inr (.inr rfl))

end Sound

/-- **Update checks and installs do not disturb each other**, in every run in which no cancelled check puts back the
Checking of another: of all checks only the one asked last changes the state or the saved offer by its end; the state is
not Checking while no check is under way; an update on its way in is not replaced, and no second install starts beside
one; a session is committed at most once, when no dictation runs and the app is on screen, and is settled unless its
install waits; and a saved offer is shown only when this version found it on the channel. -/
theorem updates_undisturbed {version : Text} {init : Updates} (hinit : Starts init)
    (h : Reaches (step version) Undisturbed init u) :
    (∀ id e u', e.ends id = true → step version u e = some u' →
      (u'.state ≠ u.state ∨ u'.preferences.savedOffer ≠ u.preferences.savedOffer) →
        lastAsked u.log = some (.began id)) ∧
    (u.checks = [] → u.state ≠ .checking) ∧
    (u.state.isInstalling = true → ∀ e u', e.asks = true → step version u e = some u' →
      u'.state = u.state ∧ u'.installs = u.installs) ∧
    (u.installs.length ≤ 1 ∧ ∀ i ∈ u.installs, u.state.isInstalling = true) ∧
    (∀ session, u.log.countP (·.commits session) ≤ 1) ∧
    (∀ session dictating onScreen, .committed session dictating onScreen ∈ u.log →
      dictating = false ∧ onScreen = true) ∧
    (∀ session < u.sessions, Settled u.log session ∨ Holds u.installs session) ∧
    (∀ session commits u', Holds u.installs session → u.dictating = false → u.onScreen = true →
      step version u (.install 0 (.waited commits)) = some u' → Settled u'.log session) ∧
    ∀ channel u', step version u (.showSavedOffer channel) = some u' → u'.state ≠ u.state →
      ∃ update, u'.state = .available update ∧ u.preferences.savedOffer = some update ∧
        u.offerFrom = some (version, channel) := by
  obtain ⟨hsound, hsettles⟩ := settles_run hinit h
  refine ⟨fun id e u' hends hstep hchanges => hsound.latest_changes hends hstep hchanges, fun hchecks hchecking => ?_,
    fun hinstalling e u' hasks hstep => Sound.installing_stays hinstalling hasks hstep,
    ⟨hsound.installs_length, fun i hi => UpdateState.isInstalling_of_shows (hsound.installs i hi).2⟩,
    hsound.commits_at_most_once, fun session dictating onScreen => hsound.commits_timely, hsound.sessions.accounted,
    fun session commits u' hheld hdictating hscreen hstep => hsound.waits_no_longer hheld hdictating hscreen hstep,
    fun channel u' hstep hne => Sound.showSavedOffer_from hsound.offer hstep hne⟩
  obtain ⟨⟨check, hcheck, -⟩, -⟩ := hsettles hchecking
  rw [hchecks] at hcheck
  exact absurd hcheck List.not_mem_nil

/-- An update is found and staged while a dictation runs. -/
def stagedWhileDictating : List Event :=
  [.screen true, .dictation true, .proceed .stable 5, .answered 1 (some (some ⟨['2'], [], [], false⟩)),
    .proceed .stable 6, .install 0 (.downloaded true), .install 0 (.compared false), .install 0 (.staged true)]

theorem staged_update_waits : ∃ u, Reaches.runs (step ['1']) Undisturbed {} stagedWhileDictating = some u ∧
    Holds u.installs 0 ∧ ∀ session, u.log.countP (·.commits session) ≤ 1 := by
  obtain ⟨u, hrun, hholds⟩ : ∃ u, Reaches.runs (step ['1']) Undisturbed {} stagedWhileDictating = some u ∧
    Holds u.installs 0 := ⟨_, rfl, _, List.mem_singleton_self _, rfl⟩
  refine ⟨u, hrun, hholds, ?_⟩
  exact (updates_undisturbed ⟨rfl, rfl, rfl, rfl, rfl, offerSound_of_none rfl⟩ (.of_runs .start hrun)).2.2.2.2.1

/-- A periodic check that began while another was under way is cancelled, and Checking outlives both. -/
theorem checking_outlives_its_checks : ¬ ∀ (version : Text) (init u : Updates), Starts init →
    Reaches (step version) (fun _ _ => True) init u → u.checks = [] → u.state ≠ .checking := by
  intro hall
  have hrun : Reaches.runs (step ['1']) (fun _ _ => True) {} [.proceed .stable 5, .checkPeriodically .stable 6,
      .cancelled 2, .answered 1 none] = some _ := rfl
  exact hall ['1'] {} _ ⟨rfl, rfl, rfl, rfl, rfl, offerSound_of_none rfl⟩ (.of_runs .start hrun) rfl rfl

end Speecher.UpdateViewModel
