import Mathlib.Logic.Function.Basic
import Speecher.Foundations.History
import Speecher.Foundations.Runs
import Speecher.Providers.ServiceSocket

/-!
# The phone's sign-ins

Each provider's tokens are kept encrypted, with a mark when the provider turned them down. They are written in one
synchronized section, and refreshed on worker threads: one refresh of a provider at a time reads the tokens, asks the
token endpoint with no lock on the writes, and then saves what it got if the tokens it read are still the ones kept.
Sign-ins, sign-outs and rejections may fall anywhere in between. Encrypting and the file are left out.

* `Proper`: what each thing that happens is, in the light of what happened before.
* `refresh_keeps_sign_ins`: a refresh saves its result only over the very tokens it read, what it spends was saved since
  the refresh before it began, what is returned is what is kept then, and a mark is of the tokens that are kept.
* `refresh_token_kept`: a token endpoint that gives no new refresh token has its old one spent again.
-/

namespace Speecher

inductive OAuthProvider
  | claude
  | chatGpt
  deriving DecidableEq

structure OAuthTokens where
  accessToken : String
  refreshToken : String
  idToken : String
  expiresAtMillis : ℤ
  scope : String
  deriving DecidableEq

/-- What is kept of each provider: its tokens, and whether it turned them down. -/
structure SavedSignIns where
  load : OAuthProvider → Option OAuthTokens
  sessionEnded : OAuthProvider → Bool

namespace SavedSignIns

def save (s : SavedSignIns) (provider : OAuthProvider) (tokens : OAuthTokens) : SavedSignIns :=
  ⟨Function.update s.load provider (some tokens), Function.update s.sessionEnded provider false⟩

def signOut (s : SavedSignIns) (provider : OAuthProvider) : SavedSignIns :=
  ⟨Function.update s.load provider none, Function.update s.sessionEnded provider false⟩

def endSession (s : SavedSignIns) (provider : OAuthProvider) (rejected : OAuthTokens) : SavedSignIns :=
  if s.load provider ≠ some rejected then s
  else { s with sessionEnded := Function.update s.sessionEnded provider true }

def clearSessionEnded (s : SavedSignIns) (provider : OAuthProvider) : SavedSignIns :=
  { s with sessionEnded := Function.update s.sessionEnded provider false }

end SavedSignIns

/-- How the token endpoint answers: tokens, a failure status, or no answer. -/
inductive TokenAnswer
  | tokens (tokens : OAuthTokens)
  | status (status : ℕ)
  | failed

/-- The tokens an answer makes of those refreshed: what it leaves out stays. -/
def refreshTokens (tokens refreshed : OAuthTokens) : OAuthTokens :=
  { refreshed with
    refreshToken := if refreshed.refreshToken = "" then tokens.refreshToken else refreshed.refreshToken
    idToken := if refreshed.idToken = "" then tokens.idToken else refreshed.idToken
    scope := tokens.scope }

/-- Why a refresh failed that the token endpoint turned down. -/
def refreshFailure (status : ℕ) : ProviderFailure :=
  let kind :=
    if status = 400 ∨ status = 401 then ProviderFailureKind.authentication
    else if failureKindForHttpStatus status = .other then .unavailable
    else failureKindForHttpStatus status
  ⟨kind, "Sign-in refresh failed", status⟩

/-! ## Threads -/

/-- Where a thread is in `validTokens`: it waits for its turn to refresh, or has it and asks the token endpoint, or has
the refreshed tokens to save, or was turned down. -/
inductive RefreshPhase
  | idle
  | waiting (provider : OAuthProvider)
  | refreshing (provider : OAuthProvider) (stored : OAuthTokens)
  | refreshed (provider : OAuthProvider) (stored refreshed : OAuthTokens)
  | turnedDown (provider : OAuthProvider) (stored : OAuthTokens) (failure : ProviderFailure)
  deriving DecidableEq

/-- The provider whose turn a thread has, and the tokens it read. -/
def RefreshPhase.underway : RefreshPhase → Option (OAuthProvider × OAuthTokens)
  | .idle | .waiting _ => none
  | .refreshing provider stored | .refreshed provider stored _ | .turnedDown provider stored _ => some (provider, stored)

/-- What happens to the sign-ins. -/
inductive SignInEntry (τ : Type*)
  | signedIn (provider : OAuthProvider) (tokens : OAuthTokens)
  | signedOut (provider : OAuthProvider)
  /-- A refresh read its tokens. -/
  | began (thread : τ) (provider : OAuthProvider) (stored : OAuthTokens)
  /-- The token endpoint took the refresh token. -/
  | spent (thread : τ) (provider : OAuthProvider) (stored refreshed : OAuthTokens)
  | saved (thread : τ) (provider : OAuthProvider) (stored refreshed : OAuthTokens)
  | returned (thread : τ) (provider : OAuthProvider) (tokens : Option OAuthTokens)
  | threw (thread : τ) (provider : OAuthProvider) (failure : ProviderFailure)
  | ended (provider : OAuthProvider) (rejected : OAuthTokens)

inductive SignInEvent (τ : Type*)
  | save (provider : OAuthProvider) (tokens : OAuthTokens)
  | signOut (provider : OAuthProvider)
  | endSession (provider : OAuthProvider) (rejected : OAuthTokens)
  | clearSessionEnded (provider : OAuthProvider)
  | validTokens (thread : τ) (provider : OAuthProvider)
  /-- A waiting thread gets its turn. -/
  | enters (thread : τ) (currentTimeMillis : ℤ)
  | answered (thread : τ) (answer : TokenAnswer)
  /-- A thread with an answer runs to its end. -/
  | finishes (thread : τ)

/-- The sign-ins, whose turn it is to refresh each provider, where each thread is, and what happened. -/
structure TokenStore (τ : Type*) where
  signIns : SavedSignIns
  refreshes : OAuthProvider → Option τ
  phase : τ → RefreshPhase
  log : List (SignInEntry τ)

namespace TokenStore

variable {τ : Type*} [DecidableEq τ]

def init : TokenStore τ := ⟨⟨fun _ => none, fun _ => false⟩, fun _ => none, fun _ => .idle, []⟩

def save (s : TokenStore τ) (provider : OAuthProvider) (tokens : OAuthTokens) : TokenStore τ :=
  { s with signIns := s.signIns.save provider tokens, log := s.log ++ [.signedIn provider tokens] }

def signOut (s : TokenStore τ) (provider : OAuthProvider) : TokenStore τ :=
  { s with signIns := s.signIns.signOut provider, log := s.log ++ [.signedOut provider] }

def endSession (s : TokenStore τ) (provider : OAuthProvider) (rejected : OAuthTokens) : TokenStore τ :=
  { s with
    signIns := s.signIns.endSession provider rejected
    log := if s.signIns.load provider ≠ some rejected then s.log else s.log ++ [.ended provider rejected] }

/-- A thread leaves `validTokens`, and gives its turn away. -/
def leaves (s : TokenStore τ) (thread : τ) (provider : OAuthProvider) (entries : List (SignInEntry τ)) : TokenStore τ :=
  { s with
    refreshes := Function.update s.refreshes provider none
    phase := Function.update s.phase thread .idle
    log := s.log ++ entries }

/-- A thread that has its turn reads the tokens, and refreshes them if they expire within a minute. -/
def enters (s : TokenStore τ) (thread : τ) (provider : OAuthProvider) (currentTimeMillis : ℤ) : TokenStore τ :=
  match s.signIns.load provider with
  | none => s.leaves thread provider [.returned thread provider none]
  | some stored =>
    if stored.expiresAtMillis - 60000 > currentTimeMillis then
      s.leaves thread provider [.returned thread provider (some stored)]
    else
      { s with
        refreshes := Function.update s.refreshes provider (some thread)
        phase := Function.update s.phase thread (.refreshing provider stored)
        log := s.log ++ [.began thread provider stored] }

def answered (s : TokenStore τ) (thread : τ) (provider : OAuthProvider) (stored : OAuthTokens) :
    TokenAnswer → TokenStore τ
  | .tokens answer =>
    let refreshed := refreshTokens stored answer
    { s with
      phase := Function.update s.phase thread (.refreshed provider stored refreshed)
      log := s.log ++ [.spent thread provider stored refreshed] }
  | .status status =>
    let failure := refreshFailure status
    if failure.kind = .authentication then
      { s with phase := Function.update s.phase thread (.turnedDown provider stored failure) }
    else s.leaves thread provider [.threw thread provider failure]
  | .failed => s.leaves thread provider []

/-- The result of a refresh is saved if the tokens it read are still kept. -/
def finishes (s : TokenStore τ) (thread : τ) (provider : OAuthProvider) (stored refreshed : OAuthTokens) :
    TokenStore τ :=
  let now := s.signIns.load provider
  if now ≠ some stored then s.leaves thread provider [.returned thread provider now]
  else
    { s with signIns := s.signIns.save provider refreshed }.leaves thread provider
      [.saved thread provider stored refreshed, .returned thread provider (some refreshed)]

def step (s : TokenStore τ) : SignInEvent τ → Option (TokenStore τ)
  | .save provider tokens => some (s.save provider tokens)
  | .signOut provider => some (s.signOut provider)
  | .endSession provider rejected => some (s.endSession provider rejected)
  | .clearSessionEnded provider => some { s with signIns := s.signIns.clearSessionEnded provider }
  | .validTokens thread provider =>
    if s.phase thread = .idle then some { s with phase := Function.update s.phase thread (.waiting provider) } else none
  | .enters thread currentTimeMillis =>
    match s.phase thread with
    | .waiting provider =>
      if s.refreshes provider = none then some (s.enters thread provider currentTimeMillis) else none
    | _ => none
  | .answered thread answer =>
    match s.phase thread with
    | .refreshing provider stored => some (s.answered thread provider stored answer)
    | _ => none
  | .finishes thread =>
    match s.phase thread with
    | .refreshed provider stored refreshed => some (s.finishes thread provider stored refreshed)
    | .turnedDown provider stored failure =>
      some ((s.endSession provider stored).leaves thread provider [.threw thread provider failure])
    | _ => none

end TokenStore

/-! ## What is kept -/

/-- What an entry writes as a provider's tokens. -/
def SignInEntry.writes {τ : Type*} (provider : OAuthProvider) : SignInEntry τ → Option (Option OAuthTokens)
  | .signedIn p tokens => if p = provider then some (some tokens) else none
  | .signedOut p => if p = provider then some none else none
  | .saved _ p _ refreshed => if p = provider then some (some refreshed) else none
  | _ => none

section Log

variable {τ : Type*} {provider : OAuthProvider} {log entries : List (SignInEntry τ)}

/-- What was written last as a provider's tokens. -/
def lastWrite (provider : OAuthProvider) (log : List (SignInEntry τ)) : Option (Option OAuthTokens) :=
  (log.filterMap (SignInEntry.writes provider)).getLast?

/-- The tokens that are kept of a provider after what happened. -/
def kept (provider : OAuthProvider) (log : List (SignInEntry τ)) : Option OAuthTokens :=
  (lastWrite provider log).getD none

theorem lastWrite_append : lastWrite provider (log ++ entries) = (lastWrite provider entries).or (lastWrite provider log) := by
  rw [lastWrite, List.filterMap_append, List.getLast?_append]
  rfl

theorem lastWrite_eq_none : lastWrite provider log = none ↔ ∀ e ∈ log, e.writes provider = none := by
  rw [lastWrite, List.getLast?_eq_none_iff, List.filterMap_eq_nil_iff]

theorem kept_append : kept provider (log ++ entries) = (lastWrite provider entries).getD (kept provider log) := by
  rw [kept, kept, lastWrite_append]
  cases lastWrite provider entries <;> rfl

theorem kept_append_of_none (h : ∀ e ∈ entries, e.writes provider = none) :
    kept provider (log ++ entries) = kept provider log := by
  rw [kept_append, lastWrite_eq_none.mpr h, Option.getD_none]

theorem mem_of_lastWrite {v : Option OAuthTokens} (h : lastWrite provider log = some v) :
    ∃ w ∈ log, w.writes provider = some v :=
  List.mem_filterMap.mp (List.mem_of_getLast? h)

/-- What is kept was written since, if anything was. -/
theorem kept_written (log : List (SignInEntry τ)) {w : SignInEntry τ} (hw : w ∈ entries) (hwrites : (w.writes provider).isSome = true) :
    ∃ w ∈ entries, w.writes provider = some (kept provider (log ++ entries)) := by
  rw [kept_append]
  cases hlast : lastWrite provider entries with
  | none =>
    rw [lastWrite_eq_none.mp hlast w hw] at hwrites
    exact absurd hwrites Bool.false_ne_true
  | some v => exact mem_of_lastWrite hlast

/-- Tokens were saved since an earlier refresh began, which stands between `earlier` and `later`. -/
def WrittenSince (provider : OAuthProvider) (tokens : OAuthTokens) (earlier : List (SignInEntry τ)) (thread : τ)
    (stored : OAuthTokens) (later : List (SignInEntry τ)) : Prop :=
  ∃ before during, earlier = before ++ .began thread provider stored :: during ∧
    ∃ w ∈ during ++ later, w.writes provider = some (some tokens)

/-- Tokens were saved since every earlier refresh that spent its refresh token began. -/
def WrittenSinceAll (provider : OAuthProvider) (tokens : OAuthTokens) (log : List (SignInEntry τ)) : Prop :=
  ∀ earlier thread stored refreshed later, log = earlier ++ .spent thread provider stored refreshed :: later →
    WrittenSince provider tokens earlier thread stored later

/-- **What happens to the sign-ins**: a refresh reads what is kept; its result is saved only if, since it read its
tokens, nothing was written or the very tokens it read were written last; what it spends was saved since each earlier
refresh that spent a token read its own; `validTokens` returns what is kept then; and a session is ended of the tokens
that are kept. -/
def Proper (before : List (SignInEntry τ)) : SignInEntry τ → Prop
  | .began _ provider stored => kept provider before = some stored
  | .saved thread provider stored _ => ∃ earlier during, before = earlier ++ .began thread provider stored :: during ∧
      ∀ v, lastWrite provider during = some v → v = some stored
  | .spent _ provider stored _ => WrittenSinceAll provider stored before
  | .returned _ provider tokens => kept provider before = tokens
  | .ended provider rejected => kept provider before = some rejected
  | _ => True

end Log

/-! ## What every run keeps -/

namespace TokenStore

variable {τ : Type*} {s : TokenStore τ}

/-- What is kept, and which sessions ended. -/
structure Books (signIns : SavedSignIns) (log : List (SignInEntry τ)) : Prop where
  load : ∀ p, signIns.load p = kept p log
  /-- A mark is of the tokens that are kept, and was made since they were written. -/
  ended : ∀ p, signIns.sessionEnded p = true → ∃ rejected, signIns.load p = some rejected ∧
    .ended p rejected ∈ since (fun e => (e.writes p).isSome) log
  proper : Each Proper log

/-- Whose turn it is, and what the refreshes under way read and spent. -/
structure Turns (refreshes : OAuthProvider → Option τ) (phase : τ → RefreshPhase) (log : List (SignInEntry τ)) :
    Prop where
  underway : ∀ t p stored, (phase t).underway = some (p, stored) →
    refreshes p = some t ∧ ∃ earlier during, log = earlier ++ .began t p stored :: during
  refreshing : ∀ t p stored, phase t = .refreshing p stored → WrittenSinceAll p stored log
  /-- Since a refresh that spent its token began, the tokens were written, or its result is still to be saved. -/
  spent : ∀ earlier t p stored refreshed later, log = earlier ++ .spent t p stored refreshed :: later →
    ∃ before during, earlier = before ++ .began t p stored :: during ∧
      ((∃ w ∈ during ++ later, (w.writes p).isSome = true) ∨ phase t = .refreshed p stored refreshed)

structure Sound (s : TokenStore τ) : Prop where
  books : Books s.signIns s.log
  turns : Turns s.refreshes s.phase s.log

/-! ### The books -/

section Books

variable {signIns : SavedSignIns} {log : List (SignInEntry τ)}

/-- What writes nothing. -/
theorem Books.append (h : Books signIns log) {e : SignInEntry τ} (hwrites : ∀ p, e.writes p = none)
    (he : Proper log e) : Books signIns (log ++ [e]) where
  load p := by
    rw [kept_append_of_none (List.forall_mem_singleton.mpr (hwrites p))]
    exact h.load p
  ended p hp := by
    obtain ⟨rejected, hload, hmem⟩ := h.ended p hp
    refine ⟨rejected, hload, ?_⟩
    rw [since_snoc, hwrites p, if_neg (show ¬(none : Option (Option OAuthTokens)).isSome = true from Bool.false_ne_true)]
    exact List.mem_append_left _ hmem
  proper := h.proper.snoc he

/-- What writes one provider's tokens, and takes its mark away. -/
theorem Books.write (h : Books signIns log) {e : SignInEntry τ} (provider : OAuthProvider)
    (tokens : Option OAuthTokens) (hwrites : ∀ p, e.writes p = if p = provider then some tokens else none)
    (he : Proper log e) :
    Books ⟨Function.update signIns.load provider tokens, Function.update signIns.sessionEnded provider false⟩
      (log ++ [e]) where
  load p := by
    rw [kept_append, lastWrite, List.filterMap_cons, List.filterMap_nil, hwrites p]
    by_cases hp : p = provider
    · subst hp
      simp
    · simp only [Function.update_of_ne hp, if_neg hp, List.getLast?_nil, Option.getD_none]
      exact h.load p
  ended p hmark := by
    by_cases hp : p = provider
    · subst hp
      simp at hmark
    · simp only [Function.update_of_ne hp] at hmark ⊢
      obtain ⟨rejected, hload, hmem⟩ := h.ended p hmark
      refine ⟨rejected, hload, ?_⟩
      rw [since_snoc, hwrites p, if_neg hp,
        if_neg (show ¬(none : Option (Option OAuthTokens)).isSome = true from Bool.false_ne_true)]
      exact List.mem_append_left _ hmem
  proper := h.proper.snoc he

theorem Books.endSession (h : Books signIns log) (provider : OAuthProvider) (rejected : OAuthTokens) :
    Books (signIns.endSession provider rejected)
      (if signIns.load provider ≠ some rejected then log else log ++ [.ended provider rejected]) := by
  rw [SavedSignIns.endSession]
  split_ifs with hload
  · exact h
  · have hkept : signIns.load provider = some rejected := not_not.mp hload
    have happend := h.append (e := .ended provider rejected) (fun _ => rfl) ((h.load provider).symm.trans hkept)
    refine ⟨happend.load, fun p hmark => ?_, happend.proper⟩
    by_cases hp : p = provider
    · subst hp
      refine ⟨rejected, hkept, ?_⟩
      rw [since_snoc]
      exact List.mem_append_right _ (List.mem_singleton_self _)
    · exact happend.ended p (by simpa only [Function.update_of_ne hp] using hmark)

theorem Books.clearSessionEnded (h : Books signIns log) (provider : OAuthProvider) :
    Books (signIns.clearSessionEnded provider) log where
  load := h.load
  ended p hmark := by
    by_cases hp : p = provider
    · subst hp
      exact absurd (Function.update_self p false signIns.sessionEnded ▸ hmark) Bool.false_ne_true
    · exact h.ended p (by simpa only [SavedSignIns.clearSessionEnded, Function.update_of_ne hp] using hmark)
  proper := h.proper

end Books

/-! ### The turns -/

section Turns

variable {refreshes : OAuthProvider → Option τ} {phase : τ → RefreshPhase} {log : List (SignInEntry τ)}

theorem WrittenSinceAll.append {p : OAuthProvider} {tokens : OAuthTokens} (h : WrittenSinceAll p tokens log)
    {entries : List (SignInEntry τ)} (hspent : ∀ t stored refreshed, .spent t p stored refreshed ∉ entries) :
    WrittenSinceAll p tokens (log ++ entries) := by
  intro earlier t stored refreshed later heq
  rcases split_of_append heq with ⟨middle, hlog, rfl⟩ | ⟨middle, -, hentries⟩
  · obtain ⟨before, during, hearlier, w, hw, hwrites⟩ := h earlier t stored refreshed middle hlog
    refine ⟨before, during, hearlier, w, ?_, hwrites⟩
    rw [← List.append_assoc]
    exact List.mem_append_left _ hw
  · refine absurd ?_ (hspent t stored refreshed)
    rw [hentries]
    exact List.mem_append_right _ List.mem_cons_self

/-- Whatever happens but that a token is spent. -/
theorem Turns.append (h : Turns refreshes phase log) (entries : List (SignInEntry τ))
    (hspent : ∀ t p stored refreshed, .spent t p stored refreshed ∉ entries) :
    Turns refreshes phase (log ++ entries) where
  underway t p stored hphase := by
    obtain ⟨hturn, earlier, during, rfl⟩ := h.underway t p stored hphase
    exact ⟨hturn, earlier, during ++ entries, by rw [List.append_assoc, List.cons_append]⟩
  refreshing t p stored hphase := WrittenSinceAll.append (h.refreshing t p stored hphase) fun t => hspent t p
  spent earlier t p stored refreshed later heq := by
    rcases split_of_append heq with ⟨middle, hlog, rfl⟩ | ⟨middle, -, hentries⟩
    · obtain ⟨before, during, hearlier, hwritten⟩ := h.spent earlier t p stored refreshed middle hlog
      refine ⟨before, during, hearlier, hwritten.imp_left fun ⟨w, hw, hwrites⟩ => ⟨w, ?_, hwrites⟩⟩
      rw [← List.append_assoc]
      exact List.mem_append_left _ hw
    · refine absurd ?_ (hspent t p stored refreshed)
      rw [hentries]
      exact List.mem_append_right _ List.mem_cons_self

variable [DecidableEq τ] {t : τ} {provider : OAuthProvider} {stored refreshed : OAuthTokens}

/-- A thread moves on without its turn, or within it; it leaves no result to be saved. -/
theorem Turns.moves (h : Turns refreshes phase log) (new : RefreshPhase)
    (hunderway : ∀ x, new.underway = some x → (phase t).underway = some x)
    (hnew : ∀ p stored, new ≠ .refreshing p stored)
    (hold : ∀ earlier p stored refreshed later, phase t = .refreshed p stored refreshed →
      log = earlier ++ .spent t p stored refreshed :: later → ∀ before during,
        earlier = before ++ .began t p stored :: during → ∃ w ∈ during ++ later, (w.writes p).isSome = true) :
    Turns refreshes (Function.update phase t new) log where
  underway t' p stored hphase := by
    by_cases ht : t' = t
    · subst ht
      rw [Function.update_self] at hphase
      exact h.underway t' p stored (hunderway _ hphase)
    · rw [Function.update_of_ne ht] at hphase
      exact h.underway t' p stored hphase
  refreshing t' p stored hphase := by
    by_cases ht : t' = t
    · subst ht
      rw [Function.update_self] at hphase
      exact absurd hphase (hnew p stored)
    · rw [Function.update_of_ne ht] at hphase
      exact h.refreshing t' p stored hphase
  spent earlier t' p stored refreshed later heq := by
    obtain ⟨before, during, hearlier, hwritten⟩ := h.spent earlier t' p stored refreshed later heq
    refine ⟨before, during, hearlier, ?_⟩
    by_cases ht : t' = t
    · subst ht
      exact .inl (hwritten.elim id fun hphase => hold earlier p stored refreshed later hphase heq before during hearlier)
    · rwa [Function.update_of_ne ht]

omit [DecidableEq τ] in
/-- A turn that no other thread has is given away. -/
theorem Turns.release (h : Turns refreshes phase log)
    (hmine : ∀ t stored, (phase t).underway ≠ some (provider, stored)) :
    Turns (Function.update refreshes provider none) phase log where
  underway t p stored hphase := by
    have hp : p ≠ provider := by
      rintro rfl
      exact hmine t stored hphase
    rw [Function.update_of_ne hp]
    exact h.underway t p stored hphase
  refreshing := h.refreshing
  spent := h.spent

theorem Turns.leaves (h : Turns refreshes phase log)
    (hmine : ∀ t' stored, (phase t').underway = some (provider, stored) → t' = t)
    (hold : ∀ earlier p stored refreshed later, phase t = .refreshed p stored refreshed →
      log = earlier ++ .spent t p stored refreshed :: later → ∀ before during,
        earlier = before ++ .began t p stored :: during → ∃ w ∈ during ++ later, (w.writes p).isSome = true)
    (entries : List (SignInEntry τ)) (hspent : ∀ t p stored refreshed, .spent t p stored refreshed ∉ entries) :
    Turns (Function.update refreshes provider none) (Function.update phase t .idle) (log ++ entries) := by
  refine ((h.moves .idle nofun nofun hold).release fun t' stored hphase => ?_).append entries hspent
  by_cases ht : t' = t
  · rw [ht, Function.update_self] at hphase
    cases hphase
  · rw [Function.update_of_ne ht] at hphase
    exact ht (hmine t' stored hphase)

/-- A refresh begins: what it read was written since every earlier refresh that spent its token began. -/
theorem Turns.begins (h : Turns refreshes phase log) (hfree : refreshes provider = none)
    (hwaits : (phase t).underway = none) (hkept : kept provider log = some stored) :
    Turns (Function.update refreshes provider (some t)) (Function.update phase t (.refreshing provider stored))
      (log ++ [.began t provider stored]) where
  underway t' p stored' hphase := by
    by_cases ht : t' = t
    · subst ht
      rw [Function.update_self] at hphase
      obtain ⟨rfl, rfl⟩ := Prod.mk.inj (Option.some.inj hphase)
      exact ⟨Function.update_self .., log, [], rfl⟩
    · rw [Function.update_of_ne ht] at hphase
      obtain ⟨hturn, earlier, during, rfl⟩ := h.underway t' p stored' hphase
      have hp : p ≠ provider := by
        rintro rfl
        rw [hfree] at hturn
        cases hturn
      refine ⟨by rwa [Function.update_of_ne hp], earlier, during ++ [.began t provider stored], ?_⟩
      rw [List.append_assoc, List.cons_append]
  refreshing t' p stored' hphase := by
    refine WrittenSinceAll.append ?_ fun _ _ _ hmem => by cases List.mem_singleton.mp hmem
    by_cases ht : t' = t
    · subst ht
      rw [Function.update_self] at hphase
      obtain ⟨rfl, rfl⟩ := RefreshPhase.refreshing.inj hphase
      intro earlier t'' old new later heq
      obtain ⟨before, during, rfl, hwritten⟩ := h.spent earlier t'' provider old new later heq
      have hafter : ∃ w ∈ during ++ later, (w.writes provider).isSome = true := by
        refine hwritten.resolve_right fun hphase => ?_
        have hturn := (h.underway t'' provider old (by rw [hphase]; rfl)).1
        rw [hfree] at hturn
        cases hturn
      obtain ⟨w, hw, hwrites⟩ := hafter
      have hlog : log = before ++ (.began t'' provider old :: during ++ .spent t'' provider old new :: later) := by
        rw [heq, List.append_assoc]
      have hmem : w ∈ (.began t'' provider old :: during ++ .spent t'' provider old new :: later) :=
        (List.mem_append.mp hw).elim (fun h => List.mem_append_left _ (List.mem_cons_of_mem _ h))
          fun h => List.mem_append_right _ (List.mem_cons_of_mem _ h)
      obtain ⟨w', hw', hwrites'⟩ := kept_written before hmem hwrites
      rw [← hlog, hkept] at hwrites'
      refine ⟨before, during, rfl, w', ?_, hwrites'⟩
      rcases List.mem_append.mp hw' with hw' | hw'
      · refine List.mem_append_left _ ((List.mem_cons.mp hw').resolve_left ?_)
        rintro rfl
        cases hwrites'
      · refine List.mem_append_right _ ((List.mem_cons.mp hw').resolve_left ?_)
        rintro rfl
        cases hwrites'
    · rw [Function.update_of_ne ht] at hphase
      exact h.refreshing t' p stored' hphase
  spent earlier t' p old new later heq := by
    obtain ⟨before, during, hearlier, hwritten⟩ :=
      (h.append [.began t provider stored] (by simp)).spent earlier t' p old new later heq
    refine ⟨before, during, hearlier, hwritten.imp_right fun hphase => ?_⟩
    have ht : t' ≠ t := by
      rintro rfl
      rw [hphase] at hwaits
      cases hwaits
    rwa [Function.update_of_ne ht]

/-- The token endpoint took the refresh token. -/
theorem Turns.spends (h : Turns refreshes phase log) (hphase : phase t = .refreshing provider stored) :
    Turns refreshes (Function.update phase t (.refreshed provider stored refreshed))
      (log ++ [.spent t provider stored refreshed]) := by
  have hunderway : (phase t).underway = some (provider, stored) := by rw [hphase]; rfl
  obtain ⟨hturn, before, during, hlog⟩ := h.underway t provider stored hunderway
  refine ⟨fun t' p stored' hphase' => ?_, fun t' p stored' hphase' => ?_, fun earlier t' p old new later heq => ?_⟩
  · have hold : (phase t').underway = some (p, stored') := by
      by_cases ht : t' = t
      · subst ht
        rw [Function.update_self] at hphase'
        exact hunderway.trans hphase'
      · rwa [Function.update_of_ne ht] at hphase'
    obtain ⟨hturn', earlier, later, rfl⟩ := h.underway t' p stored' hold
    exact ⟨hturn', earlier, later ++ [.spent t provider stored refreshed], by rw [List.append_assoc, List.cons_append]⟩
  · have ht : t' ≠ t := by
      rintro rfl
      rw [Function.update_self] at hphase'
      cases hphase'
    rw [Function.update_of_ne ht] at hphase'
    refine WrittenSinceAll.append (h.refreshing t' p stored' hphase') fun _ _ _ hmem => ?_
    -- Another thread has not the turn of this provider.
    obtain ⟨-, rfl, -⟩ := SignInEntry.spent.inj (List.mem_singleton.mp hmem)
    have hturn' := (h.underway t' p stored' (by rw [hphase']; rfl)).1
    exact ht (Option.some.inj (hturn'.symm.trans hturn))
  · rcases split_of_append heq with ⟨middle, hlog', rfl⟩ | ⟨middle, hearlier, hentries⟩
    · obtain ⟨before', during', hearlier, hwritten⟩ := h.spent earlier t' p old new middle hlog'
      refine ⟨before', during', hearlier, ?_⟩
      rcases hwritten with ⟨w, hw, hwrites⟩ | hphase'
      · exact .inl ⟨w, by rw [← List.append_assoc]; exact List.mem_append_left _ hw, hwrites⟩
      · have ht : t' ≠ t := by
          rintro rfl
          rw [hphase] at hphase'
          cases hphase'
        exact .inr (by rwa [Function.update_of_ne ht])
    · cases middle with
      | nil =>
        obtain ⟨hentry, rfl⟩ := List.cons.inj hentries
        obtain ⟨rfl, rfl, rfl, rfl⟩ := SignInEntry.spent.inj hentry
        rw [List.append_nil] at hearlier
        exact ⟨before, during, hearlier.trans hlog, .inr (Function.update_self ..)⟩
      | cons d middle =>
        exact absurd (List.cons.inj hentries).2.symm (List.append_ne_nil_of_right_ne_nil _ (List.cons_ne_nil _ _))

end Turns

/-! ### The steps -/

section Steps

variable {t : τ} {p : OAuthProvider} {stored refreshed : OAuthTokens}

theorem sound_init : Sound (init : TokenStore τ) where
  books := ⟨fun _ => rfl, fun _ h => absurd h Bool.false_ne_true, .nil⟩
  turns := by
    refine ⟨nofun, nofun, fun earlier t p stored refreshed later h => ?_⟩
    exact absurd h.symm (List.append_ne_nil_of_right_ne_nil _ (List.cons_ne_nil _ _))

theorem Sound.save (h : s.Sound) (provider : OAuthProvider) (tokens : OAuthTokens) : (s.save provider tokens).Sound where
  books := h.books.write provider (some tokens) (fun p => by rw [SignInEntry.writes]; simp only [eq_comm]) trivial
  turns := h.turns.append _ (by simp)

theorem Sound.signOut (h : s.Sound) (provider : OAuthProvider) : (s.signOut provider).Sound where
  books := h.books.write provider none (fun p => by rw [SignInEntry.writes]; simp only [eq_comm]) trivial
  turns := h.turns.append _ (by simp)

theorem Sound.endSession (h : s.Sound) (provider : OAuthProvider) (rejected : OAuthTokens) :
    (s.endSession provider rejected).Sound where
  books := h.books.endSession provider rejected
  turns := by
    rw [TokenStore.endSession]
    dsimp only
    split_ifs
    · exact h.turns
    · exact h.turns.append _ (by simp)

/-- The thread whose turn it is is the only one that has it. -/
theorem Sound.turn (h : s.Sound) (hunderway : (s.phase t).underway = some (p, stored)) {t' : τ} {stored' : OAuthTokens}
    (h' : (s.phase t').underway = some (p, stored')) : t' = t :=
  Option.some.inj ((h.turns.underway t' p stored' h').1.symm.trans (h.turns.underway t p stored hunderway).1)

variable [DecidableEq τ]

/-- A thread that has no result to save leaves. -/
theorem Sound.leaves (h : s.Sound) (hmine : ∀ t' stored, (s.phase t').underway = some (p, stored) → t' = t)
    (hold : ∀ p stored refreshed, s.phase t ≠ .refreshed p stored refreshed) {e : SignInEntry τ}
    (hwrites : ∀ p, e.writes p = none) (he : Proper s.log e) (hspent : ∀ t p stored refreshed, .spent t p stored refreshed ≠ e) :
    (s.leaves t p [e]).Sound where
  books := h.books.append hwrites he
  turns := h.turns.leaves hmine (fun _ p stored refreshed _ hphase => absurd hphase (hold p stored refreshed)) [e]
    fun t p stored refreshed hmem => hspent t p stored refreshed (List.mem_singleton.mp hmem)

theorem Sound.enters (h : s.Sound) (hphase : s.phase t = .waiting p) (hfree : s.refreshes p = none) (now : ℤ) :
    (s.enters t p now).Sound := by
  have hmine : ∀ t' stored, (s.phase t').underway = some (p, stored) → t' = t := by
    intro t' stored h'
    have hturn := (h.turns.underway t' p stored h').1
    rw [hfree] at hturn
    cases hturn
  have hold : ∀ q stored refreshed, s.phase t ≠ .refreshed q stored refreshed := by simp [hphase]
  have hkept := h.books.load p
  rw [TokenStore.enters]
  split
  · rename_i hload
    exact h.leaves hmine hold (fun _ => rfl) (hkept.symm.trans hload) nofun
  · rename_i stored hload
    split_ifs
    · exact h.leaves hmine hold (fun _ => rfl) (hkept.symm.trans hload) nofun
    · exact ⟨h.books.append (fun _ => rfl) (hkept.symm.trans hload),
        h.turns.begins hfree (by rw [hphase]; rfl) (hkept.symm.trans hload)⟩

theorem Sound.answered (h : s.Sound) (hphase : s.phase t = .refreshing p stored) (answer : TokenAnswer) :
    (s.answered t p stored answer).Sound := by
  have hunderway : (s.phase t).underway = some (p, stored) := by rw [hphase]; rfl
  have hold : ∀ q stored refreshed, s.phase t ≠ .refreshed q stored refreshed := by simp [hphase]
  have hmine : ∀ t' stored', (s.phase t').underway = some (p, stored') → t' = t := fun _ _ => h.turn hunderway
  cases answer with
  | tokens answer =>
    exact ⟨h.books.append (fun _ => rfl) (h.turns.refreshing t p stored hphase), h.turns.spends hphase⟩
  | status status =>
    rw [TokenStore.answered]
    split_ifs
    · refine ⟨h.books, h.turns.moves _ (fun x hx => hunderway.trans hx) nofun ?_⟩
      exact fun _ q stored refreshed _ hphase => absurd hphase (hold q stored refreshed)
    · exact h.leaves hmine hold (fun _ => rfl) trivial nofun
  | failed =>
    refine ⟨?_, h.turns.leaves hmine (fun _ q stored refreshed _ hphase => absurd hphase (hold q stored refreshed)) [] ?_⟩
    · change Books s.signIns (s.log ++ [])
      rw [List.append_nil]
      exact h.books
    · exact fun _ _ _ _ => List.not_mem_nil

/-- A refresh whose token was spent is saved over the tokens it read, or those were written over since. -/
theorem Sound.finishes (h : s.Sound) (hphase : s.phase t = .refreshed p stored refreshed) :
    (s.finishes t p stored refreshed).Sound := by
  have hunderway : (s.phase t).underway = some (p, stored) := by rw [hphase]; rfl
  have hmine : ∀ t' stored', (s.phase t').underway = some (p, stored') → t' = t := fun _ _ => h.turn hunderway
  obtain ⟨-, earlier, during, hlog⟩ := h.turns.underway t p stored hunderway
  have hkept := h.books.load p
  rw [TokenStore.finishes]
  split_ifs with hnow
  · refine ⟨h.books.append (fun _ => rfl) hkept.symm, h.turns.leaves hmine ?_ _ (by simp)⟩
    intro earlier' q old new later hphase' hlog' before during' hbefore
    obtain ⟨rfl, rfl, rfl⟩ := RefreshPhase.refreshed.inj (hphase.symm.trans hphase')
    -- What was read is not kept any more.
    by_contra hnone
    refine hnow (hkept.trans ?_)
    have hread : kept p before = some stored := by
      refine h.books.proper before (.began t p stored) (during' ++ .spent t p stored refreshed :: later) ?_
      rw [hlog', hbefore, List.append_assoc, List.cons_append]
    rw [hlog', hbefore, List.append_assoc, kept_append_of_none, hread]
    intro e he
    by_contra hwrites
    have hsome : (e.writes p).isSome = true := Option.isSome_iff_ne_none.mpr hwrites
    rcases List.mem_append.mp he with he | he <;> rcases List.mem_cons.mp he with rfl | he
    · cases hsome
    · exact hnone ⟨e, List.mem_append_left _ he, hsome⟩
    · cases hsome
    · exact hnone ⟨e, List.mem_append_right _ he, hsome⟩
  · have hstill : kept p s.log = some stored := hkept.symm.trans (not_not.mp hnow)
    have hsaved : Proper s.log (.saved t p stored refreshed) := by
      refine ⟨earlier, during, hlog, fun v hv => ?_⟩
      have hsplit : s.log = earlier ++ [.began t p stored] ++ during := by
        rw [hlog, List.append_assoc, List.singleton_append]
      rw [hsplit, kept_append, hv] at hstill
      exact hstill
    have hbooks := h.books.write p (some refreshed)
      (fun q => by rw [SignInEntry.writes]; simp only [eq_comm]) hsaved
    refine ⟨?_, ?_⟩
    · have := hbooks.append (e := .returned t p (some refreshed)) (fun _ => rfl) ?_
      · rwa [List.append_assoc] at this
      · exact (hbooks.load p).symm.trans (Function.update_self ..)
    · have hturns := h.turns.append [.saved t p stored refreshed, .returned t p (some refreshed)] (by simp)
      have hleaves := hturns.leaves hmine ?_ [] fun _ _ _ _ => List.not_mem_nil
      · rwa [List.append_nil] at hleaves
      · intro earlier' q old new later hphase' hlog' before during' _
        obtain ⟨rfl, rfl, rfl⟩ := RefreshPhase.refreshed.inj (hphase.symm.trans hphase')
        rcases split_of_append hlog' with ⟨middle, -, rfl⟩ | ⟨middle, -, hentries⟩
        · refine ⟨.saved t p stored refreshed, ?_, by rw [SignInEntry.writes, if_pos rfl]; rfl⟩
          exact List.mem_append_right _ (List.mem_append_right _ List.mem_cons_self)
        · have hmem : SignInEntry.spent t p stored refreshed ∈
              [.saved t p stored refreshed, .returned t p (some refreshed)] := by
            rw [hentries]
            exact List.mem_append_right _ List.mem_cons_self
          simp at hmem

theorem Sound.step {s' : TokenStore τ} (h : s.Sound) {e : SignInEvent τ} (hstep : s.step e = some s') : s'.Sound := by
  cases e with
  | save provider tokens => exact Option.some.inj hstep ▸ h.save provider tokens
  | signOut provider => exact Option.some.inj hstep ▸ h.signOut provider
  | endSession provider rejected => exact Option.some.inj hstep ▸ h.endSession provider rejected
  | clearSessionEnded provider => exact Option.some.inj hstep ▸ ⟨h.books.clearSessionEnded provider, h.turns⟩
  | validTokens thread provider =>
    obtain ⟨hidle, heq⟩ := Option.ite_none_right_eq_some.mp hstep
    obtain rfl := Option.some.inj heq
    refine ⟨h.books, h.turns.moves _ nofun nofun fun _ p stored refreshed _ hphase => ?_⟩
    rw [hidle] at hphase
    cases hphase
  | enters thread now =>
    rw [TokenStore.step] at hstep
    split at hstep
    · rename_i provider hphase
      obtain ⟨hfree, heq⟩ := Option.ite_none_right_eq_some.mp hstep
      exact Option.some.inj heq ▸ h.enters hphase hfree now
    · cases hstep
  | answered thread answer =>
    rw [TokenStore.step] at hstep
    split at hstep
    · rename_i provider stored hphase
      exact Option.some.inj hstep ▸ h.answered hphase answer
    · cases hstep
  | finishes thread =>
    rw [TokenStore.step] at hstep
    split at hstep
    · rename_i provider stored refreshed hphase
      exact Option.some.inj hstep ▸ h.finishes hphase
    · rename_i provider stored failure hphase
      have hunderway : (s.phase thread).underway = some (provider, stored) := by rw [hphase]; rfl
      refine Option.some.inj hstep ▸ (h.endSession provider stored).leaves (fun _ _ => h.turn hunderway) ?_
        (fun _ => rfl) trivial nofun
      exact fun q old new hphase' => by cases hphase.symm.trans hphase'
    · cases hstep

/-- **A refresh never undoes a sign-in**: in every run each thing that happens is as `Proper` says, what is kept was
written last, and a session is ended only while the tokens that were turned down are kept, and nothing was written
since. -/
theorem refresh_keeps_sign_ins (h : Reaches step (fun _ _ => True) init s) :
    Each Proper s.log ∧ (∀ p, s.signIns.load p = kept p s.log) ∧
      ∀ p, s.signIns.sessionEnded p = true → ∃ rejected, s.signIns.load p = some rejected ∧
        .ended p rejected ∈ since (fun e => (e.writes p).isSome) s.log := by
  have hsound : s.Sound := h.invariant sound_init fun _ _ _ _ hs hstep => hs.step hstep
  exact ⟨hsound.books.proper, hsound.books.load, hsound.books.ended⟩

/-- A sign-in during a refresh is kept. -/
theorem newer_sign_in_kept : ∃ s : TokenStore ℕ, s.log.length = 5 ∧
    s.signIns.load .claude = some ⟨"newer access", "newer refresh", "id", 0, "scope"⟩ :=
  have hruns : Reaches step (fun _ _ => True) init _ := Reaches.of_runs .start (Option.some_get
    (x := Reaches.runs step (fun _ _ => True) init [.save .claude ⟨"access", "refresh", "id", 0, "scope"⟩,
      .validTokens 0 .claude, .enters 0 0, .save .claude ⟨"newer access", "newer refresh", "id", 0, "scope"⟩,
      .answered 0 (.tokens ⟨"new access", "", "", 0, ""⟩), .finishes 0]) rfl).symm
  ⟨_, rfl, ((refresh_keeps_sign_ins hruns).2.1 .claude).trans rfl⟩

/-- Tokens are saved again while they are refreshed, and the token endpoint gives no new refresh token. -/
def keptRefreshToken : List (SignInEvent ℕ) :=
  let tokens : OAuthTokens := ⟨"access", "refresh", "id", 0, "scope"⟩
  let answer : OAuthTokens := ⟨"new access", "", "", 0, ""⟩
  [.save .claude tokens, .validTokens 0 .claude, .enters 0 0, .save .claude tokens, .answered 0 (.tokens answer),
    .finishes 0, .validTokens 0 .claude, .enters 0 0, .answered 0 (.tokens answer)]

/-- Two refreshes spend one refresh token, the first of them saved over a sign-in that it did not read. -/
theorem refresh_token_kept : ∃ s : TokenStore ℕ, Reaches step (fun _ _ => True) init s ∧
    ∃ (stored refreshed again : OAuthTokens),
      s.log = [.signedIn .claude stored, .began 0 .claude stored, .signedIn .claude stored,
        .spent 0 .claude stored refreshed, .saved 0 .claude stored refreshed, .returned 0 .claude (some refreshed),
        .began 0 .claude refreshed, .spent 0 .claude refreshed again] ∧
      stored.refreshToken = refreshed.refreshToken ∧ s.signIns.load .claude ≠ some stored :=
  ⟨(Reaches.runs step (fun _ _ => True) init keptRefreshToken).get rfl,
    Reaches.of_runs .start (Option.some_get _).symm, _, _, _, rfl, rfl, by decide⟩

end Steps

end TokenStore

end Speecher
