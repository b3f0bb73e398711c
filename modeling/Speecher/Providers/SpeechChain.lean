import Speecher.Foundations.Machine
import Speecher.Providers.Failure

/-!
# The speech chain

`SpeechChain` holds a session's speech providers, primary first, and the one the session is on.
Preparing walks forward from that one to the first that can take the audio and reports each
provider it passes over; a walk ends in a `ready` or an `exhausted` report. What takes time, the
reading of keys and the renewal of sign-ins, runs on a worker (`PreparationRunner`), one job at
a time, and the walk goes on from the job's result.

The chain is modelled as a re-entrant machine (`SpeechChain.machine`): every report it emits and
every call it makes into a transcriber is a place where the environment may call any of the
chain's own operations. An instruction that is still to run after such a call carries the local
variables of the source function it is cut from. It also carries the number of the preparation
its walk was started for, which the code never reads: it only names in the trace what each
report is about.
-/

namespace Speecher.SpeechChain

/-- What a walk reads of the settings and of the provider table. -/
structure Registry (S : Type) where
  /-- `listensForSpokenLanguage` of the settings' speech, for a provider. -/
  listensForSpokenLanguage : S → String → Bool
  spokenLanguageProblem : S → String → String
  /-- `needsInternet` of a speech provider. -/
  needsInternet : S → String → Bool
  /-- `needsInternet` of the settings' refinement provider. -/
  refinerNeedsInternet : S → Bool
  hasUnreadProviderSecrets : S → String → Bool
  isChainProviderId : String → Bool
  speechProviderLabel : String → String

/-- How a session wants its walks run. -/
structure Options where
  streamedFinalsOnly : Bool := false
  readyLater : Bool := false
  deriving DecidableEq

/-- A job on the worker: keys to read for a preparation, or a speech provider to prepare,
with the refiner's sign-in renewed alongside. A renewal asked for by `renewSignIn` is a speech
job of no preparation. -/
inductive Job
  | secrets (p : Nat)
  | speech (p : Option Nat) (speechJob refinerJob : Bool)
  deriving DecidableEq

/-- The preparation a job belongs to. -/
def Job.preparation : Job → Option Nat
  | .secrets p => some p
  | .speech p _ _ => p

/-- What the chain did, for the trace: reports name their preparation and the chain's index. -/
inductive Event
  | began
  | prepared (p index : Nat)
  | cancelled (p : Nat)
  | passedOver (p index : Nat) (providerId : String) (stage : Stage) (failure : ProviderFailure)
  | ready (p index : Nat)
  | exhausted (p index : Nat)
  deriving DecidableEq

/-- The fields of a chain, with the trace of what it did, newest first. `preparation` counts
the calls of `prepare`. -/
structure State (S : Type) where
  providerIds : List String := []
  index : Nat := 0
  options : Options := {}
  offline : Bool := false
  settings : S
  refiner : Bool := false
  refinerRefreshed : Bool := false
  renewing : Bool := false
  current : Option Job := none
  preparation : Nat := 0
  trace : List Event := []

/-- The calls whose return the chain only waits for: its signals' handlers, and the `apply` of
a job that ran. -/
inductive Call
  | passedOver
  | renewingSignIn
  | secretsResolved
  | ready
  | exhausted
  | signInRenewed
  | applySpeech
  | applyRefiner
  deriving DecidableEq

/-- The code of a chain: its operations, the worker's result, and what is left of a walk or of
a renewal at each call it makes. -/
inductive Instr (S : Type)
  | begin (primary : String) (fallbacks : List String)
  | setOptions (options : Options)
  | setReachability (offline : Bool)
  | prepare (settings : S) (refiner : Bool)
  | prepareNext (settings : S) (refiner : Bool)
  | cancel
  | renewSignIn
  | jobDone (failure : Option ProviderFailure) (settings : S)
  | call (what : Call)
  | walk (p : Nat)
  /-- The `continue` of the walk's loop. -/
  | advance (p : Nat)
  | acquire (p : Nat) (providerId : String)
  | streamsFinalText (p : Nat) (providerId : String)
  | createPrepareJob (p : Nat) (providerId : String)
  | requiresRefresh (p : Nat) (providerId : String)
  | createRefreshJob (p : Nat) (providerId : String) (speechJob speechRefreshRequired : Bool)
  /-- The walk after its `renewingSignIn` report. -/
  | prepareHere (p : Nat) (providerId : String) (speechJob refinerJob : Bool)
  | prepareTranscriber (p : Nat) (providerId : String) (refinerJob : Bool)
  /-- The worker's result once the speech job's `apply` ran. -/
  | speechApplied (p : Option Nat) (failure : Option ProviderFailure) (renewed : Bool)
  | finishPreparation (p : Option Nat) (failure : Option ProviderFailure)
  | renewalJob
  | renewalPrepare
  | startRenewal

/-- The environment's answer to a call: whether there is a transcriber, a job or a need, whether
the job shows the refresh indicator, and the failure of a transcriber's `prepare`. -/
structure Reply where
  yes : Bool := false
  showRefreshIndicator : Bool := false
  failure : Option ProviderFailure := none
  deriving DecidableEq

variable {S : Type} (r : Registry S)

def State.log (s : State S) (e : Event) : State S := { s with trace := e :: s.trace }

/-- The primary followed by its fallbacks, without unknown ids or repeats. -/
def providerChain (primary : String) (fallbacks : List String) : List String :=
  fallbacks.foldl
    (fun chain id => if id ∉ chain ∧ r.isChainProviderId id then chain ++ [id] else chain) [primary]

/-- `currentId`, empty when the index is past the last provider. -/
def State.currentId (s : State S) : String := s.providerIds.getD s.index ""

/-- `cancel`: the runner drops its job, and nothing running is a renewal any more. -/
def State.cancel (s : State S) : State S :=
  { s with current := none, renewing := false, trace := .cancelled s.preparation :: s.trace }

/-- The walk passes the current provider over and goes on with the next. -/
def passOver (p : Nat) (providerId : String) (stage : Stage) (failure : ProviderFailure)
    (s : State S) : State S × List (Instr S) :=
  (s.log (.passedOver p s.index providerId stage failure), [.call .passedOver, .advance p])

/-- The top of the walk's loop, down to its first call. -/
def walk (p : Nat) (s : State S) : State S × List (Instr S) :=
  match s.providerIds[s.index]? with
  | none => (s.log (.exhausted p s.index), [.call .exhausted])
  | some providerId =>
    if 0 < s.index ∧ r.listensForSpokenLanguage s.settings providerId = false then
      passOver p providerId .languageSkipped
        ⟨.unavailable, r.spokenLanguageProblem s.settings providerId, 0⟩ s
    else if s.offline ∧ r.needsInternet s.settings providerId then
      passOver p providerId .prepare noInternetFailure s
    else (s, [.acquire p providerId])

/-- The walk once the provider's transcriber is held and may take the audio. -/
def readSecrets (p : Nat) (providerId : String) (s : State S) : State S × List (Instr S) :=
  if r.hasUnreadProviderSecrets s.settings providerId then
    ({ s with current := some (.secrets p) }, [])
  else (s, [.createPrepareJob p providerId])

/-- The walk once the speech provider's job, if it has one, is made: the refiner's comes next
unless it renewed in this walk or is offline. -/
def refinerJobNext (p : Nat) (providerId : String) (speechJob speechRefreshRequired : Bool)
    (s : State S) : State S × List (Instr S) :=
  if s.refiner ∧ s.refinerRefreshed = false ∧ ¬(s.offline ∧ r.refinerNeedsInternet s.settings) then
    (s, [.createRefreshJob p providerId speechJob speechRefreshRequired])
  else if speechRefreshRequired then
    (s, [.call .renewingSignIn, .prepareHere p providerId speechJob false])
  else (s, [.prepareHere p providerId speechJob false])

/-- The end of a walk's iteration: what takes time goes to the worker, and a provider with
nothing to wait for is ready. -/
def startOrReady (p : Nat) (speechJob refinerJob : Bool) (s : State S) :
    State S × List (Instr S) :=
  if speechJob ∨ refinerJob ∨ s.options.readyLater then
    ({ s with current := some (.speech (some p) speechJob refinerJob) }, [])
  else (s.log (.ready p s.index), [.call .ready])

/-- `finishPreparation`, the worker's answer to a speech job. -/
def finishPreparation (p : Option Nat) (failure : Option ProviderFailure) (s : State S) :
    State S × List (Instr S) :=
  if s.renewing then ({ s with renewing := false }, [.call .signInRenewed])
  else
    match failure with
    | some failure => passOver (p.getD 0) s.currentId .prepare failure s
    | none => (s.log (.ready (p.getD 0) s.index), [.call .ready])

/-- The worker's result, back on the chain's thread: keys read (`useResolvedSecrets`), or a
speech job whose `apply`s run before `finishPreparation`. The refiner's renewal counts only once
the speech provider prepared. -/
def jobDone (failure : Option ProviderFailure) (settings : S) (s : State S) :
    State S × List (Instr S) :=
  match s.current with
  | none => (s, [])
  | some (.secrets p) =>
    let s := { s with current := none }
    match failure with
    | some failure => passOver p s.currentId .prepare failure s
    | none => ({ s with settings := settings }, [.call .secretsResolved, .walk p])
  | some (.speech p speechJob refinerJob) =>
    ({ s with current := none },
      (if speechJob then [.call .applySpeech] else []) ++
        [.speechApplied p failure (failure.isNone && refinerJob)])

/-- `prepare`: whatever runs is cancelled, and a walk starts for a preparation of its own. -/
def prepare (settings : S) (refiner : Bool) (s : State S) : State S × List (Instr S) :=
  let s := s.cancel
  let p := s.preparation + 1
  ({ s with settings := settings, refiner := refiner, preparation := p,
            trace := .prepared p s.index :: s.trace }, [.walk p])

/-- One instruction of the chain. -/
def exec (reply : Reply) : Instr S → State S → State S × List (Instr S)
  | .begin primary fallbacks, s =>
    let s := s.cancel
    ({ s with providerIds := providerChain r primary fallbacks, index := 0,
              refinerRefreshed := false, trace := .began :: s.trace }, [])
  | .setOptions options, s => ({ s with options := options }, [])
  | .setReachability offline, s => ({ s with offline := offline }, [])
  | .prepare settings refiner, s => prepare settings refiner s
  | .prepareNext settings refiner, s => prepare settings refiner { s with index := s.index + 1 }
  | .cancel, s => (s.cancel, [])
  | .renewSignIn, s => (s, [.renewalJob])
  | .jobDone failure settings, s => jobDone failure settings s
  | .call _, s => (s, [])
  | .walk p, s => walk r p s
  | .advance p, s => ({ s with index := s.index + 1 }, [.walk p])
  | .acquire p providerId, s =>
    if reply.yes = false then
      passOver p providerId .prepare
        ⟨.unavailable, "Unknown speech provider: " ++ providerId, 0⟩ s
    else if s.options.streamedFinalsOnly then (s, [.streamsFinalText p providerId])
    else readSecrets r p providerId s
  | .streamsFinalText p providerId, s =>
    if reply.yes = false then
      passOver p providerId .prepare
        ⟨.unavailable, r.speechProviderLabel providerId ++ " does not stream final text", 0⟩ s
    else readSecrets r p providerId s
  | .createPrepareJob p providerId, s =>
    if reply.yes then refinerJobNext r p providerId true reply.showRefreshIndicator s
    else (s, [.requiresRefresh p providerId])
  | .requiresRefresh p providerId, s => refinerJobNext r p providerId false reply.yes s
  | .createRefreshJob p providerId speechJob speechRefreshRequired, s =>
    if speechRefreshRequired ∨ (reply.yes ∧ reply.showRefreshIndicator) then
      (s, [.call .renewingSignIn, .prepareHere p providerId speechJob reply.yes])
    else (s, [.prepareHere p providerId speechJob reply.yes])
  | .prepareHere p providerId speechJob refinerJob, s =>
    if speechJob then startOrReady p speechJob refinerJob s
    else (s, [.prepareTranscriber p providerId refinerJob])
  | .prepareTranscriber p providerId refinerJob, s =>
    match reply.failure with
    | some failure => passOver p providerId .prepare failure s
    | none => startOrReady p false refinerJob s
  | .speechApplied p failure renewed, s =>
    if renewed then
      ({ s with refinerRefreshed := true }, [.call .applyRefiner, .finishPreparation p failure])
    else (s, [.finishPreparation p failure])
  | .finishPreparation p failure, s => finishPreparation p failure s
  | .renewalJob, s => if reply.yes then (s, [.startRenewal]) else (s, [.renewalPrepare])
  | .renewalPrepare, s => (s, [.startRenewal])
  | .startRenewal, s => ({ s with current := some (.speech none true false), renewing := true }, [])

/-- The operations a session calls. -/
def Instr.isOperation : Instr S → Bool
  | .begin .. | .setOptions .. | .setReachability .. | .prepare .. | .prepareNext .. | .cancel
  | .renewSignIn => true
  | _ => false

/-- The instructions inside which foreign code runs. -/
def Instr.yields : Instr S → Bool
  | .call _ | .acquire .. | .streamsFinalText .. | .createPrepareJob .. | .requiresRefresh ..
  | .createRefreshJob .. | .prepareTranscriber .. | .renewalJob | .renewalPrepare => true
  | _ => false

/-- The speech chain: its operations may be called wherever the environment has control, and
the worker's result arrives from the event loop. -/
def machine : Machine (State S) (Instr S) Reply where
  exec := exec r
  yields := Instr.yields
  enters _ i := i.isOperation
  wakes s i :=
    match i with
    | .jobDone .. => s.current.isSome
    | _ => false

/-- A chain before its first `begin`. -/
def IsInitial (s : State S) : Prop := ∃ settings, s = { settings := settings }

end Speecher.SpeechChain
