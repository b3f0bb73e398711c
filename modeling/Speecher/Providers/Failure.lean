import Mathlib.Tactic.Common

/-!
# Provider failures

Why a speech or refinement provider could not do its job, the phase a speech attempt failed
in, and the stage at which a session passed a provider over: the data the speech chain, the
speech stream and the dictation session all read.
-/

namespace Speecher

/-- Why a provider could not do its job, as far as the provider can tell. -/
inductive ProviderFailureKind
  | other
  | unavailable
  | authentication
  | network
  | timeout
  | server
  | rateLimited
  | invalidResult
  | cancelled
  deriving DecidableEq, Repr

/-- Where a speech provider was in an attempt when it failed. -/
inductive SpeechPhase
  | load
  | connect
  | streaming
  | finalize
  | authentication
  | protocol
  deriving DecidableEq, Repr

/-- A provider's failure and its own reason; `httpStatus` is `0` when there was none. -/
structure ProviderFailure where
  kind : ProviderFailureKind := .other
  message : String := ""
  httpStatus : Nat := 0
  deriving DecidableEq, Repr

/-- A failure of this kind sends a session on to the next provider in its chain. -/
def permitsProviderFallback : ProviderFailureKind → Bool
  | .unavailable | .authentication | .network | .timeout | .server | .rateLimited => true
  | .other | .invalidResult | .cancelled => false

/-- At which stage a provider in a session's chain did not do its part. -/
inductive Stage
  | prepare
  | languageSkipped
  | connect
  | interrupted
  deriving DecidableEq, Repr

/-- The failure of a provider passed over while the system says it is offline. -/
def noInternetFailure : ProviderFailure := ⟨.network, "No internet connection", 0⟩

end Speecher
