import Speecher.Providers.ClaudeVoiceClient
import Speecher.Providers.CodexDictationClient

/-!
# How the service streams end

What the two clients of streaming services have in common, for every order of what they are told, of what the service
sends and of what their sockets and timers report. Neither asks in `handleTextMessage` whether its attempt ended, as the
error handlers, the timers and `fail` do: a message that comes late is reported. Without such messages every attempt
ends once, and hands over what it was given in order.

* `clients_end_once`: the runs without a late message.
* `late_messages_told`: a late message ends an attempt again.

A socket that closes may still deliver messages here; Claude's failures leave theirs open.
-/

namespace Speecher

/-- **Where no message tells something after the end, the clients of the service streams are orderly**: each attempt
ends once, reports nothing after that or after it was cancelled, and hands over what it was given in order, each once and
all of it before it asks the service to finish. -/
theorem clients_end_once (fold : CaseFolding) :
    (∀ s, Reaches (Monitor.traced (ClaudeVoiceClient.step fold)) ClaudeVoiceClient.Timely ({}, []) s → Orderly s.2) ∧
      ∀ s, Reaches (Monitor.traced (CodexDictationClient.step fold)) CodexDictationClient.Timely ({}, []) s → Orderly s.2 :=
  ⟨fun _ => ClaudeVoiceClient.orderly fold, fun _ => CodexDictationClient.orderly fold⟩

/-! ## Runs -/

/-- A message of a service. -/
def serviceMessage (fields : List (String × String)) : Option Json :=
  some (.object (fields.map fun field => (field.1, .string field.2.toList)))

def claudeDictation : List ClaudeVoiceClient.Event :=
  [.start, .sendAudio [1, 2], .connected, .sendAudio [3, 4],
    .message (serviceMessage [("type", "TranscriptText"), ("data", "hel")]), .stop,
    .message (serviceMessage [("type", "TranscriptEndpoint"), ("data", "hello")]), .disconnected]

def codexDictation : List CodexDictationClient.Event :=
  [.start, .sendAudio [1, 2], .endUtterance, .connected, .message (serviceMessage [("type", "session.started")]),
    .sendAudio [3, 4], .message (serviceMessage [("type", "transcript.final"), ("utterance_id", "u1"), ("text", "hello")]),
    .stop,
    .message (some (.object [("type", .string "session.updated".toList),
      ("session", .object [("status", .string "closed".toList)])])),
    .disconnected]

theorem clients_end_once_dictation :
    (∃ s, s.2 = [.start, .give (.audio [1, 2]), .opened, .note, .send (.audio [1, 2]), .connected, .give (.audio [3, 4]),
        .send (.audio [3, 4]), .text false "hel".toList, .stop, .finish, .text true "hello".toList, .completed, .closed] ∧
      Reaches (Monitor.traced (ClaudeVoiceClient.step .ascii)) ClaudeVoiceClient.Timely ({}, []) s ∧ Orderly s.2) ∧
    ∃ s, s.2 = [.start, .give (.audio [1, 2]), .give .utteranceEnd, .opened, .note, .send (.audio [1, 2]), .send .utteranceEnd,
        .connected, .give (.audio [3, 4]), .send (.audio [3, 4]), .text true "hello".toList, .stop, .note, .finish, .completed,
        .closed] ∧
      Reaches (Monitor.traced (CodexDictationClient.step .ascii)) CodexDictationClient.Timely ({}, []) s ∧ Orderly s.2 := by
  have hclaude : Reaches (Monitor.traced (ClaudeVoiceClient.step .ascii)) ClaudeVoiceClient.Timely ({}, [])
      ((Reaches.runs (Monitor.traced (ClaudeVoiceClient.step .ascii)) ClaudeVoiceClient.Timely ({}, [])
        claudeDictation).get (by decide)) := .of_runs .start (Option.some_get _).symm
  have hcodex : Reaches (Monitor.traced (CodexDictationClient.step .ascii)) CodexDictationClient.Timely ({}, [])
      ((Reaches.runs (Monitor.traced (CodexDictationClient.step .ascii)) CodexDictationClient.Timely ({}, [])
        codexDictation).get (by decide)) := .of_runs .start (Option.some_get _).symm
  exact ⟨⟨_, by decide, hclaude, (clients_end_once .ascii).1 _ hclaude⟩,
    ⟨_, by decide, hcodex, (clients_end_once .ascii).2 _ hcodex⟩⟩

/-- **A late message is told**: the endpoint of an utterance completes an attempt of Claude's that failed while it waited
for that endpoint, since only `fail` asks whether the attempt ended. -/
theorem late_messages_told :
    ¬ ((∀ s, Reaches (Monitor.traced (ClaudeVoiceClient.step .ascii)) (fun _ _ => True) ({}, []) s → Orderly s.2) ∧
      ∀ s, Reaches (Monitor.traced (CodexDictationClient.step .ascii)) (fun _ _ => True) ({}, []) s → Orderly s.2) := by
  have hrun : Reaches (Monitor.traced (ClaudeVoiceClient.step .ascii)) (fun _ _ => True) ({}, [])
      ((Reaches.runs (Monitor.traced (ClaudeVoiceClient.step .ascii)) (fun _ _ => True) ({}, [])
        [.start, .connected, .stop, .message (serviceMessage [("type", "error"), ("error", "overloaded")]),
          .message (serviceMessage [("type", "TranscriptEndpoint"), ("data", "hello")])]).get (by decide)) :=
    .of_runs .start (Option.some_get _).symm
  exact fun h => absurd (h.1 _ hrun).endsOnce (by decide)

end Speecher
