import Mathlib.Data.List.Basic
import Mathlib.Tactic.Common

/-!
# Streams in chunks

A converter of a stream takes it in chunks: from a state and a chunk it gives the output and the state after.
`chunked` is its output over a list of chunks, `chunkedEnd` the state they leave, and `Unchunked` the law that a
boundary between two chunks changes nothing. `Unchunked.flatten` and `Unchunked.flatten_end` carry it to every split
of a stream.
-/

namespace Speecher

variable {σ α β : Type*}

/-- The output over a list of chunks, from a state. -/
def chunked (step : σ → List α → List β × σ) : σ → List (List α) → List β
  | _, [] => []
  | s, chunk :: chunks => (step s chunk).1 ++ chunked step (step s chunk).2 chunks

/-- The state after a list of chunks. -/
def chunkedEnd (step : σ → List α → List β × σ) : σ → List (List α) → σ
  | s, [] => s
  | s, chunk :: chunks => chunkedEnd step (step s chunk).2 chunks

/-- A boundary between two chunks changes neither the output nor the state after. -/
def Unchunked (step : σ → List α → List β × σ) : Prop :=
  ∀ s a b, step s (a ++ b) = ((step s a).1 ++ (step (step s a).2 b).1, (step (step s a).2 b).2)

namespace Unchunked

variable {step : σ → List α → List β × σ}

theorem fst (h : Unchunked step) (s : σ) (a b : List α) :
    (step s (a ++ b)).1 = (step s a).1 ++ (step (step s a).2 b).1 := by rw [h]

theorem chunked_cons (h : Unchunked step) (s : σ) (chunk : List α) (chunks : List (List α)) :
    chunked step s (chunk :: chunks) = (step s (chunk :: chunks).flatten).1 := by
  induction chunks generalizing s chunk with
  | nil => simp [chunked]
  | cons next chunks ih =>
    rw [chunked, ih, ← h.fst]
    rfl

/-- **Every split of a stream gives the output of the whole stream**, where an empty chunk gives none. -/
theorem flatten (h : Unchunked step) {s : σ} (hnil : (step s []).1 = []) (chunks : List (List α)) :
    chunked step s chunks = (step s chunks.flatten).1 := by
  cases chunks with
  | nil => exact hnil.symm
  | cons chunk chunks => exact h.chunked_cons s chunk chunks

theorem snd (h : Unchunked step) (s : σ) (a b : List α) : (step s (a ++ b)).2 = (step (step s a).2 b).2 := by rw [h]

theorem chunkedEnd_cons (h : Unchunked step) (s : σ) (chunk : List α) (chunks : List (List α)) :
    chunkedEnd step s (chunk :: chunks) = (step s (chunk :: chunks).flatten).2 := by
  induction chunks generalizing s chunk with
  | nil => simp [chunkedEnd]
  | cons next chunks ih =>
    rw [chunkedEnd, ih, ← h.snd]
    rfl

/-- **Every split of a stream leaves the state that the whole stream leaves**, where an empty chunk changes none. -/
theorem flatten_end (h : Unchunked step) {s : σ} (hnil : (step s []).2 = s) (chunks : List (List α)) :
    chunkedEnd step s chunks = (step s chunks.flatten).2 := by
  cases chunks with
  | nil => exact hnil.symm
  | cons chunk chunks => exact h.chunkedEnd_cons s chunk chunks

end Unchunked

end Speecher
