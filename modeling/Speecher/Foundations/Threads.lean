import Mathlib.Algebra.Order.BigOperators.Group.Finset
import Mathlib.Data.Fintype.Basic
import Speecher.Foundations.Runs

/-!
# Threads over a shared state

Several parties run code of their own over one shared state, an instruction at a time and in any order. A
`Threads` says what an instruction does to the shared state and what code it leaves in its place, and what an idle
party may be called with; `Threads.next?` is one move of a run, so that `Reaches` collects the runs.

What the parties are about to do is counted: `Threads.pending p` is the number of instructions of a kind `p` in all
the code that is left. It changes by what a move consumes and leaves (`pending_run`, `pending_call`), so that an
invariant over it is arithmetic. `pending_le_one` is the rule for the calls that only one party takes: that party is
inside at most one of them.
-/

namespace Speecher

/-- Parties `τ` that run instructions `ι` over a shared state `σ`. -/
structure Threads (σ ι τ : Type*) where
  /-- The shared state after an instruction, and the code it leaves in its place. -/
  exec : ι → σ → σ × List ι
  /-- An idle party may be called so. -/
  calls : τ → σ → ι → Bool

namespace Threads

/-- The shared state, and what each party has still to run. -/
structure State (σ ι τ : Type*) where
  shared : σ
  code : τ → List ι

/-- One move: a party runs its next instruction, or an idle one is called. -/
inductive Move (ι τ : Type*)
  | run (t : τ)
  | call (t : τ) (i : ι)
  deriving DecidableEq

variable {σ ι τ : Type*} [DecidableEq τ] (m : Threads σ ι τ)

/-- The state after a move, when the move is possible. -/
def next? (c : State σ ι τ) : Move ι τ → Option (State σ ι τ)
  | .run t =>
    match c.code t with
    | [] => none
    | i :: k => some ⟨(m.exec i c.shared).1, Function.update c.code t ((m.exec i c.shared).2 ++ k)⟩
  | .call t i =>
    if (c.code t).isEmpty && m.calls t c.shared i then some ⟨c.shared, Function.update c.code t [i]⟩ else none

variable {m}

/-- The cases of a move: what ran, or who was called. -/
theorem next?_cases {c c' : State σ ι τ} {mv : Move ι τ} (h : m.next? c mv = some c') :
    (∃ t i k, mv = .run t ∧ c.code t = i :: k ∧
      c' = ⟨(m.exec i c.shared).1, Function.update c.code t ((m.exec i c.shared).2 ++ k)⟩) ∨
    (∃ t i, mv = .call t i ∧ c.code t = [] ∧ m.calls t c.shared i = true ∧
      c' = ⟨c.shared, Function.update c.code t [i]⟩) := by
  cases mv with
  | run t =>
    simp only [next?] at h
    split at h
    · cases h
    · rename_i i k hk
      exact .inl ⟨t, i, k, rfl, hk, (Option.some.inj h).symm⟩
  | call t i =>
    simp only [next?, Bool.and_eq_true, List.isEmpty_iff] at h
    split at h
    · rename_i hc
      exact .inr ⟨t, i, rfl, hc.1, hc.2, (Option.some.inj h).symm⟩
    · cases h

/-! ## What is left to run -/

section Pending

variable [Fintype τ]

/-- How many instructions of a kind the parties have still to run. -/
def pending (p : ι → Bool) (code : τ → List ι) : ℕ := ∑ t, (code t).countP p

/-- Replacing one party's code replaces its share. -/
theorem pending_update (p : ι → Bool) (code : τ → List ι) (t : τ) (new : List ι) :
    pending p (Function.update code t new) + (code t).countP p = pending p code + new.countP p := by
  have hother : ∀ u ∈ Finset.univ.erase t, (Function.update code t new u).countP p = (code u).countP p := by
    intro u hu
    rw [Function.update_of_ne (Finset.ne_of_mem_erase hu)]
  rw [pending, pending, ← Finset.add_sum_erase _ _ (Finset.mem_univ t),
    ← Finset.add_sum_erase _ (fun u => (code u).countP p) (Finset.mem_univ t), Finset.sum_congr rfl hother,
    Function.update_self]
  omega

/-- What is pending after an instruction ran. -/
theorem pending_run (p : ι → Bool) {code : τ → List ι} {t : τ} {i : ι} {k : List ι} (h : code t = i :: k)
    (new : List ι) :
    pending p (Function.update code t (new ++ k)) + (if p i then 1 else 0) = pending p code + new.countP p := by
  have hupdate := pending_update p code t (new ++ k)
  rw [h, List.countP_append, List.countP_cons] at hupdate
  omega

/-- What is pending after a party was called. -/
theorem pending_call (p : ι → Bool) {code : τ → List ι} {t : τ} (h : code t = []) (i : ι) :
    pending p (Function.update code t [i]) = pending p code + (if p i then 1 else 0) := by
  have hupdate := pending_update p code t [i]
  rw [h, List.countP_nil, List.countP_singleton] at hupdate
  omega

/-- An instruction of the kind is pending no more. -/
theorem pending_run_self {p : ι → Bool} {code : τ → List ι} {t : τ} {i : ι} {k : List ι} (hi : p i = true)
    (h : code t = i :: k) (new : List ι) :
    pending p (Function.update code t (new ++ k)) + 1 = pending p code + new.countP p := by
  simpa only [if_pos hi] using pending_run p h new

/-- An instruction of another kind adds what it leaves. -/
theorem pending_run_other {p : ι → Bool} {code : τ → List ι} {t : τ} {i : ι} {k : List ι} (hi : p i = false)
    (h : code t = i :: k) (new : List ι) :
    pending p (Function.update code t (new ++ k)) = pending p code + new.countP p := by
  simpa only [hi, Bool.false_eq_true, if_false, Nat.add_zero] using pending_run p h new

/-- What is pending after an instruction ran was pending before, or was left by it. -/
theorem pending_run_pos {p : ι → Bool} {code : τ → List ι} {t : τ} {i : ι} {k new : List ι} (h : code t = i :: k)
    (hpos : 0 < pending p (Function.update code t (new ++ k))) : 0 < pending p code ∨ 0 < new.countP p := by
  have hrun := pending_run p h new
  omega

/-- What is pending after a party was called was pending before, or is the call. -/
theorem pending_call_pos {p : ι → Bool} {code : τ → List ι} {t : τ} {i : ι} (h : code t = [])
    (hpos : 0 < pending p (Function.update code t [i])) : 0 < pending p code ∨ p i = true := by
  have hcall := pending_call p h i
  by_cases hi : p i = true
  · exact .inr hi
  · rw [if_neg hi] at hcall
    exact .inl (by omega)

/-- What is about to run is pending. -/
theorem pending_pos {p : ι → Bool} {code : τ → List ι} {t : τ} {i : ι} {k : List ι} (h : code t = i :: k)
    (hi : p i = true) : 0 < pending p code := by
  have hrun := pending_run p h []
  rw [if_pos hi] at hrun
  simp only [List.countP_nil] at hrun
  omega

omit [DecidableEq τ] in
/-- More kinds, more pending. -/
theorem pending_mono {p q : ι → Bool} (hpq : ∀ i, p i = true → q i = true) (code : τ → List ι) :
    pending p code ≤ pending q code :=
  Finset.sum_le_sum fun _ _ => List.countP_mono_left fun i _ => hpq i

omit [DecidableEq τ] in
/-- Kinds that no instruction is both of are pending one beside the other. -/
theorem pending_add_le {p q r : ι → Bool} (hp : ∀ i, p i = true → r i = true ∧ q i = false)
    (hq : ∀ i, q i = true → r i = true) (code : τ → List ι) : pending p code + pending q code ≤ pending r code := by
  have hlist : ∀ l : List ι, l.countP p + l.countP q ≤ l.countP r := by
    intro l
    induction l with
    | nil => simp
    | cons i l ih =>
      simp only [List.countP_cons]
      have := hp i
      have := hq i
      cases hpi : p i <;> cases hqi : q i <;> cases hri : r i <;> simp_all <;> omega
  rw [pending, pending, ← Finset.sum_add_distrib]
  exact Finset.sum_le_sum fun t _ => hlist (code t)

/-- **One call at a time**: calls that only one party takes, and whose instructions leave at most one in their
place, are pending at most once. -/
theorem pending_le_one {ok : State σ ι τ → Move ι τ → Prop} {init c : State σ ι τ} {p : ι → Bool} (t₀ : τ)
    (hcalls : ∀ t s i, m.calls t s i = true → p i = true → t = t₀)
    (hexec : ∀ i s, (m.exec i s).2.countP p ≤ if p i then 1 else 0) (hinit : pending p init.code = 0)
    (h : Reaches m.next? ok init c) : pending p c.code ≤ 1 := by
  have honly : (∀ t ≠ t₀, (c.code t).countP p = 0) ∧ (c.code t₀).countP p ≤ 1 := by
    refine h.invariant (P := fun c => (∀ t ≠ t₀, (c.code t).countP p = 0) ∧ (c.code t₀).countP p ≤ 1) ?_ ?_
    · have hall : ∀ t ∈ Finset.univ, (init.code t).countP p = 0 := Finset.sum_eq_zero_iff.mp hinit
      exact ⟨fun t _ => hall t (Finset.mem_univ t), (hall t₀ (Finset.mem_univ t₀)).symm ▸ Nat.zero_le 1⟩
    · rintro c mv c' - ⟨hothers, hown⟩ hnext
      obtain ⟨t, i, k, -, hcode, rfl⟩ | ⟨t, i, -, hcode, hcall, rfl⟩ := next?_cases hnext
      · have hshare : ((m.exec i c.shared).2 ++ k).countP p ≤ (c.code t).countP p := by
          have hnew := hexec i c.shared
          rw [hcode, List.countP_append, List.countP_cons]
          omega
        refine ⟨fun u hu => ?_, ?_⟩
        · obtain rfl | hne := eq_or_ne u t
          · simp only [Function.update_self]
            exact Nat.le_zero.mp (hothers u hu ▸ hshare)
          · simpa only [Function.update_of_ne hne] using hothers u hu
        · obtain rfl | hne := eq_or_ne t₀ t
          · simpa only [Function.update_self] using hshare.trans hown
          · simpa only [Function.update_of_ne hne] using hown
      · refine ⟨fun u hu => ?_, ?_⟩
        · obtain rfl | hne := eq_or_ne u t
          · simp only [Function.update_self, List.countP_singleton]
            exact if_neg fun hp => hu (hcalls u c.shared i hcall hp)
          · simpa only [Function.update_of_ne hne] using hothers u hu
        · obtain rfl | hne := eq_or_ne t₀ t
          · simp only [Function.update_self, List.countP_singleton]
            split_ifs <;> omega
          · simpa only [Function.update_of_ne hne] using hown
  rw [pending, Finset.sum_eq_single t₀ (fun t _ => honly.1 t) fun ht => absurd (Finset.mem_univ t₀) ht]
  exact honly.2

end Pending

end Threads

end Speecher
