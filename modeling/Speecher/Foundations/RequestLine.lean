import Mathlib.Data.List.Perm.Basic
import Mathlib.Data.List.Nodup
import Mathlib.Data.List.Count
import Mathlib.Tactic.Common

/-!
# One-place request lines

A component that carries out one request at a time, while at most one newer request waits its turn. A newer
request replaces the newest one, which is then told nothing; a request may be refused, which is told later,
in the order the refusals came; what is under way may be dropped, its owed answer then meaning nothing.

`RequestLine.Step` is what can happen to such a line, `Sound` its invariant, which accounts for every request
(`accounted`): each is the newest, refused and untold, replaced, or told, once. `InOrder` says that requests
are told in the order of their numbers; a step keeps it where nothing is told over an untold refusal.
-/

namespace Speecher

variable {ρ : Type*}

structure RequestLine (ρ : Type*) where
  /-- No answer is awaited. -/
  free : Bool
  working : Option ρ
  waiting : Option ρ
  /-- Answers still to come. -/
  owed : ℕ
  asked : List ρ
  /-- The numbers of the requests a newer one replaced. -/
  replaced : List ℕ
  /-- The requests refused, whose refusal is still to be told. -/
  refused : List ρ
  /-- The numbers of the requests told. -/
  told : List ℕ

namespace RequestLine

/-- The request asked for last, if it is under way. -/
def newest (l : RequestLine ρ) : Option ρ := l.waiting.or l.working

/-- A request is asked for, and replaces the newest. -/
def ask (number : ρ → ℕ) (l : RequestLine ρ) (r : ρ) : RequestLine ρ :=
  { l with asked := l.asked ++ [r], replaced := l.replaced ++ l.newest.toList.map number }

/-- What is under way is dropped. -/
def drop (l : RequestLine ρ) : RequestLine ρ := { l with working := none, waiting := none }

/-- A request is being carried out, none waits. -/
def start (l : RequestLine ρ) (r : ρ) : RequestLine ρ :=
  { l with free := false, working := some r, waiting := none, owed := l.owed + 1 }

/-- What can happen to a line. Where `inTurn`, nothing is told over an untold refusal. -/
inductive Step (number : ρ → ℕ) (inTurn : Prop) (l : RequestLine ρ) : RequestLine ρ → Prop
  | refuse (r : ρ) (fresh : ∀ a ∈ l.asked, number a < number r) :
      Step number inTurn l { (l.ask number r).drop with refused := l.refused ++ [r] }
  | wait (r : ρ) (fresh : ∀ a ∈ l.asked, number a < number r) (busy : l.free = false) :
      Step number inTurn l { l.ask number r with waiting := some r }
  | start (r : ρ) (fresh : ∀ a ∈ l.asked, number a < number r) (free : l.free = true) :
      Step number inTurn l ((l.ask number r).start r)
  | next (r : ρ) (free : l.free = true) (waits : l.waiting = some r) : Step number inTurn l (l.start r)
  /-- The answer owed comes, for nothing or for a request replaced meanwhile. -/
  | finish (owed : ℕ) (owes : l.owed = owed + 1) (replaced : l.working.isNone ∨ l.waiting.isSome) :
      Step number inTurn l { l with free := true, working := none, owed }
  | settle (owed : ℕ) (r : ρ) (owes : l.owed = owed + 1) (working : l.working = some r)
      (newest : l.waiting = none) (turn : inTurn → l.refused = []) :
      Step number inTurn l { l with free := true, working := none, owed, told := l.told ++ [number r] }
  | drop (r : ρ) (newest : l.newest = some r) (turn : inTurn → l.refused = []) :
      Step number inTurn l { l.drop with told := l.told ++ [number r] }
  | tell (r : ρ) (refused : List ρ) (first : l.refused = r :: refused) :
      Step number inTurn l { l with refused, told := l.told ++ [number r] }

/-- The requests that are or will be told: those told, the refusals, and the newest. -/
def answered (number : ρ → ℕ) (l : RequestLine ρ) : List ℕ :=
  l.told ++ l.refused.map number ++ l.newest.toList.map number

/-- The invariant of a line. -/
structure Sound (number : ρ → ℕ) (l : RequestLine ρ) : Prop where
  owed_eq : l.owed = if l.free then 0 else 1
  working_free : l.free = true → l.working = none
  newest_last : ∀ r, l.newest = some r → l.asked.getLast? = some r
  working_mem : ∀ r, l.working = some r → r ∈ l.asked
  refused_mem : ∀ r ∈ l.refused, r ∈ l.asked
  increasing : (l.asked.map number).Pairwise (· < ·)
  accounted : (l.asked.map number).Perm (l.replaced ++ l.answered number)

/-- Requests are told in the order of their numbers. -/
def InOrder (number : ρ → ℕ) (l : RequestLine ρ) : Prop := (l.answered number).Pairwise (· < ·)

variable {number : ρ → ℕ} {l l' : RequestLine ρ} {inTurn : Prop}

/-- Every request asked for is then accounted for. -/
theorem Sound.answered_lt (h : l.Sound number) {r : ρ} (fresh : ∀ a ∈ l.asked, number a < number r) :
    ∀ n ∈ l.answered number, n < number r := by
  intro n hn
  have hmem : n ∈ l.asked.map number := h.accounted.mem_iff.mpr (List.mem_append_right _ hn)
  obtain ⟨a, ha, rfl⟩ := List.mem_map.mp hmem
  exact fresh a ha

theorem answered_drop_append (l : RequestLine ρ) (number : ρ → ℕ) (r : ρ) :
    { (l.ask number r).drop with refused := l.refused ++ [r] }.answered number
      = l.told ++ l.refused.map number ++ [number r] := by
  simp [answered, ask, RequestLine.drop, newest]

theorem answered_wait (l : RequestLine ρ) (number : ρ → ℕ) (r : ρ) :
    ({ l.ask number r with waiting := some r } : RequestLine ρ).answered number
      = l.told ++ l.refused.map number ++ [number r] := by
  simp [answered, ask, newest]

theorem answered_start (l : RequestLine ρ) (number : ρ → ℕ) (r : ρ) :
    (l.start r).answered number = l.told ++ l.refused.map number ++ [number r] := by
  simp [answered, RequestLine.start, newest]

/-- A fresh request is accounted for in the place of the newest, which it replaces. -/
theorem Sound.accounted_ask (h : l.Sound number) (r : ρ) :
    ((l.asked ++ [r]).map number).Perm
      (l.replaced ++ l.newest.toList.map number ++ (l.told ++ l.refused.map number ++ [number r])) := by
  rw [List.map_append, List.map_singleton]
  have hperm := h.accounted.append_right [number r]
  refine hperm.trans ?_
  simp only [answered, List.append_assoc]
  refine List.Perm.append_left _ ?_
  rw [← List.append_assoc, ← List.append_assoc]
  refine (List.perm_append_comm.append_right _).trans ?_
  simp [List.append_assoc]

theorem increasing_ask (h : l.Sound number) {r : ρ} (fresh : ∀ a ∈ l.asked, number a < number r) :
    ((l.asked ++ [r]).map number).Pairwise (· < ·) := by
  rw [List.map_append, List.pairwise_append]
  refine ⟨h.increasing, by simp, ?_⟩
  intro n hn m hm
  obtain ⟨a, ha, rfl⟩ := List.mem_map.mp hn
  simp only [List.map_cons, List.map_nil, List.mem_singleton] at hm
  exact hm ▸ fresh a ha

/-- **The step rule**: whatever happens to a sound line leaves it sound. -/
theorem Sound.step (h : l.Sound number) (hstep : Step number inTurn l l') : l'.Sound number := by
  have hmem : ∀ {a r : ρ}, a ∈ l.asked → a ∈ l.asked ++ [r] := List.mem_append_left _
  cases hstep with
  | refuse r fresh =>
    refine ⟨h.owed_eq, fun _ => rfl, by simp [RequestLine.drop, newest], by simp [RequestLine.drop], ?_,
      increasing_ask h fresh, ?_⟩
    · intro a ha
      rcases List.mem_append.mp ha with ha | ha
      · exact hmem (h.refused_mem a ha)
      · exact List.mem_append_right _ ha
    · rw [answered_drop_append]
      exact h.accounted_ask r
  | wait r fresh busy =>
    refine ⟨h.owed_eq, h.working_free, ?_, fun a ha => hmem (h.working_mem a ha),
      fun a ha => hmem (h.refused_mem a ha), increasing_ask h fresh, ?_⟩
    · rintro a ⟨⟩
      simp [ask]
    · rw [answered_wait]
      exact h.accounted_ask r
  | start r fresh free =>
    refine ⟨?_, by simp [RequestLine.start], ?_, ?_, fun a ha => hmem (h.refused_mem a ha), increasing_ask h fresh, ?_⟩
    · have hnone := h.owed_eq
      rw [if_pos free] at hnone
      simp [RequestLine.start, ask, hnone]
    · rintro a ⟨⟩
      simp [RequestLine.start, ask]
    · rintro a ⟨⟩
      simp [RequestLine.start, ask]
    · rw [answered_start]
      exact h.accounted_ask r
  | next r free waits =>
    have hnew : l.newest = some r := by simp [newest, waits]
    refine ⟨?_, by simp [RequestLine.start], ?_, ?_, h.refused_mem, h.increasing, ?_⟩
    · have hnone := h.owed_eq
      rw [if_pos free] at hnone
      simp [RequestLine.start, hnone]
    · rintro a ⟨⟩
      exact h.newest_last r hnew
    · rintro a ⟨⟩
      exact List.mem_of_getLast? (h.newest_last r hnew)
    · rw [answered_start]
      have hacc := h.accounted
      simp only [answered, hnew, Option.toList_some, List.map_cons, List.map_nil] at hacc
      exact hacc
  | finish owed owes replaced =>
    have howed : owed = 0 := by
      have := h.owed_eq
      split_ifs at this <;> omega
    have hnew : l.waiting = l.newest := by
      rcases replaced with hnone | hsome
      · simp [newest, Option.isNone_iff_eq_none.mp hnone]
      · obtain ⟨r, hr⟩ := Option.isSome_iff_exists.mp hsome
        simp [newest, hr]
    refine ⟨by simp [howed], fun _ => rfl, ?_, fun _ ha => (nomatch ha), h.refused_mem, h.increasing, ?_⟩
    · intro r hr
      refine h.newest_last r ?_
      rw [← hnew]
      simpa [newest] using hr
    · have hsame : ({ l with free := true, working := none, owed } : RequestLine ρ).newest = l.newest := by
        rw [← hnew]
        exact Option.or_none
      rw [answered, hsame]
      exact h.accounted
  | settle owed r owes working newest turn =>
    have howed : owed = 0 := by
      have := h.owed_eq
      split_ifs at this <;> omega
    refine ⟨by simp [howed], fun _ => rfl, by simp [RequestLine.newest, newest], fun _ ha => (nomatch ha),
      h.refused_mem, h.increasing, ?_⟩
    refine h.accounted.trans (List.Perm.append_left _ ?_)
    simp only [answered, RequestLine.newest, newest, working, Option.none_or, Option.toList_some,
      Option.toList_none, List.map_cons, List.map_nil, List.append_nil, List.append_assoc]
    exact List.Perm.append_left _ List.perm_append_comm
  | drop r newest turn =>
    refine ⟨h.owed_eq, fun _ => rfl, by simp [RequestLine.drop, RequestLine.newest], fun _ ha => (nomatch ha),
      h.refused_mem, h.increasing, ?_⟩
    refine h.accounted.trans (List.Perm.append_left _ ?_)
    have hbefore : l.answered number = l.told ++ (l.refused.map number ++ [number r]) := by
      rw [answered, newest, List.append_assoc]
      rfl
    rw [hbefore]
    simp only [answered, RequestLine.newest, RequestLine.drop, Option.or_none, Option.toList_none, List.map_nil,
      List.append_nil, List.append_assoc]
    exact List.Perm.append_left _ List.perm_append_comm
  | tell r refused first =>
    refine ⟨h.owed_eq, h.working_free, h.newest_last, h.working_mem, ?_, h.increasing, ?_⟩
    · intro a ha
      exact h.refused_mem a (first ▸ List.mem_cons_of_mem _ ha)
    · have hacc := h.accounted
      simp only [answered, first, List.map_cons] at hacc
      simpa [answered, RequestLine.newest] using hacc

/-- **The order rule**: where nothing is told over an untold refusal, requests are told in order. -/
theorem InOrder.step (h : l.InOrder number) (hl : l.Sound number) (hturn : inTurn)
    (hstep : Step number inTurn l l') : l'.InOrder number := by
  have hfirst : (l.told ++ l.refused.map number).Pairwise (· < ·) := (List.pairwise_append.mp h).1
  have happend : ∀ r : ρ, (∀ a ∈ l.asked, number a < number r) →
      (l.told ++ l.refused.map number ++ [number r]).Pairwise (· < ·) := by
    intro r fresh
    rw [List.pairwise_append]
    refine ⟨hfirst, by simp, ?_⟩
    intro n hn m hm
    rw [List.mem_singleton] at hm
    exact hm ▸ hl.answered_lt fresh n (List.mem_append_left _ hn)
  cases hstep with
  | refuse r fresh =>
    rw [InOrder, answered_drop_append]
    exact happend r fresh
  | wait r fresh busy =>
    rw [InOrder, answered_wait]
    exact happend r fresh
  | start r fresh free =>
    rw [InOrder, answered_start]
    exact happend r fresh
  | next r free waits =>
    rw [InOrder, answered_start]
    simpa [InOrder, answered, newest, waits] using h
  | finish owed owes replaced =>
    refine List.Pairwise.sublist ?_ h
    refine List.Sublist.append_left ?_ _
    cases hw : l.waiting <;> simp [newest, hw]
  | settle owed r owes working newest turn =>
    have hnone := turn hturn
    simpa [InOrder, answered, RequestLine.newest, working, newest, hnone] using h
  | drop r newest turn =>
    have hnone := turn hturn
    rw [InOrder, answered, newest, hnone] at h
    simpa [InOrder, answered, hnone, RequestLine.drop, RequestLine.newest] using h
  | tell r refused first =>
    simpa [InOrder, answered, first, RequestLine.newest] using h

/-- Only a request asked for puts one under way. -/
theorem Step.newest_isSome (hstep : Step number inTurn l l') (hasked : l'.asked = l.asked)
    (h : l'.newest.isSome = true) : l.newest.isSome = true := by
  cases hstep with
  | refuse r | wait r | start r => simp [ask, RequestLine.start, RequestLine.drop] at hasked
  | next r free waits => simp [newest, waits]
  | finish owed owes replaced =>
    have hwaiting : l.waiting.isSome = true := by simpa [newest] using h
    simp [newest, hwaiting]
  | settle owed r owes working => simp [newest, working]
  | drop r newest => simp [newest]
  | tell r refused first => exact h

theorem InOrder.told (h : l.InOrder number) : l.told.Pairwise (· < ·) :=
  (List.pairwise_append.mp (List.pairwise_append.mp h).1).1

/-- No request is told twice, none that was replaced is, and only what was asked for is. -/
theorem Sound.nodup (h : l.Sound number) : (l.replaced ++ l.answered number).Nodup :=
  h.accounted.nodup_iff.mp (h.increasing.imp Nat.ne_of_lt)

/-- **Once nothing is under way**, every request was told once, unless a newer one replaced it. -/
theorem Sound.count_told (h : l.Sound number) (hnew : l.newest = none) (href : l.refused = []) {r : ρ}
    (hr : r ∈ l.asked) : l.told.count (number r) = if number r ∈ l.replaced then 0 else 1 := by
  have hanswered : l.answered number = l.told := by simp [answered, hnew, href]
  have hmem : number r ∈ l.replaced ++ l.told :=
    hanswered ▸ h.accounted.mem_iff.mp (List.mem_map_of_mem hr)
  have hnodup := hanswered ▸ h.nodup
  have hdisjoint := (List.nodup_append.mp hnodup).2.2
  split_ifs with hrep
  · exact List.count_eq_zero.mpr fun htold => hdisjoint _ hrep _ htold rfl
  · have htold : number r ∈ l.told := (List.mem_append.mp hmem).resolve_left hrep
    exact List.count_eq_one_of_mem (List.nodup_append.mp hnodup).2.1 htold

end RequestLine

end Speecher
