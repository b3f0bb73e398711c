import Mathlib.Data.List.Induction
import Mathlib.Tactic.Common

/-!
# Histories

A history lists what happened, oldest first. `Each P history` says something of every entry in the light of those
before it, and grows by one entry at a time (`Each.snoc`); `since start history` is what happened after the last entry
that starts anew. `Unanswered a b history` says that `a` happened and `b`, which should follow it, did not.
-/

namespace Speecher

variable {α : Type*}

/-- Every entry of a history is as it should be after those before it. -/
def Each (P : List α → α → Prop) (history : List α) : Prop :=
  ∀ before a after, history = before ++ a :: after → P before a

namespace Each

variable {P Q : List α → α → Prop} {history : List α}

theorem nil : Each P [] := fun _ _ _ h => absurd h.symm (List.append_ne_nil_of_right_ne_nil _ (List.cons_ne_nil _ _))

theorem snoc (h : Each P history) {a : α} (ha : P history a) : Each P (history ++ [a]) := by
  intro before b after heq
  rcases List.eq_nil_or_concat after with rfl | ⟨after, c, rfl⟩
  · obtain ⟨rfl, hlast⟩ := List.append_inj' heq rfl
    rwa [← (List.cons.inj hlast).1]
  · rw [List.concat_eq_append, ← List.cons_append, ← List.append_assoc] at heq
    exact h before b after (List.append_inj' heq rfl).1

theorem append (h : Each P history) : ∀ {entries : List α},
    (∀ before a after, entries = before ++ a :: after → P (history ++ before) a) → Each P (history ++ entries) := by
  intro entries hentries before a after heq
  rcases List.append_eq_append_iff.mp heq with ⟨middle, rfl, hentry⟩ | ⟨middle, hbefore, hrest⟩
  · exact hentries middle a after hentry
  · cases middle with
    | nil => exact hentries [] a after (by simpa using hrest.symm) |> fun hP => by simpa [hbefore] using hP
    | cons b middle =>
      obtain ⟨rfl, rfl⟩ := List.cons.inj hrest
      exact h before a middle hbefore

theorem mono (h : Each P history) (hPQ : ∀ before a, P before a → Q before a) : Each Q history :=
  fun before a after heq => hPQ before a (h before a after heq)

/-- What happens only where it happened at most `k` times before happens at most `k + 1` times. -/
theorem countP_le {p : α → Bool} {k : ℕ} (h : Each (fun before a => p a = true → before.countP p ≤ k) history) :
    history.countP p ≤ k + 1 := by
  induction history using List.reverseRecOn with
  | nil => exact Nat.zero_le _
  | append_singleton before a ih =>
    have hbefore : before.countP p ≤ k + 1 := ih fun first b rest heq => h first b (rest ++ [a]) (by rw [heq]; simp)
    rw [List.countP_append, List.countP_singleton]
    split_ifs with ha
    · exact Nat.add_le_add_right (h before a [] rfl ha) 1
    · exact hbefore

/-- What happens only where it did not happen before happens at most once. -/
theorem countP_le_one {p : α → Bool} (h : Each (fun before a => p a = true → ∀ b ∈ before, p b = false) history) :
    history.countP p ≤ 1 :=
  countP_le (k := 0) <| h.mono fun _ _ hnone ha => Nat.le_zero.mpr <| List.countP_eq_zero.mpr fun b hb hp =>
    Bool.false_ne_true ((hnone ha b hb).symm.trans hp)

end Each

/-- Where an entry of a history stands that has grown. -/
theorem split_of_append {history entries before after : List α} {a : α}
    (h : history ++ entries = before ++ a :: after) :
    (∃ middle, history = before ++ a :: middle ∧ after = middle ++ entries) ∨
      ∃ middle, before = history ++ middle ∧ entries = middle ++ a :: after := by
  rcases List.append_eq_append_iff.mp h with ⟨middle, hbefore, hentries⟩ | ⟨middle, hhistory, hrest⟩
  · exact .inr ⟨middle, hbefore, hentries⟩
  · cases middle with
    | nil => exact .inr ⟨[], by rw [hhistory, List.append_nil, List.append_nil], hrest.symm⟩
    | cons b middle =>
      obtain ⟨rfl, rfl⟩ := List.cons.inj hrest
      exact .inl ⟨middle, hhistory, rfl⟩

section Since

variable (start : α → Bool)

/-- What happened after the last entry that starts anew. -/
def since (history : List α) : List α := history.foldl (fun recent a => if start a then [] else recent ++ [a]) []

theorem since_snoc (history : List α) (a : α) :
    since start (history ++ [a]) = if start a then [] else since start history ++ [a] := by
  rw [since, List.foldl_append]
  rfl

theorem since_append {entries : List α} (h : ∀ a ∈ entries, start a = false) (history : List α) :
    since start (history ++ entries) = since start history ++ entries := by
  induction entries generalizing history with
  | nil => rw [List.append_nil, List.append_nil]
  | cons a entries ih =>
    rw [List.append_cons, ih fun b hb => h b (List.mem_cons_of_mem a hb), since_snoc, h a List.mem_cons_self,
      if_neg Bool.false_ne_true, List.append_assoc, List.singleton_append]

end Since

section Unanswered

/-- An entry that another, which should follow it, does not follow. -/
def Unanswered (a b : α) (history : List α) : Prop := ∃ before after, history = before ++ a :: after ∧ b ∉ after

variable {a b : α} {history : List α}

theorem not_unanswered_nil : ¬ Unanswered a b [] := by
  rintro ⟨before, after, h, -⟩
  exact List.append_ne_nil_of_right_ne_nil _ (List.cons_ne_nil _ _) h.symm

theorem unanswered_snoc {c : α} : Unanswered a b (history ++ [c]) ↔ c = a ∨ Unanswered a b history ∧ c ≠ b := by
  constructor
  · rintro ⟨before, after, heq, hb⟩
    rcases List.eq_nil_or_concat after with rfl | ⟨after, d, rfl⟩
    · exact .inl (List.cons.inj (List.append_inj' heq rfl).2).1
    · rw [List.concat_eq_append, ← List.cons_append, ← List.append_assoc] at heq
      obtain ⟨hbefore, hd⟩ := List.append_inj' heq rfl
      obtain rfl := (List.cons.inj hd).1
      rw [List.concat_eq_append, List.mem_append, not_or, List.mem_singleton] at hb
      exact .inr ⟨⟨before, after, hbefore, hb.1⟩, Ne.symm hb.2⟩
  · rintro (rfl | ⟨⟨before, after, rfl, hb⟩, hc⟩)
    · exact ⟨history, [], rfl, List.not_mem_nil⟩
    · refine ⟨before, after ++ [c], List.append_assoc .., ?_⟩
      rw [List.mem_append, not_or, List.mem_singleton]
      exact ⟨hb, hc.symm⟩

/-- Entries of which none is in question leave what was unanswered so, and those that hold the answer do not. -/
theorem unanswered_append {entries : List α} (h : a ∉ entries) :
    Unanswered a b (history ++ entries) ↔ Unanswered a b history ∧ b ∉ entries := by
  induction entries using List.reverseRecOn with
  | nil => simp
  | append_singleton entries c ih =>
    rw [List.mem_append, not_or, List.mem_singleton] at h
    rw [← List.append_assoc, unanswered_snoc, ih h.1, List.mem_append, not_or, List.mem_singleton, and_assoc]
    exact ⟨fun hc => hc.resolve_left (Ne.symm h.2) |>.imp_right fun ⟨hb, hne⟩ => ⟨hb, Ne.symm hne⟩,
      fun ⟨hu, hb, hne⟩ => .inr ⟨hu, hb, Ne.symm hne⟩⟩

end Unanswered

end Speecher
