import Speecher.Refinement.StreamingRefinement

/-!
# A streaming refinement ends once

Whatever the network, the timers and the listeners do, and wherever a listener starts or cancels from within a report:
nothing is reported for a start that was cancelled, that a later one replaced or that ended; a completed text is the
deltas reported since its start; and a start's request is posted twice at most, the second time only while no text was
reported (`endsOnce_of_reachable`).

The invariant (`Sound`) says of the current reply that its start may still report and that `m_accumulated` is what was
reported for it. A handler that goes on after a report compares generations, and a generation moves on with every reply
let go of, so that a parse loop of the current generation still reads the current reply (`Pending`), and a queued
completion of the current generation is that of the start which ended last.
-/

namespace Speecher.StreamingRefinement

/-! ## What is seen of a run -/

namespace Effect

/-- The start a report is made for. -/
def reportOf : Effect → Option ℕ
  | delta n _ | completed n _ | failed n _ => some n
  | _ => none

/-- The start an entry is about. -/
def startOf : Effect → Option ℕ
  | started n | delta n _ | completed n _ | failed n _ => some n
  | posted r _ => some r.start
  | cancelled => none

/-- The end of a start. -/
def ends (n : ℕ) : Effect → Bool
  | completed m _ | failed m _ => m = n
  | _ => false

/-- A request posted for a start. -/
def postsFor (n : ℕ) : Effect → Bool
  | posted r _ => r.start = n
  | _ => false

def isStart : Effect → Bool
  | started _ => true
  | _ => false

/-- The text an entry reports for a start. -/
def textFor (n : ℕ) : Effect → Text
  | delta m text => if m = n then text else []
  | _ => []

/-- The start that may report, after an entry. -/
def next (current : Option ℕ) : Effect → Option ℕ
  | started n => some n
  | cancelled => none
  | _ => current

end Effect

/-- The start that was not cancelled or replaced. -/
def current (log : List Effect) : Option ℕ := log.foldl Effect.next none

/-- The text reported for a start. -/
def textOf (n : ℕ) (log : List Effect) : Text := log.flatMap (Effect.textFor n)

/-- A start may report: it was not cancelled, replaced or ended. -/
def Live (n : ℕ) (log : List Effect) : Prop := current log = some n ∧ log.countP (Effect.ends n) = 0

/-- What a refinement keeps in every run. -/
structure EndsOnce (log : List Effect) : Prop where
  /-- Each start has a number of its own. -/
  numbered : Each (fun before e => ∀ n, e = .started n → n = before.countP Effect.isStart + 1) log
  reports : Each (fun before e => ∀ n, e.reportOf = some n → Live n before) log
  completes : Each (fun before e => ∀ n text, e = .completed n text → text = textOf n before) log
  posts : Each (fun before e => ∀ r fast, e = .posted r fast →
    before.countP (Effect.postsFor r.start) = 0 ∨
      (before.countP (Effect.postsFor r.start) = 1 ∧ textOf r.start before = [])) log

/-- At most one of completed and failed is reported for a start. -/
theorem EndsOnce.ends_le_one {log : List Effect} (h : EndsOnce log) (n : ℕ) : log.countP (Effect.ends n) ≤ 1 := by
  refine Each.countP_le_one (h.reports.mono fun before e he hends b hb => ?_)
  have hreport : e.reportOf = some n := by
    cases e <;> first | exact absurd hends Bool.false_ne_true | exact congrArg some (of_decide_eq_true hends)
  exact Bool.not_eq_true _ ▸ List.countP_eq_zero.mp (he n hreport).2 b hb

/-- A start's request is posted at most twice. -/
theorem EndsOnce.posts_le_two {log : List Effect} (h : EndsOnce log) (n : ℕ) :
    log.countP (Effect.postsFor n) ≤ 2 := by
  refine Each.countP_le (k := 1) (h.posts.mono fun before e he hpost => ?_)
  cases e with
  | posted r fast =>
    obtain rfl : r.start = n := of_decide_eq_true hpost
    rcases he r fast rfl with hnone | ⟨hone, -⟩
    · exact hnone ▸ Nat.zero_le 1
    · exact Nat.le_of_eq hone
  | _ => exact absurd hpost Bool.false_ne_true

/-! ## One entry more -/

section Log

variable {log : List Effect} {e : Effect} {n starts : ℕ} {text : Text}

theorem current_snoc : current (log ++ [e]) = e.next (current log) := by
  rw [current, List.foldl_append]
  rfl

theorem textOf_snoc : textOf n (log ++ [e]) = textOf n log ++ e.textFor n := by
  rw [textOf, List.flatMap_append, List.flatMap_singleton]
  rfl

/-- An entry that neither starts, cancels nor ends a start leaves it as it is. -/
theorem Live.snoc (h : Live n log) (hnext : e.next (some n) = some n) (hends : e.ends n = false) :
    Live n (log ++ [e]) := by
  refine ⟨?_, ?_⟩
  · rw [current_snoc, h.1, hnext]
  · rw [List.countP_append, h.2, List.countP_singleton, hends]
    rfl

/-- The log of a refinement with so many starts. -/
structure Logged (starts : ℕ) (log : List Effect) : Prop where
  once : EndsOnce log
  count : log.countP Effect.isStart = starts
  past : ∀ e ∈ log, ∀ n, e.startOf = some n → n ≤ starts
  last : ∀ n, current log = some n → n = starts

/-- An entry that is no start. -/
theorem Logged.snoc (h : Logged starts log) (hstart : e.isStart = false) (hpast : ∀ n, e.startOf = some n → n ≤ starts)
    (hreports : ∀ n, e.reportOf = some n → Live n log)
    (hcompletes : ∀ n text, e = .completed n text → text = textOf n log)
    (hposts : ∀ r fast, e = .posted r fast → log.countP (Effect.postsFor r.start) = 0 ∨
      (log.countP (Effect.postsFor r.start) = 1 ∧ textOf r.start log = [])) : Logged starts (log ++ [e]) where
  once :=
    { numbered := h.once.numbered.snoc fun n he => by rw [he] at hstart; cases hstart
      reports := h.once.reports.snoc hreports
      completes := h.once.completes.snoc hcompletes
      posts := h.once.posts.snoc hposts }
  count := by
    rw [List.countP_append, List.countP_singleton, hstart, h.count]
    rfl
  past := by
    intro f hf n hn
    rcases List.mem_append.mp hf with hf | hf
    · exact h.past f hf n hn
    · rw [List.mem_singleton.mp hf] at hn
      exact hpast n hn
  last := by
    intro n hn
    rw [current_snoc] at hn
    cases e with
    | started m => cases hstart
    | cancelled => cases hn
    | _ => exact h.last n hn

theorem Logged.delta (h : Logged starts log) (hlive : Live n log) (text : Text) :
    Logged starts (log ++ [.delta n text]) := by
  refine h.snoc rfl ?_ ?_ nofun nofun
  · rintro m ⟨⟩
    exact (h.last n hlive.1).le
  · rintro m ⟨⟩
    exact hlive

theorem Logged.failed (h : Logged starts log) (hlive : Live n log) (failure : Failure) :
    Logged starts (log ++ [.failed n failure]) := by
  refine h.snoc rfl ?_ ?_ nofun nofun
  · rintro m ⟨⟩
    exact (h.last n hlive.1).le
  · rintro m ⟨⟩
    exact hlive

theorem Logged.completed (h : Logged starts log) (hlive : Live n log) (htext : text = textOf n log) :
    Logged starts (log ++ [.completed n text]) := by
  refine h.snoc rfl ?_ ?_ ?_ nofun
  · rintro m ⟨⟩
    exact (h.last n hlive.1).le
  · rintro m ⟨⟩
    exact hlive
  · rintro m result ⟨⟩
    exact htext

theorem Logged.cancelled (h : Logged starts log) : Logged starts (log ++ [.cancelled]) :=
  h.snoc rfl nofun nofun nofun nofun

theorem Logged.posted (h : Logged starts log) {number : ℕ} {fast : Bool}
    (hposts : log.countP (Effect.postsFor starts) = 0 ∨ log.countP (Effect.postsFor starts) = 1)
    (htext : textOf starts log = []) : Logged starts (log ++ [.posted ⟨number, starts⟩ fast]) := by
  refine h.snoc rfl ?_ nofun nofun ?_
  · rintro m ⟨⟩
    exact le_rfl
  · rintro r fast ⟨⟩
    exact hposts.imp_right fun hone => ⟨hone, htext⟩

/-- Nothing of a log is about a later start. -/
theorem Logged.countP_eq_zero (h : Logged starts log) {p : Effect → Bool}
    (hp : ∀ e, p e = true → e.startOf = some (starts + 1)) : log.countP p = 0 :=
  List.countP_eq_zero.mpr fun e he hpe => absurd (h.past e he _ (hp e hpe)) (Nat.not_succ_le_self starts)

theorem Logged.textOf_eq_nil (h : Logged starts log) : textOf (starts + 1) log = [] := by
  refine List.flatMap_eq_nil_iff.mpr fun e he => ?_
  cases e with
  | delta m text => exact if_neg fun hm => absurd (hm.ge.trans (h.past _ he m rfl)) (Nat.not_succ_le_self starts)
  | _ => rfl

theorem Logged.started (h : Logged starts log) : Logged (starts + 1) (log ++ [.started (starts + 1)]) where
  once :=
    { numbered := h.once.numbered.snoc fun n hn => by cases hn; rw [h.count]
      reports := h.once.reports.snoc nofun
      completes := h.once.completes.snoc nofun
      posts := h.once.posts.snoc nofun }
  count := by
    rw [List.countP_append, h.count]
    rfl
  past := by
    intro e he n hn
    rcases List.mem_append.mp he with he | he
    · exact (h.past e he n hn).trans (Nat.le_succ starts)
    · rw [List.mem_singleton.mp he] at hn
      cases hn
      exact le_rfl
  last := by
    intro n hn
    rw [current_snoc] at hn
    cases hn
    rfl

theorem Logged.live_started (h : Logged starts log) : Live (starts + 1) (log ++ [.started (starts + 1)]) := by
  refine ⟨current_snoc, ?_⟩
  rw [List.countP_append, h.countP_eq_zero]
  · rfl
  · intro e he
    cases e <;> first | exact absurd he Bool.false_ne_true | exact congrArg some (of_decide_eq_true he)

end Log

/-! ## The invariant -/

/-- The reply may still be read, and `m_accumulated` is what was reported for its start. -/
structure Streaming (s : State) (r : Reply) : Prop where
  live : Live r.start s.log
  accumulated : s.accumulated = textOf r.start s.log
  posts : s.log.countP (Effect.postsFor r.start) = 1 ∨
    (s.log.countP (Effect.postsFor r.start) = 2 ∧ s.standardFallback = false)

/-- A queued completion of the current generation. -/
def Queued.completes (generation : ℕ) : Queued → Bool
  | abort _ => false
  | completion _ _ _ g => g = generation

/-- What holds of every state. -/
structure Sound (s : State) : Prop where
  logged : Logged s.starts s.log
  reply : ∀ r, s.reply = some r → Streaming s r
  queue : ∀ n reply result g, .completion n reply result g ∈ s.queue →
    g ≤ s.generation ∧ (g = s.generation → s.reply = none ∧ Live n s.log ∧ result = textOf n s.log)
  single : s.queue.countP (Queued.completes s.generation) ≤ 1

/-- What holds once the reply is let go of: no queued completion is current. -/
structure Idle (s : State) : Prop where
  logged : Logged s.starts s.log
  reply : s.reply = none
  queue : ∀ n reply result g, .completion n reply result g ∈ s.queue → g < s.generation

/-- What is left to run may count on, while the generation is its own. -/
def Pending (s : State) : Instr → Prop
  | .parseOn generation n =>
    generation ≤ s.generation ∧ (generation = s.generation → ∃ r, s.reply = some r ∧ r.start = n)
  | _ => True

/-- The generation moves on with every reply let go of. -/
def Onward (s s' : State) : Prop :=
  s.generation < s'.generation ∨ (s'.generation = s.generation ∧ s'.reply = s.reply)

theorem Onward.trans {s s' s'' : State} (h : Onward s s') (h' : Onward s' s'') : Onward s s'' := by
  unfold Onward at *
  rcases h with h | ⟨hgen, hreply⟩ <;> rcases h' with h' | ⟨hgen', hreply'⟩
  · exact .inl (h.trans h')
  · exact .inl (hgen' ▸ h)
  · exact .inl (hgen ▸ h')
  · exact .inr ⟨hgen'.trans hgen, hreply'.trans hreply⟩

theorem Pending.onward {s s' : State} (h : Onward s s') {i : Instr} (hi : Pending s i) : Pending s' i := by
  cases i with
  | parseOn generation n =>
    obtain ⟨hle, hreply⟩ := hi
    rcases h with hlt | ⟨hgen, hsame⟩
    · exact ⟨hle.trans hlt.le, fun heq => absurd heq (hle.trans_lt hlt).ne⟩
    · exact ⟨hgen ▸ hle, fun heq => hsame ▸ hreply (heq.trans hgen)⟩
  | _ => trivial

/-! ## Letting go and posting -/

section State

variable {s : State} {r : Reply}

theorem Idle.single (h : Idle s) : s.queue.countP (Queued.completes s.generation) = 0 := by
  refine List.countP_eq_zero.mpr fun q hq => ?_
  cases q with
  | abort => exact Bool.false_ne_true
  | completion n reply result g => exact fun hg => (h.queue n reply result g hq).ne (of_decide_eq_true hg)

theorem Idle.sound (h : Idle s) : Sound s where
  logged := h.logged
  reply := fun r hr => absurd (h.reply.symm.trans hr) (Option.some_ne_none r).symm
  queue := fun n reply result g hq =>
    ⟨(h.queue n reply result g hq).le, fun hg => absurd hg (h.queue n reply result g hq).ne⟩
  single := h.single.le.trans (Nat.zero_le 1)

theorem Sound.takeReply (h : Sound s) : Idle s.takeReply where
  logged := h.logged
  reply := rfl
  queue := fun n reply result g hq => Nat.lt_succ_of_le (h.queue n reply result g hq).1

theorem Streaming.takeReply (h : Streaming s r) : Streaming s.takeReply r := ⟨h.live, h.accumulated, h.posts⟩

/-- The open replies, the buffer, the timers and two flags are nothing to the invariant. -/
theorem Sound.congr (h : Sound s) (isOpen : List Reply) (buffer : List UInt8) (timers : List Timer)
    (parsing networkChanged : Bool) :
    Sound { s with
      isOpen := isOpen, buffer := buffer, timers := timers, parsing := parsing, networkChanged := networkChanged } :=
  ⟨h.logged, fun r hr => ⟨(h.reply r hr).live, (h.reply r hr).accumulated, (h.reply r hr).posts⟩, h.queue, h.single⟩

theorem Sound.abortReply (h : Sound s) (reply : Option Reply) : Sound (s.abortReply reply) := by
  cases reply with
  | none => exact h
  | some r => exact h.congr _ _ _ _ _

theorem Idle.abortReply (h : Idle s) (reply : Option Reply) : Idle (s.abortReply reply) := by
  cases reply with
  | none => exact h
  | some r => exact ⟨h.logged, h.reply, h.queue⟩

theorem Streaming.abortReply (h : Streaming s r) (reply : Option Reply) : Streaming (s.abortReply reply) r := by
  cases reply with
  | none => exact h
  | some r => exact ⟨h.live, h.accumulated, h.posts⟩

theorem State.abortReply_generation (reply : Option Reply) : (s.abortReply reply).generation = s.generation := by
  cases reply <;> rfl

theorem State.abortReply_log (reply : Option Reply) : (s.abortReply reply).log = s.log := by
  cases reply <;> rfl

theorem State.abortReply_reply (reply : Option Reply) : (s.abortReply reply).reply = s.reply := by
  cases reply <;> rfl

/-- A queued abort is no completion. -/
theorem Sound.queueAbort (h : Sound s) (r : Reply) : Sound { s with queue := s.queue ++ [.abort r] } where
  logged := h.logged
  reply := fun r hr => ⟨(h.reply r hr).live, (h.reply r hr).accumulated, (h.reply r hr).posts⟩
  queue := by
    intro n reply result g hq
    rcases List.mem_append.mp hq with hq | hq
    · exact h.queue n reply result g hq
    · cases List.mem_singleton.mp hq
  single := by
    rw [List.countP_append]
    exact h.single

theorem Idle.queueAbort (h : Idle s) (r : Reply) : Idle { s with queue := s.queue ++ [.abort r] } where
  logged := h.logged
  reply := h.reply
  queue := by
    intro n reply result g hq
    rcases List.mem_append.mp hq with hq | hq
    · exact h.queue n reply result g hq
    · cases List.mem_singleton.mp hq

/-- A request is posted for the current start while nothing was reported for it. -/
theorem Idle.post (h : Idle s) (hlive : Live s.starts s.log) (htext : textOf s.starts s.log = [])
    (hposts : s.log.countP (Effect.postsFor s.starts) = 0 ∨
      (s.log.countP (Effect.postsFor s.starts) = 1 ∧ s.standardFallback = false)) (fast : Bool) :
    Sound (s.post fast) where
  logged := h.logged.posted (hposts.imp_right And.left) htext
  reply := by
    rintro r ⟨⟩
    have hpost : Effect.postsFor s.starts (.posted ⟨s.posted, s.starts⟩ fast) = true := decide_eq_true rfl
    have hcount : (s.log ++ [Effect.posted ⟨s.posted, s.starts⟩ fast]).countP (Effect.postsFor s.starts) =
        s.log.countP (Effect.postsFor s.starts) + 1 := by
      rw [List.countP_append, List.countP_singleton, if_pos hpost]
    refine ⟨hlive.snoc rfl rfl, ?_, ?_⟩
    · exact (textOf_snoc.trans (by rw [htext]; rfl)).symm
    · exact hposts.imp (fun hnone => hcount.trans (by rw [hnone])) fun hone =>
        ⟨hcount.trans (by rw [hone.1]), hone.2⟩
  queue := fun n reply result g hq =>
    ⟨(h.queue n reply result g hq).le, fun hg => absurd hg (h.queue n reply result g hq).ne⟩
  single := h.single.le.trans (Nat.zero_le 1)

theorem Sound.cancel (h : Sound s) : Idle s.cancel := by
  unfold State.cancel
  have hidle : Idle { s.takeReply with standardFallback := false } := ⟨h.logged, rfl, h.takeReply.queue⟩
  cases s.reply with
  | none => exact hidle
  | some r =>
    cases s.parsing with
    | true => exact hidle.queueAbort r
    | false => exact hidle.abortReply (some r)

theorem State.cancel_generation : s.cancel.generation = s.generation + 1 := by
  unfold State.cancel
  cases s.reply with
  | none => rfl
  | some r => cases s.parsing <;> rfl

theorem Sound.start (h : Sound s) (fastTier : Text) : Sound (s.start fastTier) := by
  have hlogged := h.cancel.logged
  refine Idle.post (s := { s.cancel with
      starts := s.cancel.starts + 1, latchOnSuccess := false, fastTier := fastTier, standardFallback := _,
      log := s.cancel.log ++ [.started (s.cancel.starts + 1)] })
    ⟨hlogged.started, h.cancel.reply, h.cancel.queue⟩ hlogged.live_started ?_ (.inl ?_) _
  · exact textOf_snoc.trans (by rw [hlogged.textOf_eq_nil]; rfl)
  · rw [List.countP_append, hlogged.countP_eq_zero]
    · rfl
    · intro e he
      cases e with
      | posted r fast => exact congrArg some (of_decide_eq_true he)
      | _ => exact absurd he Bool.false_ne_true

/-- What `retryAtStandardSpeed` leaves: a request posted again, or a start that may still report its failure. -/
theorem Idle.retryAtStandardSpeed (h : Idle s) (hr : Streaming s r) (latch : Bool) :
    (s.retryAtStandardSpeed latch).1.generation = s.generation ∧
      ((s.retryAtStandardSpeed latch).2 = true → Sound (s.retryAtStandardSpeed latch).1) ∧
      ((s.retryAtStandardSpeed latch).2 = false →
        Idle (s.retryAtStandardSpeed latch).1 ∧ Live r.start (s.retryAtStandardSpeed latch).1.log) := by
  unfold State.retryAtStandardSpeed
  split_ifs with hretry
  · obtain ⟨hfallback, hempty⟩ := Bool.and_eq_true_iff.mp hretry
    have hstart : r.start = s.starts := h.logged.last _ hr.live.1
    have hone : s.log.countP (Effect.postsFor s.starts) = 1 := by
      rw [← hstart]
      rcases hr.posts with hone | ⟨-, hfalse⟩
      · exact hone
      · exact absurd (hfalse.symm.trans hfallback) Bool.false_ne_true
    refine ⟨rfl, fun _ => ?_, nofun⟩
    refine Idle.post (s := { s with standardFallback := false, latchOnSuccess := latch })
      ⟨h.logged, h.reply, h.queue⟩ (hstart ▸ hr.live) ?_ (.inr ⟨hone, rfl⟩) false
    exact hstart ▸ hr.accumulated.symm.trans (of_decide_eq_true hempty)
  · exact ⟨rfl, nofun, fun _ => ⟨⟨h.logged, h.reply, h.queue⟩, hr.live⟩⟩

/-- What `fail` starts from. -/
theorem Sound.letGo (h : Sound s) (hr : s.reply = some r) :
    Idle s.letGo ∧ Streaming s.letGo r ∧ s.letGo.generation = s.generation + 1 := by
  unfold State.letGo
  split_ifs with hparsing
  · exact ⟨h.takeReply, (h.reply r hr).takeReply, rfl⟩
  · exact ⟨h.takeReply.abortReply _, (h.reply r hr).takeReply.abortReply _, State.abortReply_generation _⟩

end State

/-! ## What an instruction leaves -/

/-- An instruction leaves a sound state, and code that counts on nothing it should not. -/
structure Leaves (s : State) (out : State × List Instr) : Prop where
  sound : Sound out.1
  onward : Onward s out.1
  code : ∀ i ∈ out.2, Pending out.1 i

section Steps

variable (p : Provider) {s : State} {r : Reply}

theorem Onward.refl (s : State) : Onward s s := .inr ⟨rfl, rfl⟩

theorem Onward.of_succ {s' : State} (h : s'.generation = s.generation + 1) : Onward s s' :=
  .inl (h ▸ Nat.lt_succ_self s.generation)

/-- A report of a failure. -/
theorem Idle.failed (h : Idle s) {n : ℕ} (hlive : Live n s.log) (failure : Failure) (fallback : Bool) :
    Sound { s with standardFallback := fallback, log := s.log ++ [.failed n failure] } :=
  Idle.sound ⟨h.logged.failed hlive failure, h.reply, h.queue⟩

theorem pending_queuedAbort (s s' : State) :
    ∀ i ∈ (if s.parsing then s.reply.toList.map Instr.queueAbort else []), Pending s' i := by
  intro i hi
  split_ifs at hi with hparsing
  · obtain ⟨r, -, rfl⟩ := List.mem_map.mp hi
    trivial
  · exact absurd hi List.not_mem_nil

/-- A failure of the current reply: it is retried, or reported. -/
theorem Sound.fail (h : Sound s) (hr : s.reply = some r) (failure : Failure) (retry : Retry) (status : ℤ) :
    Leaves s (fail r.start failure retry status s) := by
  obtain ⟨hidle, hstream, hgen⟩ := h.letGo hr
  unfold StreamingRefinement.fail
  by_cases hnever : retry = .never
  · rw [if_pos hnever, if_neg Bool.false_ne_true]
    refine ⟨hidle.failed hstream.live _ false, .of_succ hgen, fun i hi => ?_⟩
    rcases List.mem_cons.mp hi with rfl | hi
    · trivial
    · exact pending_queuedAbort s _ i hi
  · rw [if_neg hnever]
    obtain ⟨hgen', hyes, hno⟩ := hidle.retryAtStandardSpeed hstream (retry = .afterRejection)
    dsimp only
    by_cases hretried : (s.letGo.retryAtStandardSpeed (retry = .afterRejection)).2 = true
    · rw [if_pos hretried]
      exact ⟨hyes hretried, .of_succ (hgen'.trans hgen), pending_queuedAbort s _⟩
    · rw [if_neg hretried]
      obtain ⟨hidle', hlive⟩ := hno (Bool.eq_false_iff.mpr hretried)
      refine ⟨hidle'.failed hlive _ false, .of_succ (hgen'.trans hgen), fun i hi => ?_⟩
      rcases List.mem_cons.mp hi with rfl | hi
      · trivial
      · exact pending_queuedAbort s _ i hi

/-- The current reply completed: its text is queued, or it failed for want of one. -/
theorem Sound.complete (h : Sound s) (hr : s.reply = some r) (status : ℤ) :
    Leaves s (complete p r.start status s) := by
  unfold StreamingRefinement.complete
  by_cases hempty : s.accumulated = []
  · rw [if_pos hempty]
    exact h.fail hr _ _ status
  · rw [if_neg hempty]
    have hidle := h.takeReply
    have hstream := h.reply r hr
    refine ⟨⟨hidle.logged, fun r hr => (nomatch hr), ?_, ?_⟩, .of_succ rfl, fun i hi => absurd hi List.not_mem_nil⟩
    · intro n reply result g hq
      rcases List.mem_append.mp hq with hq | hq
      · have hlt := hidle.queue n reply result g hq
        exact ⟨hlt.le, fun hg => absurd hg hlt.ne⟩
      · cases List.mem_singleton.mp hq
        exact ⟨le_rfl, fun _ => ⟨rfl, hstream.live, hstream.accumulated⟩⟩
    · rw [List.countP_append]
      exact (congrArg (· + _) hidle.single).le.trans (by rw [Nat.zero_add]; exact List.countP_le_length)

/-- The current reply's text so far, with one delta more. -/
theorem Sound.delta (h : Sound s) (hr : s.reply = some r) (text : Text) :
    Sound { s with accumulated := s.accumulated ++ text, log := s.log ++ [.delta r.start text] } where
  logged := h.logged.delta (h.reply r hr).live text
  reply := by
    intro r' hr'
    obtain rfl : r = r' := Option.some.inj (hr.symm.trans hr')
    have hstream := h.reply r hr
    refine ⟨hstream.live.snoc rfl rfl, ?_, ?_⟩
    · exact (congrArg (· ++ text) hstream.accumulated).trans (by rw [textOf_snoc, Effect.textFor, if_pos rfl])
    · rw [List.countP_append]
      exact hstream.posts
  queue := fun n reply result g hq => ⟨(h.queue n reply result g hq).1, fun hg =>
    absurd (((h.queue n reply result g hq).2 hg).1.symm.trans hr) (Option.some_ne_none r).symm⟩
  single := h.single

/-- The calls queued behind the first. -/
theorem Sound.rest (h : Sound s) {q : Queued} {queue : List Queued} (hqueue : s.queue = q :: queue) :
    Sound { s with queue := queue } where
  logged := h.logged
  reply := fun r hr => ⟨(h.reply r hr).live, (h.reply r hr).accumulated, (h.reply r hr).posts⟩
  queue := fun n reply result g hq => h.queue n reply result g (hqueue ▸ List.mem_cons_of_mem q hq)
  single := ((List.sublist_cons_self q queue).countP_le).trans (hqueue ▸ h.single)

/-- What an instruction leaves from the state a first step leads to. -/
theorem Leaves.after {s' : State} {out : State × List Instr} (h : Leaves s' out) (hs : Onward s s') : Leaves s out :=
  ⟨h.sound, hs.trans h.onward, h.code⟩

/-- An instruction that leaves no code. -/
theorem Leaves.of_state {s' : State} (h : Sound s') (hs : Onward s s') : Leaves s (s', []) :=
  ⟨h, hs, fun _ hi => absurd hi List.not_mem_nil⟩

/-- The parse loop of the current reply, by induction on the frames it takes. -/
theorem Sound.parseLoop {generation n : ℕ} (h : Sound s) (hr : s.reply = some r) (hgen : generation = s.generation)
    (hn : n = r.start) (status : ℤ) : Leaves s (parseLoop p generation n status s) := by
  subst hn
  fun_induction StreamingRefinement.parseLoop p generation r.start status s with
  | case1 s hnone => exact .of_state h (.refl s)
  | case2 s frame rest htake s' event hkind ih => exact (ih (h.congr s.isOpen rest s.timers s.parsing s.networkChanged) hr hgen).after (.refl s)
  | case3 s frame rest htake s' event hkind ih => exact (ih (h.congr _ rest _ _ _) hr hgen).after (.refl s)
  | case4 s frame rest htake s' event hkind =>
    refine ⟨(h.congr s.isOpen rest (s'.startTimer .inactivity).timers s.parsing s.networkChanged).delta hr event.text, .refl s, fun i hi => ?_⟩
    obtain rfl | rfl : i = .call .delta ∨ i = .parseOn generation r.start := by simpa using hi
    · trivial
    · exact ⟨hgen.le, fun _ => ⟨r, hr, rfl⟩⟩
  | case5 s frame rest htake s' event hkind =>
    exact (Sound.complete p (h.congr s.isOpen rest s.timers s.parsing s.networkChanged) hr status).after (.refl s)
  | case6 s frame rest htake s' event hkind => exact ((h.congr s.isOpen rest s.timers s.parsing s.networkChanged).fail hr _ _ status).after (.refl s)
  | case7 s frame rest htake s' event hkind => exact ((h.congr s.isOpen rest s.timers s.parsing s.networkChanged).fail hr _ _ status).after (.refl s)

/-- The current reply finished. -/
theorem Sound.finished (h : Sound s) (r : Reply) (error : ℤ) (errorString : Text) (rest : List UInt8) (status : ℤ) :
    Leaves s (finished p r error errorString rest status s) := by
  have h' : Sound (s.abort r) := h.congr _ _ _ _ _
  unfold StreamingRefinement.finished
  by_cases hr : s.reply = some r
  · dsimp only
    rw [if_neg (not_not_intro hr)]
    obtain ⟨hgen, hyes, hno⟩ := h'.takeReply.retryAtStandardSpeed (h'.reply r hr).takeReply true
    by_cases hretried : ((s.abort r).takeReply.retryAtStandardSpeed true).2 = true
    · exact (if_pos hretried).symm ▸ .of_state (hyes hretried) (.of_succ hgen)
    · obtain ⟨hidle, hlive⟩ := hno (Bool.eq_false_iff.mpr hretried)
      refine (if_neg hretried).symm ▸ ⟨hidle.failed hlive _ _, .of_succ hgen, fun i hi => ?_⟩
      rw [List.mem_singleton.mp hi]
      trivial
  · exact (if_pos hr).symm ▸ .of_state h' (.refl s)

/-- A timer ran out. -/
theorem Sound.timeout (h : Sound s) (t : Timer) (status : ℤ) : Leaves s (timeout p t status s) := by
  have h' : Sound { s with timers := s.timers.filter (· ≠ t) } := h.congr _ _ _ _ _
  unfold StreamingRefinement.timeout
  dsimp only
  split
  · exact .of_state h' (.refl s)
  · rename_i r hr
    cases t <;> exact (h'.fail hr _ _ status).after (.refl s)

/-- A queued call was made: the completion of the current generation is the last there is. -/
theorem Sound.queued (h : Sound s) : Leaves s (queued s) := by
  unfold StreamingRefinement.queued
  cases hqueue : s.queue with
  | nil => exact .of_state h (.refl s)
  | cons q queue =>
    have hrest := h.rest hqueue
    cases q with
    | abort r => exact .of_state (hrest.congr _ _ _ _ _) (.refl s)
    | completion n reply result generation =>
      have hrest' := hrest.abortReply reply
      dsimp only
      split_ifs with hgen
      · rw [State.abortReply_generation] at hgen
        obtain ⟨-, hcurrent⟩ := h.queue n reply result generation (hqueue ▸ List.mem_cons_self)
        obtain ⟨hnone, hlive, htext⟩ := hcurrent hgen
        have hnext : queue.countP (Queued.completes s.generation) = 0 := by
          have hsingle := h.single
          have hfirst : Queued.completes s.generation (.completion n reply result generation) = true :=
            decide_eq_true hgen
          rw [hqueue, List.countP_cons_of_pos hfirst] at hsingle
          exact Nat.le_zero.mp (Nat.le_of_succ_le_succ hsingle)
        have hidle : Idle { s with queue := queue } :=
          ⟨h.logged, hnone, fun n' reply' result' g hq => lt_of_le_of_ne (hrest.queue n' reply' result' g hq).1
            fun hg => List.countP_eq_zero.mp hnext _ hq (decide_eq_true hg)⟩
        have hidle' := hidle.abortReply reply
        refine ⟨Idle.sound ⟨hidle'.logged.completed ?_ ?_, hidle'.reply, hidle'.queue⟩,
          .inr ⟨State.abortReply_generation reply, State.abortReply_reply reply⟩, fun i hi => ?_⟩
        · exact (State.abortReply_log reply).symm ▸ hlive
        · exact (State.abortReply_log reply).symm ▸ htext
        · rw [List.mem_singleton.mp hi]
          trivial
      · exact .of_state hrest' (.inr ⟨State.abortReply_generation reply, State.abortReply_reply reply⟩)

/-- What an instruction leaves, whatever is left to run below it. -/
theorem Sound.exec (h : Sound s) {i : Instr} (hi : Pending s i) (status : ℤ) : Leaves s (exec p status i s) := by
  cases i with
  | start fastTier => exact .of_state (h.start fastTier) (.of_succ State.cancel_generation)
  | cancel =>
    refine .of_state (Idle.sound ⟨?_, h.cancel.reply, h.cancel.queue⟩) (.of_succ State.cancel_generation)
    exact h.cancel.logged.cancelled
  | networkChanged => exact .of_state (h.congr _ _ _ _ _) (.refl s)
  | connected r =>
    rw [StreamingRefinement.exec]
    split_ifs
    · exact .of_state (h.congr _ _ _ _ _) (.refl s)
    · exact .of_state h (.refl s)
  | readyRead r chunk =>
    rw [StreamingRefinement.exec]
    split_ifs with hr
    · have h' : Sound { s with parsing := true, buffer := s.buffer ++ chunk } := h.congr _ _ _ _ _
      obtain ⟨hsound, honward, hcode⟩ := Sound.parseLoop p h' hr rfl rfl status
      refine ⟨hsound, honward, fun i hi => ?_⟩
      rcases List.mem_append.mp hi with hi | hi
      · exact hcode i hi
      · rw [List.mem_singleton.mp hi]
        trivial
    · exact .of_state h (.refl s)
  | finished r error errorString rest => exact h.finished p r error errorString rest status
  | timeout t => exact h.timeout p t status
  | queued => exact h.queued
  | parseOn generation n =>
    rw [StreamingRefinement.exec]
    split_ifs with hgen
    · exact .of_state h (.refl s)
    · obtain ⟨r, hr, rfl⟩ := hi.2 (not_not.mp hgen)
      exact h.parseLoop p hr (not_not.mp hgen) rfl status
  | parsed wasParsing => exact .of_state (h.congr _ _ _ _ _) (.refl s)
  | queueAbort r => exact .of_state (h.queueAbort r) (.refl s)
  | call what => exact .of_state h (.refl s)

end Steps

/-! ## Every run -/

section Runs

variable (p : Provider)

/-- The stack rule's hypotheses, for a streaming refinement. -/
theorem stackInvariant : (machine p).StackInvariant (fun _ _ => True) Sound Pending where
  state := fun status _ _ _ _ hs hi => (hs.exec p hi status).sound
  fresh := fun status _ _ _ _ hs hi => (hs.exec p hi status).code
  stable := fun status _ _ _ _ hs hi _ hj => hj.onward (hs.exec p hi status).onward
  enter := by
    intro i s _ hi
    cases i <;> trivial
  wake := fun _ _ _ hi => nomatch hi

theorem Sound.init : Sound {} where
  logged := ⟨⟨.nil, .nil, .nil, .nil⟩, rfl, nofun, nofun⟩
  reply := nofun
  queue := nofun
  single := Nat.zero_le 1

/-- **A streaming refinement ends once, with what was streamed**: in every run, whatever the network, the timers and
the listeners do. -/
theorem endsOnce_of_reachable {c : Config State Instr} (h : (machine p).Reachable (fun _ _ => True) (· = {}) c) :
    EndsOnce c.state.log ∧
      ∀ n, c.state.log.countP (Effect.ends n) ≤ 1 ∧ c.state.log.countP (Effect.postsFor n) ≤ 2 := by
  have hsound : Sound c.state := ((stackInvariant p).holds (by rintro s rfl; exact .init) h).1
  exact ⟨hsound.logged.once, fun n => ⟨hsound.logged.once.ends_le_one n, hsound.logged.once.posts_le_two n⟩⟩

end Runs

/-- A provider whose every event is a delta but that named `c`, which completes. -/
def deltas : Provider where
  provider := "P".toList
  decodeEvent := fun name data =>
    if name = [99] then { kind := .complete } else { kind := .delta, text := data.map fun b => Char.ofNat b.toNat }
  decodeError := fun _ _ => []
  connectSeconds := []

/-- The faster tier fails, and the request posted again streams `ab` and completes. -/
def retriedRun : List (Move Instr ℤ) :=
  [.enter (.start "fast".toList), .run 0, .enter (.finished ⟨0, 1⟩ 1 [] []), .run 503,
    .enter (.readyRead ⟨1, 1⟩ [100, 97, 116, 97, 58, 97, 98, 10, 10]), .run 200, .run 200, .run 200, .run 200,
    .enter (.readyRead ⟨1, 1⟩ [101, 118, 101, 110, 116, 58, 99, 13, 10, 13, 10]), .run 200, .run 200,
    .enter .queued, .run 200, .run 200]

/-- The refinement that was retried completes with the text of the second reply. -/
theorem endsOnce_retriedRun : ∃ c, (machine deltas).play ⟨{}, []⟩ retriedRun = some c ∧
    c.state.log = [.started 1, .posted ⟨0, 1⟩ true, .posted ⟨1, 1⟩ false, .delta 1 "ab".toList,
      .completed 1 "ab".toList] ∧ EndsOnce c.state.log := by
  have hlog : ((machine deltas).play ⟨{}, []⟩ retriedRun).map (·.state.log) =
      some [.started 1, .posted ⟨0, 1⟩ true, .posted ⟨1, 1⟩ false, .delta 1 "ab".toList,
        .completed 1 "ab".toList] := by
    decide +kernel
  obtain ⟨c, hc, hlog⟩ := Option.map_eq_some_iff.mp hlog
  exact ⟨c, hc, hlog, (endsOnce_of_reachable deltas (Machine.reachable_of_play rfl hc)).1⟩

end Speecher.StreamingRefinement
