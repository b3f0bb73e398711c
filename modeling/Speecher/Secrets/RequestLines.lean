import Speecher.Foundations.RequestLine
import Speecher.Secrets.SecretStore

/-!
# The requests of one secret

`SecretStore.line` is what the store knows of a secret's requests, as a one-place `RequestLine`: the answers it
owes are the keyring's to a write and the ones posted to the event loop. Most of what the store does leaves
every line as it is (`SameLines`); what is left is a step of one of them. `exec_line` says so of all the store
does, and that nothing is told over an untold refusal while the store keeps to its turn (`InTurn`).
-/

namespace Speecher.SecretStore

/-! ## A secret's line -/

/-- The keyring's answer to a job is awaited by a write of the secret. -/
def Job.writes (secret : Secret) (job : Job) : Bool := decide (job.secret = secret ∧ job.purpose = .write)

def Job.removes (job : Job) : Bool :=
  match job.purpose with
  | .removal _ | .removalRead _ => true
  | .write | .read => false

/-- What was posted finishes a write of the secret. -/
def Task.finishes (secret : Secret) : Task → Bool
  | .finishWrite other _ => decide (other = secret)
  | .settle .. => false

/-- What was posted refuses a request of the secret. -/
def Task.refusal (secret : Secret) : Task → Option Request
  | .settle other request _ => if other = secret then some request else none
  | .finishWrite .. => none

/-- The request of the secret a report tells of. -/
def Report.tells (secret : Secret) (report : Report) : Option ℕ :=
  if report.secret = secret ∧ report.number ≠ 0 then some report.number else none

variable (store : SecretStore) (secret : Secret)

def refused : List Request := store.posted.filterMap (Task.refusal secret)

/-- The numbers reported for a secret, other than 0. -/
def told : List ℕ := store.reported.filterMap (Report.tells secret)

/-- The requests of one secret. -/
def line : RequestLine Request where
  free := decide ((store.cache secret).phase = .idle)
  working := (store.cache secret).writing
  waiting := (store.cache secret).waiting
  owed := store.jobs.countP (Job.writes secret) + store.posted.countP (Task.finishes secret)
  asked := store.asked secret
  replaced := store.replaced secret
  refused := store.refused secret
  told := store.told secret

/-- The removals, their callers and what waits for the writes are as before. -/
structure SameBooks (s s' : SecretStore) : Prop where
  removals : s'.removals = s.removals
  removalCallers : s'.removalCallers = s.removalCallers
  removalsAnswered : s'.removalsAnswered = s.removalsAnswered
  removalJobs : s'.jobs.countP Job.removes = s.jobs.countP Job.removes
  afterWrites : s'.afterWrites = s.afterWrites
  callbacks : s'.callbacks = s.callbacks
  callbacksRun : s'.callbacksRun = s.callbacksRun

/-- So are the lines of all secrets. -/
structure SameLines (s s' : SecretStore) : Prop where
  books : SameBooks s s'
  line : ∀ secret, s'.line secret = s.line secret
  phase : ∀ secret, (s'.cache secret).phase = (s.cache secret).phase
  requests : s'.requests = s.requests

variable {store secret}

theorem SameBooks.refl (s : SecretStore) : SameBooks s s := ⟨rfl, rfl, rfl, rfl, rfl, rfl, rfl⟩

theorem SameBooks.trans {s s' s'' : SecretStore} (h : SameBooks s s') (h' : SameBooks s' s'') : SameBooks s s'' where
  removals := h'.removals.trans h.removals
  removalCallers := h'.removalCallers.trans h.removalCallers
  removalsAnswered := h'.removalsAnswered.trans h.removalsAnswered
  removalJobs := h'.removalJobs.trans h.removalJobs
  afterWrites := h'.afterWrites.trans h.afterWrites
  callbacks := h'.callbacks.trans h.callbacks
  callbacksRun := h'.callbacksRun.trans h.callbacksRun

theorem SameLines.refl (s : SecretStore) : SameLines s s := ⟨.refl s, fun _ => rfl, fun _ => rfl, rfl⟩

theorem SameLines.trans {s s' s'' : SecretStore} (h : SameLines s s') (h' : SameLines s' s'') : SameLines s s'' where
  books := h.books.trans h'.books
  line x := (h'.line x).trans (h.line x)
  phase x := (h'.phase x).trans (h.phase x)
  requests := h'.requests.trans h.requests

@[simp]
theorem setState_cache_self (entry : SecretState) : (store.setState secret entry).cache secret = entry := by
  simp [setState]

theorem setState_cache_of_ne {x : Secret} (hx : x ≠ secret) (entry : SecretState) :
    (store.setState secret entry).cache x = store.cache x := by
  simp [setState, hx]

/-- Another secret's line does not change with a secret's state. -/
theorem line_setState_of_ne {x : Secret} (hx : x ≠ secret) (entry : SecretState) :
    (store.setState secret entry).line x = store.line x := by
  rw [line, line, setState_cache_of_ne hx]
  rfl

theorem line_setState (entry : SecretState) :
    (store.setState secret entry).line secret =
      { store.line secret with
        free := decide (entry.phase = .idle), working := entry.writing, waiting := entry.waiting } := by
  rw [line, setState_cache_self]
  rfl

/-- A secret's state changes, but for its requests. -/
theorem SameLines.setState {entry : SecretState} (hphase : entry.phase = (store.cache secret).phase)
    (hwriting : entry.writing = (store.cache secret).writing)
    (hwaiting : entry.waiting = (store.cache secret).waiting) : SameLines store (store.setState secret entry) where
  books := ⟨rfl, rfl, rfl, rfl, rfl, rfl, rfl⟩
  line x := by
    by_cases hx : x = secret
    · subst hx
      rw [line_setState, hphase, hwriting, hwaiting]
      rfl
    · exact line_setState_of_ne hx entry
  phase x := by
    by_cases hx : x = secret
    · subst hx
      rw [setState_cache_self, hphase]
    · rw [setState_cache_of_ne hx]
  requests := rfl

/-- Only a secret's own writes owe its line an answer. -/
theorem line_askKeyring_of_not {x : Secret} {purpose : Purpose} (h : ¬(secret = x ∧ purpose = .write))
    (request : KeyringRequest) : (store.askKeyring secret request purpose).line x = store.line x := by
  have howed : (store.askKeyring secret request purpose).jobs.countP (Job.writes x) = store.jobs.countP (Job.writes x) := by
    rw [askKeyring, List.countP_append, List.countP_singleton, Job.writes, decide_eq_false h]
    rfl
  rw [line, howed]
  rfl

/-- A sound line is owed one answer at most. -/
theorem owed_le_one (h : (store.line secret).Sound Request.number) :
    store.jobs.countP (Job.writes secret) + store.posted.countP (Task.finishes secret) ≤ 1 := by
  have howed : (store.line secret).owed ≤ 1 := by
    rw [h.owed_eq]
    split_ifs <;> omega
  exact howed

/-! ## What leaves every line alone -/

theorem sameLines_fail (store : SecretStore) (error : Text) : SameLines store (store.fail error) :=
  ⟨⟨rfl, rfl, rfl, rfl, rfl, rfl, rfl⟩, fun _ => rfl, fun _ => rfl, rfl⟩

theorem sameLines_saveFile (store : SecretStore) : SameLines store store.saveFile :=
  ⟨⟨rfl, rfl, rfl, rfl, rfl, rfl, rfl⟩, fun _ => rfl, fun _ => rfl, rfl⟩

/-- The settings file changes in memory. -/
theorem sameLines_file (store : SecretStore) (file : Secret → FileSays) : SameLines store { store with file } :=
  ⟨⟨rfl, rfl, rfl, rfl, rfl, rfl, rfl⟩, fun _ => rfl, fun _ => rfl, rfl⟩

theorem sameLines_noteCommit (store : SecretStore) (secret : Secret) (refused : Bool) :
    SameLines store (store.noteCommit secret refused) := .setState rfl rfl rfl

theorem sameLines_changedInFile (store : SecretStore) (secret : Secret) :
    SameLines store (store.changedInFile secret) := .setState rfl rfl rfl

theorem sameLines_say (store : SecretStore) (secret : Secret) (file : FileSays) :
    SameLines store (store.say secret file) := by
  unfold say
  split
  · exact .refl store
  · exact (sameLines_file store _).trans (sameLines_changedInFile _ secret)

theorem sameLines_forgetEntry (store : SecretStore) (secret : Secret) :
    SameLines store (store.forgetEntry secret) := by
  unfold forgetEntry
  dsimp only
  split
  · exact (sameLines_file store _).trans (sameLines_changedInFile _ secret)
  · exact sameLines_file store _

theorem sameLines_markDeleted (store : SecretStore) (secret : Secret) :
    SameLines store (store.markDeleted secret) :=
  (sameLines_file store _).trans (sameLines_changedInFile _ secret)

theorem sameLines_commit (store : SecretStore) (secret : Secret) (reply : Reply) :
    SameLines store (store.commit secret reply).1 := by
  unfold commit
  split_ifs
  · exact .refl store
  · exact sameLines_saveFile store
  · exact sameLines_fail store _

theorem sameLines_cacheFallback (store : SecretStore) (secret : Secret) :
    SameLines store (store.cacheFallback secret) := by
  unfold cacheFallback
  dsimp only
  split
  · exact .setState rfl rfl rfl
  · exact .refl store

theorem sameLines_finishRead (store : SecretStore) (secret : Secret) (answer : KeyringAnswer) :
    SameLines store (store.finishRead secret answer) := by
  have hread : SameLines store (store.setState secret { store.cache secret with reading := false }) :=
    .setState rfl rfl rfl
  unfold finishRead
  dsimp only
  split_ifs
  · exact hread
  · exact hread.trans (sameLines_fail _ _)
  · exact hread.trans (.setState rfl rfl rfl)

/-- A request to the keyring that is neither a write's nor a removal's. -/
theorem sameLines_askKeyring_read (store : SecretStore) (secret : Secret) (request : KeyringRequest) :
    SameLines store (store.askKeyring secret request .read) := by
  refine ⟨⟨rfl, rfl, rfl, ?_, rfl, rfl, rfl⟩, fun x => line_askKeyring_of_not (by simp) request, fun _ => rfl, rfl⟩
  simp [askKeyring, Job.removes]

theorem sameLines_startRead (store : SecretStore) (secret : Secret) : SameLines store (store.startRead secret) := by
  unfold startRead
  dsimp only
  split_ifs
  · exact .refl store
  · have hreading : SameLines store (store.setState secret { store.cache secret with reading := true }) :=
      .setState rfl rfl rfl
    exact hreading.trans (sameLines_askKeyring_read _ secret .read)

theorem sameLines_storeRequest (store : SecretStore) (secret : Secret) (request : Request)
    (answer : Option KeyringAnswer) (reply : Reply) : SameLines store (store.storeRequest secret request answer reply).1 := by
  unfold storeRequest
  split
  · exact sameLines_fail store _
  · dsimp only
    set kept := store.keptAs secret request answer reply
    have hstored : SameLines store
        ((store.fail kept.lastError).setState secret { store.cache secret with stored := kept.stored }) :=
      (sameLines_fail store kept.lastError).trans (.setState rfl rfl rfl)
    have hsaid := hstored.trans (sameLines_say _ secret (store.saysAfter secret kept))
    have hcommit := hsaid.trans (sameLines_commit _ secret reply)
    have hnoted := fun refused => hcommit.trans (sameLines_noteCommit _ secret refused)
    split_ifs
    · exact hnoted _
    · exact hcommit
    · exact (hnoted _).trans (sameLines_fail _ _)
    · exact hcommit.trans (sameLines_fail _ _)

/-! ## What steps a line -/

/-- A request is marked with its number once. -/
def Numbered (store : SecretStore) : Prop :=
  ∀ secret, ∀ request ∈ store.asked secret,
    0 < request.number ∧ request.number ≤ store.requests ∧ request.migrating = false

theorem line_post_finishWrite (store : SecretStore) (secret : Secret) (answer : Option KeyringAnswer) :
    (store.post (.finishWrite secret answer)).line secret =
      { store.line secret with owed := (store.line secret).owed + 1 } := by
  simp [line, post, refused, told, Task.finishes, Task.refusal, Nat.add_assoc]
  rfl

theorem line_post_settle (store : SecretStore) (secret : Secret) (request : Request) (refusal : Text) :
    (store.post (.settle secret request refusal)).line secret =
      { store.line secret with refused := (store.line secret).refused ++ [request] } := by
  simp [line, post, refused, told, Task.finishes, Task.refusal]
  rfl

/-- What is posted is of its secret's line. -/
theorem line_post_of_ne {x : Secret} (task : Task) (hfinishes : task.finishes x = false)
    (hrefusal : task.refusal x = none) : (store.post task).line x = store.line x := by
  simp [line, post, refused, told, hfinishes, hrefusal]
  rfl

theorem line_askKeyring (store : SecretStore) (secret : Secret) (request : KeyringRequest) :
    (store.askKeyring secret request .write).line secret =
      { store.line secret with owed := (store.line secret).owed + 1 } := by
  simp [line, askKeyring, refused, told, Job.writes, Nat.add_right_comm]
  rfl

theorem line_writeNext {request : Request} (hwaiting : (store.cache secret).waiting = some request) :
    (store.writeNext secret).line secret = (store.line secret).start request := by
  unfold writeNext
  simp only [hwaiting]
  split_ifs
  · rw [line_post_finishWrite, line_setState]
    simp [RequestLine.start]
  · rw [line_post_finishWrite, line_setState]
    simp [RequestLine.start]
  all_goals
    rw [line_askKeyring, line_setState]
    simp [RequestLine.start]

theorem line_writeNext_of_ne {x : Secret} (hx : x ≠ secret) : (store.writeNext secret).line x = store.line x := by
  unfold writeNext
  dsimp only
  split
  · exact line_setState_of_ne hx _
  · split_ifs
    · rw [line_post_of_ne _ (by simp [Task.finishes, hx.symm]) rfl, line_setState_of_ne hx]
    · rw [line_post_of_ne _ (by simp [Task.finishes, hx.symm]) rfl, line_setState_of_ne hx]
    all_goals rw [line_askKeyring_of_not fun h => hx h.1.symm, line_setState_of_ne hx]

theorem line_note (store : SecretStore) (secret : Secret) (request : Request) :
    (store.note secret request).line secret = (store.line secret).ask Request.number request := by
  simp [line, note, refused, told, RequestLine.ask, RequestLine.newest, SecretState.newest]
  rfl

theorem line_note_of_ne {x : Secret} (hx : x ≠ secret) (request : Request) :
    (store.note secret request).line x = store.line x := by
  simp [line, note, refused, told, hx]
  rfl

theorem line_await (store : SecretStore) (secret : Secret) (request : Request) :
    (store.await secret request).line secret =
      if (store.line secret).free then (store.line secret).start request
      else { store.line secret with waiting := some request } := by
  unfold await
  dsimp only
  simp only [setState_cache_self]
  by_cases hphase : (store.cache secret).phase = .idle
  · have hfree : (store.line secret).free = true := decide_eq_true hphase
    have hwaiting : ((store.setState secret { store.cache secret with waiting := some request }).cache secret).waiting
        = some request := by rw [setState_cache_self]
    rw [if_pos hphase, if_pos hfree, line_writeNext hwaiting, line_setState]
    simp [RequestLine.start, line]
  · have hfree : (store.line secret).free = false := decide_eq_false hphase
    rw [if_neg hphase, hfree, line_setState]
    simp [line, hphase]

theorem line_await_of_ne {x : Secret} (hx : x ≠ secret) (request : Request) :
    (store.await secret request).line x = store.line x := by
  unfold await
  dsimp only
  split_ifs
  · rw [line_writeNext_of_ne hx, line_setState_of_ne hx]
  · exact line_setState_of_ne hx _

theorem line_drop (store : SecretStore) (secret : Secret) :
    (store.setState secret (store.cache secret).drop).line secret = (store.line secret).drop := by
  rw [line_setState]
  have hfree : decide ((store.cache secret).drop.phase = .idle) = (store.line secret).free := by
    simp only [SecretState.drop, line]
    split_ifs with hphase
    · simp [hphase]
    · rfl
  rw [hfree]
  rfl

theorem line_report_of_none {report : Report} (h : report.tells secret = none) :
    (store.report report).line secret = store.line secret := by
  have htold : (store.report report).told secret = store.told secret := by
    rw [told, SecretStore.report, List.filterMap_append, List.filterMap_cons_none h, List.filterMap_nil, List.append_nil]
    rfl
  rw [line, htold]
  rfl

theorem line_settle {request : Request} (hnumber : 0 < request.number) (hmigrating : request.migrating = false)
    (stored : Bool) (error : Text) :
    (store.settle secret request stored error).1.line secret =
      { store.line secret with told := (store.line secret).told ++ [request.number] } := by
  have hne : request.number ≠ 0 := Nat.ne_of_gt hnumber
  simp [settle, hmigrating, line, refused, told, report, fail, Report.tells, hne]

theorem line_settle_of_ne {x : Secret} (hx : x ≠ secret) (request : Request) (stored : Bool) (error : Text) :
    (store.settle secret request stored error).1.line x = store.line x := by
  unfold settle
  split
  · rfl
  · exact line_report_of_none (by simp [Report.tells, hx.symm])

/-! ## The steps of all lines -/

/-- A secret's line does not change, or takes one step, with nothing told over an untold refusal where
`inTurn`. -/
def Moves (inTurn : Prop) (secret : Secret) (s s' : SecretStore) : Prop :=
  s'.line secret = s.line secret ∨ RequestLine.Step Request.number inTurn (s.line secret) (s'.line secret)

theorem SameLines.moves {s s' : SecretStore} (h : SameLines s s') (inTurn : Prop) (x : Secret) :
    Moves inTurn x s s' := .inl (h.line x)

theorem moves_save (hnumbered : store.Numbered) (value : Text) (fallBack : Bool) (inTurn : Prop) (x : Secret) :
    Moves inTurn x store (store.save secret (store.newRequest secret value fallBack)).1 := by
  set request := store.newRequest secret value fallBack
  have fresh : ∀ a ∈ (store.line secret).asked, a.number < request.number :=
    fun a ha => Nat.lt_succ_of_le (hnumbered secret a ha).2.1
  have hnote := line_note store secret request
  unfold save
  dsimp only
  split
  · rename_i refusal _
    by_cases hx : x = secret
    · subst hx
      right
      rw [line_post_settle, line_drop, hnote]
      exact .refuse request fresh
    · left
      rw [line_post_of_ne _ rfl (by simp [Task.refusal, Ne.symm hx]), line_setState_of_ne hx, line_note_of_ne hx]
  · have hhidden : ∀ b : Bool, SameLines (store.note secret request)
        (if b then (store.note secret request).hide secret else store.note secret request) := by
      intro b
      split_ifs
      · exact sameLines_say _ _ _
      · exact .refl _
    have hhidden := hhidden ((store.note secret request).hides secret request)
    by_cases hx : x = secret
    · subst hx
      right
      rw [line_await, hhidden.line, hnote]
      split_ifs with hfree
      · exact .start request fresh hfree
      · exact .wait request fresh (Bool.eq_false_iff.mpr hfree)
    · left
      rw [line_await_of_ne hx, hhidden.line, line_note_of_ne hx]

/-- The row of `saveSecrets` reports as request 0 at most. -/
theorem sameLines_saveRow (store : SecretStore) (secret : Secret) (values : List (Secret × Text)) (reply : Reply) :
    SameLines store (store.saveRow secret values reply).1 := by
  have hcommit := sameLines_commit store secret reply
  have hnoted := hcommit.trans (sameLines_noteCommit _ secret false)
  unfold saveRow
  dsimp only
  split_ifs
  · exact .refl store
  · exact hcommit
  · exact hnoted
  · exact (hnoted.trans (sameLines_cacheFallback _ secret)).trans
      ⟨⟨rfl, rfl, rfl, rfl, rfl, rfl, rfl⟩, fun x => line_report_of_none (by simp [Report.tells]), fun _ => rfl, rfl⟩

/-- What is posted or answered finishes a write: its line is owed one answer less. -/
theorem moves_finishWrite {s : SecretStore} {owed : ℕ} {inTurn : Prop} (hsound : (s.line secret).Sound Request.number)
    (hnumbered : s.Numbered) (hline : store.line secret = { s.line secret with owed })
    (howes : (s.line secret).owed = owed + 1) (hothers : ∀ x, x ≠ secret → store.line x = s.line x)
    (turn : inTurn → (s.cache secret).writing.isSome → (s.cache secret).waiting = none → s.refused secret = [])
    (answer : Option KeyringAnswer) (reply : Reply) (x : Secret) :
    Moves inTurn x s (store.finishWrite secret answer reply).1 := by
  have hwriting : (store.cache secret).writing = (s.cache secret).writing := congrArg RequestLine.working hline
  have hwaiting : (store.cache secret).waiting = (s.cache secret).waiting := congrArg RequestLine.waiting hline
  have hidle : (store.setState secret { store.cache secret with phase := .idle, writing := none }).line secret
      = { s.line secret with free := true, working := none, owed } := by
    rw [line_setState, hline]
    simp [hwaiting, line]
  unfold finishWrite
  dsimp only
  split
  · rename_i hnone
    by_cases hx : x = secret
    · subst hx
      right
      rw [hidle]
      exact .finish owed howes (.inl (Option.isNone_iff_eq_none.mpr (hwriting.symm.trans hnone)))
    · exact .inl ((line_setState_of_ne hx _).trans (hothers x hx))
  · rename_i request hsome
    have hstored := sameLines_storeRequest
      (store.setState secret { store.cache secret with phase := .idle, writing := none }) secret request answer reply
    have hworking : (s.line secret).working = some request := hwriting.symm.trans hsome
    split_ifs with hwaits
    · by_cases hx : x = secret
      · subst hx
        right
        rw [hstored.line, hidle]
        rw [hwaiting] at hwaits
        exact .finish owed howes (.inr hwaits)
      · exact .inl ((hstored.line x).trans ((line_setState_of_ne hx _).trans (hothers x hx)))
    · have hlast : (s.cache secret).waiting = none := Option.not_isSome_iff_eq_none.mp (hwaiting ▸ hwaits)
      obtain ⟨hpos, -, hmigrating⟩ := hnumbered secret request (hsound.working_mem request hworking)
      by_cases hx : x = secret
      · subst hx
        right
        rw [line_settle hpos hmigrating, hstored.line, hidle]
        exact .settle owed request howes hworking hlast
          fun h => turn h (Option.isSome_of_eq_some (hwriting.symm.trans hsome)) hlast
      · left
        rw [line_settle_of_ne hx, hstored.line, line_setState_of_ne hx]
        exact hothers x hx

theorem moves_dropRow {inTurn : Prop} (hsound : (store.line secret).Sound Request.number) (hnumbered : store.Numbered)
    (turn : inTurn → (store.cache secret).newest.isSome → store.refused secret = []) (x : Secret) :
    Moves inTurn x store (store.dropRow secret).1 := by
  unfold dropRow
  dsimp only
  split
  · rename_i hnone
    left
    by_cases hx : x = secret
    · subst hx
      obtain ⟨hwaiting, hwriting⟩ := Option.or_eq_none_iff.mp hnone
      rw [line_drop, RequestLine.drop, line, hwaiting, hwriting]
    · exact line_setState_of_ne hx _
  · rename_i request hsome
    obtain ⟨hpos, -, hmigrating⟩ := hnumbered secret request (List.mem_of_getLast? (hsound.newest_last request hsome))
    by_cases hx : x = secret
    · subst hx
      right
      rw [line_settle hpos hmigrating, line_drop]
      exact .drop request hsome fun h => turn h (Option.isSome_of_eq_some hsome)
    · left
      rw [line_settle_of_ne hx, line_setState_of_ne hx]

/-- What was posted first is taken. -/
theorem moves_posted {inTurn : Prop} (hsound : ∀ x, (store.line x).Sound Request.number) (hnumbered : store.Numbered)
    (turn : inTurn → ∀ secret answer posted, store.posted = .finishWrite secret answer :: posted →
      (store.cache secret).writing.isSome → (store.cache secret).waiting = none → store.refused secret = [])
    (reply : Reply) (x : Secret) : Moves inTurn x store (exec reply .posted store).1 := by
  simp only [exec]
  split
  · exact (SameLines.refl store).moves inTurn x
  · rename_i secret request refusal posted hposted
    have hfinishes : posted.countP (Task.finishes x) = store.posted.countP (Task.finishes x) := by
      rw [hposted]
      simp [Task.finishes]
    by_cases hx : x = secret
    · subst hx
      have hfirst : store.refused x = request :: posted.filterMap (Task.refusal x) := by
        rw [refused, hposted, List.filterMap_cons_some (b := request) (by simp [Task.refusal])]
      have hline : ({ store with posted } : SecretStore).line x =
          { store.line x with refused := posted.filterMap (Task.refusal x) } := by
        simp only [line, hfinishes]
        rfl
      obtain ⟨hpos, -, hmigrating⟩ :=
        hnumbered x request ((hsound x).refused_mem request (List.mem_of_mem_head? (by rw [line, hfirst]; rfl)))
      right
      rw [line_settle hpos hmigrating, hline]
      exact .tell request _ hfirst
    · left
      have hrefused : posted.filterMap (Task.refusal x) = store.refused x := by
        rw [refused, hposted, List.filterMap_cons_none (by simp [Task.refusal, Ne.symm hx])]
      have hline : ({ store with posted } : SecretStore).line x =
          { store.line x with refused := posted.filterMap (Task.refusal x) } := by
        simp only [line, hfinishes]
        rfl
      rw [line_settle_of_ne hx, hline, hrefused]
      rfl
  · rename_i secret answer posted hposted
    have hrefused : ∀ x, posted.filterMap (Task.refusal x) = store.refused x := by
      intro x
      rw [refused, hposted, List.filterMap_cons_none rfl]
    have hline : ∀ x, ({ store with posted } : SecretStore).line x =
        { store.line x with owed := store.jobs.countP (Job.writes x) + posted.countP (Task.finishes x) } := by
      intro x
      simp only [line, ← hrefused]
      rfl
    refine moves_finishWrite (hsound secret) hnumbered (hline secret) ?_ ?_
      (fun h => turn h secret answer posted hposted) answer reply x
    · simp [line, hposted, Task.finishes, Nat.add_assoc]
    · intro y hy
      rw [hline]
      simp [line, hposted, Task.finishes, hy.symm]

theorem countP_erase_add {α : Type*} [DecidableEq α] {l : List α} {a : α} (h : a ∈ l) (p : α → Bool) :
    (l.erase a).countP p + (if p a then 1 else 0) = l.countP p := by
  rw [(List.perm_cons_erase h).countP_eq p, List.countP_cons]

/-- A keyring request is answered. -/
theorem moves_answered {inTurn : Prop} (hsound : ∀ x, (store.line x).Sound Request.number) (hnumbered : store.Numbered)
    {job : Job} (hjob : job ∈ store.jobs)
    (turn : inTurn → job.purpose = .write → (store.cache job.secret).writing.isSome →
      (store.cache job.secret).waiting = none → store.refused job.secret = [])
    (answer : KeyringAnswer) (reply : Reply) (x : Secret) : Moves inTurn x store (store.answered job answer reply).1 := by
  have hline : ∀ x, ({ store with jobs := store.jobs.erase job } : SecretStore).line x = { store.line x with
      owed := (store.jobs.erase job).countP (Job.writes x) + store.posted.countP (Task.finishes x) } := fun x => rfl
  have hcount := fun x => countP_erase_add hjob (Job.writes x)
  unfold answered
  dsimp only
  split
  · rename_i hpurpose
    refine moves_finishWrite (hsound job.secret) hnumbered (hline job.secret) ?_ ?_ (fun h => turn h hpurpose) _ reply x
    · have := hcount job.secret
      simp only [Job.writes, hpurpose, and_self, decide_true, if_true] at this
      simp only [line, ← this]
      omega
    · intro y hy
      have := hcount y
      simp only [Job.writes, hy.symm, false_and, decide_false, Bool.false_eq_true, if_false, Nat.add_zero] at this
      rw [hline]
      simp only [line, this]
  all_goals
    rename_i hpurpose
    have hsame : ∀ y, ({ store with jobs := store.jobs.erase job } : SecretStore).line y = store.line y := by
      intro y
      have := hcount y
      simp only [Job.writes, hpurpose, reduceCtorEq, and_false, decide_false, Bool.false_eq_true, if_false,
        Nat.add_zero] at this
      rw [hline]
      simp only [line, this]
  · exact .inl ((sameLines_finishRead _ _ answer).line x |>.trans (hsame x))
  · left
    unfold removalAnswered
    split_ifs
    · exact ((sameLines_forgetEntry _ _).line x).trans (hsame x)
    · exact hsame x
    · exact (line_askKeyring_of_not (by simp) _).trans (hsame x)
  · left
    unfold removalRead
    split_ifs
    · exact ((sameLines_markDeleted _ _).line x).trans (hsame x)
    · exact hsame x

/-- The request being written is the newest. -/
def writesNewest (store : SecretStore) (secret : Secret) : Bool :=
  (store.cache secret).writing.isSome && (store.cache secret).waiting.isNone

/-- The secret whose newest request the store is about to settle. -/
def settles (store : SecretStore) : Instr → Option Secret
  | .dropRows (secret :: _) => if (store.cache secret).newest.isSome then some secret else none
  | .posted =>
    match store.posted with
    | .finishWrite secret _ :: _ => if store.writesNewest secret then some secret else none
    | _ => none
  | .answered job _ => if job ∈ store.jobs ∧ job.purpose = .write ∧ store.writesNewest job.secret then some job.secret else none
  | _ => none

/-- **The steps of all lines**: whatever the store does, a secret's line takes one step at most. -/
theorem moves_exec (hsound : ∀ x, (store.line x).Sound Request.number) (hnumbered : store.Numbered) (reply : Reply)
    (i : Instr) (x : Secret) :
    Moves (∀ secret, store.settles i = some secret → store.refused secret = []) x store (exec reply i store).1 := by
  have hrefl := fun inTurn => (SameLines.refl store).moves inTurn x
  have hnewest : ∀ secret, (store.cache secret).writing.isSome → (store.cache secret).waiting = none →
      store.writesNewest secret = true := by
    intro secret hwriting hwaiting
    simp [writesNewest, hwriting, hwaiting]
  cases i with
  | save secret value fallBack => exact moves_save hnumbered _ fallBack _ x
  | saveSecrets values => exact hrefl _
  | saveRows rows values =>
    cases rows with
    | nil => exact hrefl _
    | cons secret rows => exact (sameLines_saveRow store secret values reply).moves _ x
  | saveValues values =>
    cases values with
    | nil => exact hrefl _
    | cons value values => exact hrefl _
  | deleteKeyringSecrets =>
    left
    simp only [exec]
    split_ifs <;> rfl
  | dropRows rows =>
    cases rows with
    | nil => exact hrefl _
    | cons secret rows =>
      exact moves_dropRow (hsound secret) hnumbered (fun h hsome => h secret (by simp [settles, hsome])) x
  | removeNext rows =>
    cases rows with
    | nil => exact .inl rfl
    | cons secret rows => exact .inl (line_askKeyring_of_not (by simp) _)
  | afterWritesAsked => exact .inl rfl
  | readSecret secret start =>
    simp only [exec]
    split_ifs
    · exact (sameLines_startRead store secret).moves _ x
    · exact (sameLines_cacheFallback store secret).moves _ x
  | writeWaiting secret =>
    simp only [exec]
    split_ifs with hnext
    · simp only [Bool.and_eq_true, decide_eq_true_eq] at hnext
      obtain ⟨request, hwaiting⟩ := Option.isSome_iff_exists.mp hnext.2
      by_cases hx : x = secret
      · subst hx
        right
        rw [line_writeNext hwaiting]
        exact .next request (decide_eq_true hnext.1) hwaiting
      · exact .inl (line_writeNext_of_ne hx)
    · exact hrefl _
  | notifyIfWritesSettled =>
    left
    simp only [exec]
    split
    · split_ifs <;> rfl
    · rfl
  | posted =>
    refine moves_posted hsound hnumbered (fun h secret answer posted hposted hwriting hwaiting => h secret ?_) reply x
    simp [settles, hposted, hnewest secret hwriting hwaiting]
  | answered job answer =>
    simp only [exec]
    split_ifs with hjob
    · refine moves_answered hsound hnumbered hjob (fun h hpurpose hwriting hwaiting => h job.secret ?_) answer reply x
      simp [settles, hjob, hpurpose, hnewest job.secret hwriting hwaiting]
    · exact hrefl _
  | settingsSaved =>
    left
    simp only [exec]
    split_ifs <;> rfl
  | settingsDeleted keepMarkers close => exact .inl rfl
  | perform secret effective => exact .inl rfl
  | saveFinished report => exact hrefl _
  | removalDone caller => exact .inl rfl
  | callAfterWrites callback => exact hrefl _

/-! ## Numbering -/

/-- No request was asked for meanwhile. -/
structure SameAsked (s s' : SecretStore) : Prop where
  asked : ∀ x, s'.asked x = s.asked x
  requests : s'.requests = s.requests

theorem SameAsked.trans {s s' s'' : SecretStore} (h : SameAsked s s') (h' : SameAsked s' s'') : SameAsked s s'' :=
  ⟨fun x => (h'.asked x).trans (h.asked x), h'.requests.trans h.requests⟩

theorem SameLines.sameAsked {s s' : SecretStore} (h : SameLines s s') : SameAsked s s' :=
  ⟨fun x => congrArg RequestLine.asked (h.line x), h.requests⟩

theorem sameAsked_setState (store : SecretStore) (secret : Secret) (entry : SecretState) :
    SameAsked store (store.setState secret entry) := ⟨fun _ => rfl, rfl⟩

theorem sameAsked_writeNext (store : SecretStore) (secret : Secret) : SameAsked store (store.writeNext secret) := by
  unfold writeNext
  dsimp only
  split
  · exact ⟨fun _ => rfl, rfl⟩
  · split_ifs <;> exact ⟨fun _ => rfl, rfl⟩

theorem sameAsked_settle (store : SecretStore) (secret : Secret) (request : Request) (stored : Bool) (error : Text) :
    SameAsked store (store.settle secret request stored error).1 := by
  unfold settle
  split <;> exact ⟨fun _ => rfl, rfl⟩

theorem sameAsked_finishWrite (store : SecretStore) (secret : Secret) (answer : Option KeyringAnswer) (reply : Reply) :
    SameAsked store (store.finishWrite secret answer reply).1 := by
  unfold finishWrite
  dsimp only
  split
  · exact ⟨fun _ => rfl, rfl⟩
  · rename_i request _
    have hstored := (sameAsked_setState store secret { store.cache secret with phase := .idle, writing := none }).trans
      (sameLines_storeRequest _ secret request answer reply).sameAsked
    split_ifs
    · exact hstored
    · exact hstored.trans (sameAsked_settle _ _ _ _ _)

theorem sameAsked_dropRow (store : SecretStore) (secret : Secret) : SameAsked store (store.dropRow secret).1 := by
  unfold dropRow
  dsimp only
  split
  · exact sameAsked_setState _ _ _
  · exact (sameAsked_setState _ _ _).trans (sameAsked_settle _ _ _ _ _)

theorem sameAsked_answered (store : SecretStore) (job : Job) (answer : KeyringAnswer) (reply : Reply) :
    SameAsked store (store.answered job answer reply).1 := by
  have hjobs : SameAsked store { store with jobs := store.jobs.erase job } := ⟨fun _ => rfl, rfl⟩
  unfold answered
  dsimp only
  split
  · exact hjobs.trans (sameAsked_finishWrite _ _ _ _)
  · exact hjobs.trans (sameLines_finishRead _ _ _).sameAsked
  · unfold removalAnswered
    split_ifs
    · exact hjobs.trans (sameLines_forgetEntry _ _).sameAsked
    · exact ⟨fun _ => rfl, rfl⟩
    · exact ⟨fun _ => rfl, rfl⟩
  · unfold removalRead
    split_ifs
    · exact hjobs.trans (sameLines_markDeleted _ _).sameAsked
    · exact hjobs

/-- A save asks for its request, and for nothing else. -/
theorem sameAsked_save (store : SecretStore) (secret : Secret) (request : Request) :
    SameAsked (store.note secret request) (store.save secret request).1 := by
  unfold save
  dsimp only
  split
  · exact ⟨fun _ => rfl, rfl⟩
  · have hawait : ∀ s : SecretStore, SameAsked s (s.await secret request) := by
      intro s
      unfold await
      dsimp only
      split_ifs
      · exact (sameAsked_setState _ _ _).trans (sameAsked_writeNext _ _)
      · exact sameAsked_setState _ _ _
    split_ifs
    · exact (sameLines_say _ _ _).sameAsked.trans (hawait _)
    · exact hawait _

theorem Numbered.congr {s s' : SecretStore} (hs : s.Numbered) (h : SameAsked s s') : s'.Numbered := by
  intro x request hrequest
  rw [h.asked] at hrequest
  rw [h.requests]
  exact hs x request hrequest

theorem Numbered.note (h : store.Numbered) (secret : Secret) (value : Text) (fallBack : Bool) :
    (store.note secret (store.newRequest secret value fallBack)).Numbered := by
  have hold : ∀ x, ∀ request ∈ store.asked x, 0 < request.number ∧ request.number ≤ store.requests + 1 ∧
      request.migrating = false := fun x request hrequest => by
    obtain ⟨hpos, hle, hmigrating⟩ := h x request hrequest
    exact ⟨hpos, Nat.le_succ_of_le hle, hmigrating⟩
  intro x request hrequest
  by_cases hx : x = secret
  · subst hx
    simp only [SecretStore.note, Function.update_self, List.mem_append, List.mem_singleton] at hrequest
    rcases hrequest with hrequest | rfl
    · exact hold x request hrequest
    · exact ⟨Nat.succ_pos _, Nat.le_refl _, rfl⟩
  · simp only [SecretStore.note, Function.update_of_ne hx] at hrequest
    exact hold x request hrequest

/-- Only a save asks for a request. -/
theorem sameAsked_exec (reply : Reply) {i : Instr} (hi : ∀ secret value fallBack, i ≠ .save secret value fallBack) :
    SameAsked store (exec reply i store).1 := by
  have hrefl : SameAsked store store := ⟨fun _ => rfl, rfl⟩
  cases i with
  | save secret value fallBack => exact (hi secret value fallBack rfl).elim
  | saveSecrets values => exact hrefl
  | saveRows rows values =>
    cases rows with
    | nil => exact hrefl
    | cons secret rows => exact (sameLines_saveRow store secret values reply).sameAsked
  | saveValues values =>
    cases values with
    | nil => exact hrefl
    | cons value values => exact hrefl
  | deleteKeyringSecrets =>
    simp only [exec]
    split_ifs <;> exact ⟨fun _ => rfl, rfl⟩
  | dropRows rows =>
    cases rows with
    | nil => exact hrefl
    | cons secret rows => exact (sameAsked_dropRow store secret)
  | removeNext rows =>
    cases rows with
    | nil => exact ⟨fun _ => rfl, rfl⟩
    | cons secret rows => exact ⟨fun _ => rfl, rfl⟩
  | readSecret secret start =>
    simp only [exec]
    split_ifs
    · exact (sameLines_startRead store secret).sameAsked
    · exact (sameLines_cacheFallback store secret).sameAsked
  | writeWaiting secret =>
    simp only [exec]
    split_ifs
    · exact (sameAsked_writeNext store secret)
    · exact hrefl
  | notifyIfWritesSettled =>
    simp only [exec]
    split
    · split_ifs <;> exact ⟨fun _ => rfl, rfl⟩
    · exact ⟨fun _ => rfl, rfl⟩
  | posted =>
    have htaken : ∀ posted, SameAsked store { store with posted } := fun posted => ⟨fun _ => rfl, rfl⟩
    simp only [exec]
    split
    · exact ⟨fun _ => rfl, rfl⟩
    · exact (htaken _).trans (sameAsked_settle _ _ _ _ _)
    · exact (htaken _).trans (sameAsked_finishWrite _ _ _ _)
  | answered job answer =>
    simp only [exec]
    split_ifs
    · exact (sameAsked_answered store job answer reply)
    · exact hrefl
  | settingsSaved =>
    simp only [exec]
    split_ifs <;> exact ⟨fun _ => rfl, rfl⟩
  | afterWritesAsked | settingsDeleted | perform | removalDone => exact ⟨fun _ => rfl, rfl⟩
  | saveFinished | callAfterWrites => exact hrefl

theorem Numbered.exec (h : store.Numbered) (reply : Reply) (i : Instr) : (exec reply i store).1.Numbered := by
  by_cases hi : ∀ secret value fallBack, i ≠ .save secret value fallBack
  · exact h.congr (sameAsked_exec reply hi)
  · push Not at hi
    obtain ⟨secret, value, fallBack, rfl⟩ := hi
    exact (h.note secret _ fallBack).congr (sameAsked_save store secret _)

/-! ## Every run -/

/-- The store on any settings file and any keyring. -/
def Starts (s : SecretStore) : Prop := ∃ file ring fileName, s = start file ring fileName

/-- The store does not settle a secret's newest request while the refusal of an earlier one is untold. -/
def InTurn (c : Config SecretStore Instr) : Move Instr Reply → Prop
  | .run _ => ∀ secret ∈ c.code.head?.bind c.state.settles, c.state.refused secret = []
  | _ => True

instance (c : Config SecretStore Instr) (mv : Move Instr Reply) : Decidable (InTurn c mv) := by
  unfold InTurn
  split <;> infer_instance

variable {c : Config SecretStore Instr} {ok : Config SecretStore Instr → Move Instr Reply → Prop}

theorem sound_start (s : SecretStore) (hs : Starts s) : s.Numbered ∧ ∀ x, (s.line x).Sound Request.number := by
  obtain ⟨file, ring, fileName, rfl⟩ := hs
  refine ⟨fun x request hrequest => (nomatch hrequest), fun x => ⟨rfl, fun _ => rfl, ?_, ?_, ?_, ?_, ?_⟩⟩
  · rintro request ⟨⟩
  · rintro request ⟨⟩
  · rintro request ⟨⟩
  · exact .nil
  · exact .nil

/-- **Every line is sound** in every configuration reached. -/
theorem lines_sound (hc : machine.Reachable ok Starts c) :
    c.state.Numbered ∧ ∀ x, (c.state.line x).Sound Request.number := by
  refine hc.stateInvariant (I := fun s => s.Numbered ∧ ∀ x, (s.line x).Sound Request.number) sound_start ?_
  rintro reply i k s - ⟨hnumbered, hsound⟩
  refine ⟨hnumbered.exec reply i, fun x => ?_⟩
  rcases moves_exec hsound hnumbered reply i x with hsame | hstep
  · exact hsame ▸ hsound x
  · exact (hsound x).step hstep

/-- **Requests are told in order** in every run that settles none out of its turn. -/
theorem lines_inOrder (hc : machine.Reachable InTurn Starts c) (x : Secret) :
    (c.state.line x).InOrder Request.number := by
  refine (hc.assume fun c hc => lines_sound hc).stateInvariant
    (I := fun s => (s.line x).InOrder Request.number) ?_ ?_
  · rintro s ⟨file, ring, fileName, rfl⟩
    exact .nil
  · rintro reply i k s ⟨hturn, hnumbered, hsound⟩ horder
    rcases moves_exec hsound hnumbered reply i x with hsame | hstep
    · exact (congrArg (RequestLine.InOrder Request.number) hsame).mpr horder
    · exact horder.step (hsound x) hturn hstep

end Speecher.SecretStore
