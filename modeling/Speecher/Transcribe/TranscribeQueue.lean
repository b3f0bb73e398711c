import Mathlib.Data.Finset.Insert
import Mathlib.Data.List.Nodup
import Speecher.Foundations.Runs
import Speecher.Transcribe.Subtitles

/-!
# The transcription queue

The Transcribe page's work: files are listed, a batch copies the list when it starts and fills in a result for each file,
and a failed file's result can be replaced by running that file again. `FileTranscriptionSession` runs a batch's files
one after another and reports each; some files fail as they start, which is what the lists of outcomes stand for that
an event brings. `TranscribeQueue` follows the reports of a batch it shows. Nothing that hears the queue's signals calls
the queue from there, so one event is handled after the other.

* `invariant`: each result belongs to the batch's file at its place, and a batch or a retry that is followed is the one
  the session runs.
* `results_stay_aligned`: the results, the list of files, going back to setup and what a retry changes, in every state
  reached.
-/

namespace Speecher

/-! ## The session -/

/-- How a file came out. -/
structure FileOutcome where
  raw : Text
  segments : List TranscriptSegment
  refined : Text
  savedPath : Text
  error : Text
  deriving DecidableEq

structure TranscribeFileResult extends FileOutcome where
  path : Text
  deriving DecidableEq

def TranscribeFileResult.failed (result : TranscribeFileResult) : Bool := result.refined.isEmpty

/-- What the session reports. -/
inductive SessionSignal
  | fileStarted (index : ℕ) (path : Text)
  | fileFinished (index : ℕ) (result : TranscribeFileResult)
  | batchFinished (results : List TranscribeFileResult) (cancelled : Bool)
  deriving DecidableEq

/-- The batch that runs, one file of it at a time; no index is the source's -1. -/
structure FileTranscriptionSession where
  paths : List Text := []
  results : List TranscribeFileResult := []
  running : Bool := false
  index : Option ℕ := none
  deriving DecidableEq

namespace FileTranscriptionSession

/-- The file after the current one. -/
def nextIndex (session : FileTranscriptionSession) : ℕ := session.index.elim 0 (· + 1)

/-- Moves on to the next file, over those that fail as they start, or ends the batch. -/
def moveOn (session : FileTranscriptionSession) : List FileOutcome → FileTranscriptionSession × List SessionSignal
  | [] =>
    match session.paths[session.nextIndex]? with
    | none => ({ session with running := false, index := some session.nextIndex }, [.batchFinished session.results false])
    | some path => ({ session with index := some session.nextIndex }, [.fileStarted session.nextIndex path])
  | outcome :: failing =>
    match session.paths[session.nextIndex]? with
    | none => ({ session with running := false, index := some session.nextIndex }, [.batchFinished session.results false])
    | some path =>
      let result := ⟨outcome, path⟩
      let later := moveOn { session with index := some session.nextIndex, results := session.results ++ [result] } failing
      (later.1, .fileStarted session.nextIndex path :: .fileFinished session.nextIndex result :: later.2)

/-- `start`; nothing when a batch is running or there is nothing to do. -/
def start (session : FileTranscriptionSession) (paths : List Text) (failing : List FileOutcome) :
    Option (FileTranscriptionSession × List SessionSignal) :=
  if session.running || paths.isEmpty then none
  else some (moveOn { paths := paths, results := [], running := true, index := none } failing)

/-- `finishFile`: records the current file and moves on. -/
def finishFile (session : FileTranscriptionSession) (outcome : FileOutcome) (failing : List FileOutcome) :
    FileTranscriptionSession × List SessionSignal :=
  let index := session.index.getD 0
  let result := ⟨outcome, session.paths.getD index []⟩
  let later := moveOn { session with results := session.results ++ [result] } failing
  (later.1, .fileFinished index result :: later.2)

def cancel (session : FileTranscriptionSession) : FileTranscriptionSession × List SessionSignal :=
  if session.running then ({ session with running := false }, [.batchFinished session.results true]) else (session, [])

end FileTranscriptionSession

/-! ## The queue -/

namespace TranscribeQueue

inductive Step
  | configure
  | transcribe
  | export
  deriving DecidableEq

inductive FileState
  | waiting
  | current
  | done
  | failed
  deriving DecidableEq

end TranscribeQueue

/-- The queue, with the session its batches run on. -/
structure TranscribeQueue where
  step : TranscribeQueue.Step := .configure
  files : List Text := []
  batch : List Text := []
  current : Option ℕ := none
  fileDone : Bool := false
  results : List TranscribeFileResult := []
  exported : Finset ℕ := ∅
  cancelled : Bool := false
  retrying : Option ℕ := none
  problem : Text := []
  session : FileTranscriptionSession := {}
  deriving DecidableEq

/-- How paths are read. -/
structure Disk where
  absolute : Text → Text
  isAudioFile : Text → Bool

namespace TranscribeQueue

variable (queue : TranscribeQueue)

/-- A session's event belongs to the batch shown. -/
def followsBatch : Bool := queue.step = .transcribe && queue.retrying.isNone

/-- What the queue makes of a report of the session's. -/
def handle (queue : TranscribeQueue) : SessionSignal → TranscribeQueue
  | .fileStarted index _ => if queue.followsBatch then { queue with current := some index, fileDone := false } else queue
  | .fileFinished _ result =>
    if queue.followsBatch then { queue with fileDone := true, results := queue.results ++ [result] } else queue
  | .batchFinished results cancelled =>
    match queue.retrying with
    | some retrying =>
      match results with
      | [] => { queue with retrying := none }
      | first :: _ =>
        { queue with
          results := if retrying < queue.results.length then queue.results.set retrying first else queue.results
          retrying := none }
    | none =>
      if queue.step ≠ .transcribe then queue
      else
        { queue with
          current := none
          cancelled := cancelled
          step := if queue.results.isEmpty then .configure else .export }

/-- The queue after the session did something and reported it. -/
def deliver (done : FileTranscriptionSession × List SessionSignal) : TranscribeQueue :=
  done.2.foldl handle { queue with session := done.1 }

def cancel : TranscribeQueue := queue.deliver queue.session.cancel

/-- The finished files leave the list. -/
def backToSetup : TranscribeQueue :=
  let stopped := if queue.retrying.isSome then queue.cancel else queue
  { stopped with
    files := stopped.results.foldl (fun files result => files.erase result.path) stopped.files
    problem := []
    step := .configure }

/-- A list with one path more, when it is a file to transcribe and not there. -/
def listed (disk : Disk) (files : List Text) (path : Text) : List Text :=
  if !disk.isAudioFile (disk.absolute path) || disk.absolute path ∈ files then files else files ++ [disk.absolute path]

def addFiles (disk : Disk) (paths : List Text) : TranscribeQueue :=
  let ready := if queue.step = .export then queue.backToSetup else queue
  { ready with files := paths.foldl (listed disk) ready.files }

def removeFile (path : Text) : TranscribeQueue := { queue with files := queue.files.erase path }

/-- `start`; the refusals are what the queue is told before it changes anything and once it has. -/
def start (refusal lateRefusal : Text) (failing : List FileOutcome) : TranscribeQueue :=
  if queue.files.isEmpty then queue
  else if !refusal.isEmpty then { queue with problem := refusal }
  else
    let ready :=
      { queue with
        batch := queue.files
        results := []
        exported := ∅
        cancelled := false
        current := none
        fileDone := false
        problem := []
        step := .transcribe }
    match if lateRefusal.isEmpty then queue.session.start queue.files failing else none with
    | none => { ready with step := .configure, problem := lateRefusal }
    | some done => ready.deliver done

/-- `retry`: runs one failed file again. -/
def retry (index : ℤ) (refusal : Text) (failing : List FileOutcome) : TranscribeQueue :=
  match if queue.retrying.isSome || index < 0 then none else queue.results[index.toNat]? with
  | none => queue
  | some result =>
    if !result.failed then queue
    else
      match if refusal.isEmpty then queue.session.start [result.path] failing else none with
      | none => { queue with retrying := none, problem := refusal }
      | some done => { { queue with retrying := some index.toNat }.deliver done with problem := [] }

def markExported (index : ℕ) : TranscribeQueue := { queue with exported := insert index queue.exported }

def fileState (index : ℕ) : FileState :=
  match queue.results[index]? with
  | some result => if result.failed then .failed else .done
  | none => if queue.current = some index then .current else .waiting

/-- A transcript is only here. -/
def holdsUnsavedResults : Bool :=
  if queue.retrying.isSome then true
  else if queue.step = .configure then false
  else
    (queue.results.zipIdx).any fun (result, i) =>
      !result.failed && result.savedPath.isEmpty && i ∉ queue.exported

/-- What happens to the queue. -/
inductive Event
  | addFiles (disk : Disk) (paths : List Text)
  | removeFile (path : Text)
  | start (refusal lateRefusal : Text) (failing : List FileOutcome)
  | cancel
  | backToSetup
  | retry (index : ℤ) (refusal : Text) (failing : List FileOutcome)
  | markExported (index : ℕ)
  | fileEnds (outcome : FileOutcome) (failing : List FileOutcome)

/-- One event; a file ends while one is open. -/
def next (queue : TranscribeQueue) : Event → Option TranscribeQueue
  | .addFiles disk paths => some (queue.addFiles disk paths)
  | .removeFile path => some (queue.removeFile path)
  | .start refusal lateRefusal failing => some (queue.start refusal lateRefusal failing)
  | .cancel => some queue.cancel
  | .backToSetup => some queue.backToSetup
  | .retry index refusal failing => some (queue.retry index refusal failing)
  | .markExported index => some (queue.markExported index)
  | .fileEnds outcome failing =>
    if queue.session.running then some (queue.deliver (queue.session.finishFile outcome failing)) else none

end TranscribeQueue

/-! ## What the session does -/

namespace FileTranscriptionSession

/-- No file is open: the next is the first without a result. -/
structure Between (session : FileTranscriptionSession) : Prop where
  nextIndex : session.nextIndex = session.results.length
  paths : session.results.map TranscribeFileResult.path <+: session.paths

/-- A file is open: the first without a result. -/
structure Open (session : FileTranscriptionSession) : Prop where
  index : session.index = some session.results.length
  paths : session.results.map TranscribeFileResult.path <+: session.paths
  lt : session.results.length < session.paths.length

variable {session : FileTranscriptionSession} {failing : List FileOutcome}

/-- The next file's result belongs to it. -/
theorem paths_concat {results : List TranscribeFileResult} {paths : List Text}
    (h : results.map TranscribeFileResult.path <+: paths) {outcome : FileOutcome} {path : Text}
    (hpath : paths[results.length]? = some path) :
    (results ++ [TranscribeFileResult.mk outcome path]).map TranscribeFileResult.path <+: paths := by
  obtain ⟨rest, rfl⟩ := h
  rw [List.getElem?_append_right (by rw [List.length_map]), List.length_map, Nat.sub_self] at hpath
  cases rest with
  | nil => cases hpath
  | cons next rest =>
    obtain rfl := Option.some.inj hpath
    exact ⟨rest, by simp⟩

theorem moveOn_end (h : session.paths[session.nextIndex]? = none) : session.moveOn failing =
    ({ session with running := false, index := some session.nextIndex }, [.batchFinished session.results false]) := by
  cases failing <;> rw [moveOn, h]

theorem moveOn_nil {path : Text} (h : session.paths[session.nextIndex]? = some path) : session.moveOn [] =
    ({ session with index := some session.nextIndex }, [.fileStarted session.nextIndex path]) := by
  rw [moveOn, h]

/-- The session with a file's result, and the file's index. -/
def recorded (session : FileTranscriptionSession) (outcome : FileOutcome) (path : Text) : FileTranscriptionSession :=
  { session with index := some session.nextIndex, results := session.results ++ [⟨outcome, path⟩] }

theorem moveOn_cons {path : Text} (h : session.paths[session.nextIndex]? = some path) (outcome : FileOutcome) :
    session.moveOn (outcome :: failing) = (((session.recorded outcome path).moveOn failing).1,
      .fileStarted session.nextIndex path :: .fileFinished session.nextIndex ⟨outcome, path⟩ ::
        ((session.recorded outcome path).moveOn failing).2) := by
  rw [moveOn, h]
  rfl

variable (session failing) in
/-- Moving on leaves a file open or ends the batch. -/
theorem moveOn_spec (hrunning : session.running = true) (h : session.Between) :
    (session.moveOn failing).1.paths = session.paths ∧
    ((session.moveOn failing).1.running = true → (session.moveOn failing).1.Open) ∧
    session.results <+: (session.moveOn failing).1.results ∧
    (session.moveOn failing).1.results.map TranscribeFileResult.path <+: session.paths := by
  induction failing generalizing session with
  | nil =>
    cases hpath : session.paths[session.nextIndex]? with
    | none =>
      rw [moveOn_end hpath]
      exact ⟨rfl, fun hrun => absurd hrun Bool.false_ne_true, List.prefix_rfl, h.paths⟩
    | some path =>
      rw [moveOn_nil hpath]
      obtain ⟨hlt, -⟩ := List.getElem?_eq_some_iff.mp hpath
      exact ⟨rfl, fun _ => ⟨congrArg some h.nextIndex, h.paths, h.nextIndex ▸ hlt⟩, List.prefix_rfl, h.paths⟩
  | cons outcome failing ih =>
    cases hpath : session.paths[session.nextIndex]? with
    | none =>
      rw [moveOn_end hpath]
      exact ⟨rfl, fun hrun => absurd hrun Bool.false_ne_true, List.prefix_rfl, h.paths⟩
    | some path =>
      rw [moveOn_cons hpath]
      obtain ⟨hpaths, hopen, hresults, hprefix⟩ := @ih (session.recorded outcome path) hrunning
        ⟨by simp [nextIndex, recorded, ← h.nextIndex], paths_concat h.paths (h.nextIndex ▸ hpath)⟩
      exact ⟨hpaths, hopen, (List.prefix_append _ _).trans hresults, hprefix⟩

/-- The open file's result. -/
def resultOf (session : FileTranscriptionSession) (outcome : FileOutcome) : TranscribeFileResult :=
  ⟨outcome, session.paths.getD (session.index.getD 0) []⟩

/-- The session with the open file's result. -/
def finished (session : FileTranscriptionSession) (outcome : FileOutcome) : FileTranscriptionSession :=
  { session with results := session.results ++ [session.resultOf outcome] }

theorem finishFile_eq (session : FileTranscriptionSession) (outcome : FileOutcome) (failing : List FileOutcome) :
    session.finishFile outcome failing = (((session.finished outcome).moveOn failing).1,
      .fileFinished (session.index.getD 0) (session.resultOf outcome) :: ((session.finished outcome).moveOn failing).2) :=
  rfl

theorem Open.between (h : session.Open) (outcome : FileOutcome) : (session.finished outcome).Between where
  nextIndex := by simp [nextIndex, finished, h.index]
  paths := by
    refine paths_concat h.paths ?_
    rw [h.index, Option.getD_some, List.getD_eq_getElem?_getD, List.getElem?_eq_getElem h.lt, Option.getD_some]

end FileTranscriptionSession

/-! ## What the queue makes of it -/

namespace TranscribeQueue

open FileTranscriptionSession

variable {queue : TranscribeQueue} {session : FileTranscriptionSession} {failing : List FileOutcome}

/-- A report changes neither the lists of files nor the session. -/
theorem handle_frame (queue : TranscribeQueue) (signal : SessionSignal) :
    (queue.handle signal).files = queue.files ∧ (queue.handle signal).batch = queue.batch ∧
      (queue.handle signal).session = queue.session := by
  cases signal with
  | fileStarted => rw [handle]; split <;> exact ⟨rfl, rfl, rfl⟩
  | fileFinished => rw [handle]; split <;> exact ⟨rfl, rfl, rfl⟩
  | batchFinished results =>
    simp only [handle]
    split
    · split <;> exact ⟨rfl, rfl, rfl⟩
    · split <;> exact ⟨rfl, rfl, rfl⟩

theorem foldl_handle_frame (signals : List SessionSignal) (queue : TranscribeQueue) :
    (signals.foldl handle queue).files = queue.files ∧ (signals.foldl handle queue).batch = queue.batch ∧
      (signals.foldl handle queue).session = queue.session := by
  induction signals generalizing queue with
  | nil => exact ⟨rfl, rfl, rfl⟩
  | cons signal signals ih =>
    obtain ⟨hfiles, hbatch, hsession⟩ := ih (queue.handle signal)
    obtain ⟨hfiles', hbatch', hsession'⟩ := queue.handle_frame signal
    exact ⟨hfiles.trans hfiles', hbatch.trans hbatch', hsession.trans hsession'⟩

theorem deliver_frame (queue : TranscribeQueue) (done : FileTranscriptionSession × List SessionSignal) :
    (queue.deliver done).files = queue.files ∧ (queue.deliver done).batch = queue.batch ∧
      (queue.deliver done).session = done.1 :=
  foldl_handle_frame done.2 { queue with session := done.1 }

variable (session) in
/-- A batch that is not followed leaves nothing but its end. -/
theorem foldl_handle_ignored (hrunning : session.running = true) (hfollows : queue.followsBatch = false) :
    (session.moveOn failing).2.foldl handle queue =
      if (session.moveOn failing).1.running then queue
      else queue.handle (.batchFinished (session.moveOn failing).1.results false) := by
  have hstarted : ∀ i path, queue.handle (.fileStarted i path) = queue := fun i path => by
    simp only [handle, hfollows, Bool.false_eq_true, if_false]
  have hfinished : ∀ i result, queue.handle (.fileFinished i result) = queue := fun i result => by
    simp only [handle, hfollows, Bool.false_eq_true, if_false]
  induction failing generalizing session with
  | nil =>
    cases hpath : session.paths[session.nextIndex]? with
    | none =>
      rw [moveOn_end hpath]
      rfl
    | some path =>
      rw [moveOn_nil hpath, List.foldl_cons, List.foldl_nil, hstarted, if_pos hrunning]
  | cons outcome failing ih =>
    cases hpath : session.paths[session.nextIndex]? with
    | none =>
      rw [moveOn_end hpath]
      rfl
    | some path =>
      rw [moveOn_cons hpath, List.foldl_cons, List.foldl_cons, hstarted, hfinished]
      exact @ih (session.recorded outcome path) hrunning

/-- The queue follows the batch that the session runs. -/
structure Follows (queue : TranscribeQueue) (session : FileTranscriptionSession) : Prop where
  step : queue.step = .transcribe
  retrying : queue.retrying = none
  results : session.results = queue.results

theorem Follows.followsBatch (h : queue.Follows session) : queue.followsBatch = true := by
  rw [TranscribeQueue.followsBatch, h.step, h.retrying]
  rfl

/-- A batch that is followed to its end. -/
theorem Follows.batchFinished (h : queue.Follows session) (cancelled : Bool) :
    (queue.handle (.batchFinished session.results cancelled)).results = session.results ∧
    (queue.handle (.batchFinished session.results cancelled)).retrying = none ∧
    (queue.handle (.batchFinished session.results cancelled)).step ≠ .transcribe := by
  simp only [handle, h.retrying, h.step, ne_eq, not_true_eq_false, if_false]
  refine ⟨h.results.symm, trivial, ?_⟩
  split <;> exact fun hstep => nomatch hstep

theorem Follows.fileStarted (h : queue.Follows session) (index : ℕ) (path : Text) :
    (queue.handle (.fileStarted index path)).Follows session := by
  simp only [handle, h.followsBatch, if_true]
  exact ⟨h.step, h.retrying, h.results⟩

theorem Follows.fileFinished (h : queue.Follows session) (index : ℕ) (result : TranscribeFileResult)
    {session' : FileTranscriptionSession} (hresults : session'.results = session.results ++ [result]) :
    (queue.handle (.fileFinished index result)).Follows session' := by
  simp only [handle, h.followsBatch, if_true]
  exact ⟨h.step, h.retrying, hresults.trans (congrArg (· ++ [result]) h.results)⟩

variable (failing) in
/-- A batch that is followed gives the queue its results. -/
theorem Follows.foldl_handle (hrunning : session.running = true) (h : queue.Follows session) :
    ((session.moveOn failing).2.foldl handle queue).results = (session.moveOn failing).1.results ∧
    ((session.moveOn failing).2.foldl handle queue).retrying = none ∧
    (((session.moveOn failing).2.foldl handle queue).step = .transcribe → (session.moveOn failing).1.running = true) := by
  induction failing generalizing session queue with
  | nil =>
    cases hpath : session.paths[session.nextIndex]? with
    | none =>
      rw [moveOn_end hpath]
      obtain ⟨hresults, hretrying, hstep⟩ := h.batchFinished false
      exact ⟨hresults, hretrying, fun heq => absurd heq hstep⟩
    | some path =>
      rw [moveOn_nil hpath]
      have hstarted := h.fileStarted session.nextIndex path
      exact ⟨hstarted.results.symm, hstarted.retrying, fun _ => hrunning⟩
  | cons outcome failing ih =>
    cases hpath : session.paths[session.nextIndex]? with
    | none =>
      rw [moveOn_end hpath]
      obtain ⟨hresults, hretrying, hstep⟩ := h.batchFinished false
      exact ⟨hresults, hretrying, fun heq => absurd heq hstep⟩
    | some path =>
      rw [moveOn_cons hpath]
      exact @ih _ (session.recorded outcome path) hrunning
        ((h.fileStarted session.nextIndex path).fileFinished session.nextIndex ⟨outcome, path⟩ rfl)

/-! ## What a retry makes of it -/

/-- A result that takes another's place, of the same file. -/
theorem set_eq_modify {results : List TranscribeFileResult} {index : ℕ} {path : Text} (outcome : FileOutcome)
    (h : ∀ result ∈ results[index]?, result.path = path) :
    results.set index ⟨outcome, path⟩ = results.modify index fun before => ⟨outcome, before.path⟩ := by
  refine List.ext_getElem (by simp) fun i hi hi' => ?_
  rw [List.length_set] at hi
  rw [List.getElem_set, List.getElem_modify]
  split
  · rename_i heq
    subst heq
    rw [h _ (List.getElem?_eq_getElem hi)]
  · rfl

theorem map_path_modify (results : List TranscribeFileResult) (index : ℕ) (outcome : FileOutcome) :
    (results.modify index fun before => ⟨outcome, before.path⟩).map TranscribeFileResult.path =
      results.map TranscribeFileResult.path := by
  refine List.ext_getElem (by simp) fun i hi hi' => ?_
  rw [List.getElem_map, List.getElem_map, List.getElem_modify]
  split <;> rfl

theorem followsBatch_of_ne (hstep : queue.step ≠ .transcribe) : queue.followsBatch = false := by
  rw [followsBatch, decide_eq_false hstep, Bool.false_and]

theorem followsBatch_of_retrying {index : ℕ} (hretrying : queue.retrying = some index) : queue.followsBatch = false := by
  rw [followsBatch, hretrying, Option.isNone_some, Bool.and_false]

/-- The end of a retry. -/
theorem handle_retried {index : ℕ} (hretrying : queue.retrying = some index) {path : Text} (outcome : FileOutcome)
    (hresult : ∀ result ∈ queue.results[index]?, result.path = path) :
    queue.handle (.batchFinished [⟨outcome, path⟩] false) = { queue with
      results := queue.results.modify index fun before => ⟨outcome, before.path⟩
      retrying := none } := by
  have hset : (if index < queue.results.length then queue.results.set index ⟨outcome, path⟩ else queue.results) =
      queue.results.modify index fun before => ⟨outcome, before.path⟩ := by
    split
    · exact set_eq_modify outcome hresult
    · rename_i hlong
      rw [List.modify_eq_self (not_lt.mp hlong)]
  simp only [handle, hretrying, hset]

/-- A file of a batch that is not followed ends. -/
theorem deliver_finishFile_ignored (hstep : queue.step ≠ .transcribe) (hretrying : queue.retrying = none)
    (hrunning : queue.session.running = true) (outcome : FileOutcome) (failing : List FileOutcome) :
    queue.deliver (queue.session.finishFile outcome failing) =
      { queue with session := ((queue.session.finished outcome).moveOn failing).1 } := by
  have hfollows : followsBatch { queue with session := ((queue.session.finished outcome).moveOn failing).1 } = false :=
    followsBatch_of_ne hstep
  rw [finishFile_eq, deliver, List.foldl_cons, handle, hfollows, if_neg Bool.false_ne_true]
  refine (foldl_handle_ignored (queue.session.finished outcome) hrunning hfollows).trans ?_
  split
  · rfl
  · simp only [handle, hretrying, ne_eq, hstep, not_false_eq_true, if_true]

/-- The file that a retry is for ends. -/
theorem deliver_finishFile_retried {index : ℕ} (hretrying : queue.retrying = some index)
    (hempty : queue.session.results = []) (hopen : queue.session.Open) {path : Text} (hpath : queue.session.paths = [path])
    (hresult : ∀ result ∈ queue.results[index]?, result.path = path) (outcome : FileOutcome) (failing : List FileOutcome) :
    queue.deliver (queue.session.finishFile outcome failing) = { queue with
      results := queue.results.modify index fun before => ⟨outcome, before.path⟩
      retrying := none
      session := ⟨[path], [⟨outcome, path⟩], false, some 1⟩ } := by
  have hindex : queue.session.index = some 0 := by rw [hopen.index, hempty]; rfl
  have hof : queue.session.resultOf outcome = ⟨outcome, path⟩ := by rw [resultOf, hindex, hpath]; rfl
  have hfinished : queue.session.finished outcome =
      { queue.session with results := [⟨outcome, path⟩] } := by rw [finished, hof, hempty, List.nil_append]
  have hend : (queue.session.finished outcome).moveOn failing =
      (⟨[path], [⟨outcome, path⟩], false, some 1⟩, [.batchFinished [⟨outcome, path⟩] false]) := by
    rw [hfinished, moveOn_end]
    · simp [nextIndex, hindex, hpath]
    · simp [nextIndex, hindex, hpath]
  have hretrying' : retrying { queue with session := ⟨[path], [⟨outcome, path⟩], false, some 1⟩ } = some index := hretrying
  rw [finishFile_eq, hend, deliver, List.foldl_cons, handle, followsBatch_of_retrying hretrying',
    if_neg Bool.false_ne_true, List.foldl_cons, List.foldl_nil]
  exact handle_retried hretrying' outcome hresult

/-! ## The invariant -/

/-- Each result is of the batch's file at its place; a batch or a retry under way is what the session runs. -/
structure Invariant (queue : TranscribeQueue) : Prop where
  files : queue.files.Nodup
  aligned : queue.results.map TranscribeFileResult.path <+: queue.batch
  following : queue.step = .transcribe → queue.Follows queue.session ∧ queue.session.running = true ∧
    queue.session.paths = queue.batch
  retrying : ∀ index ∈ queue.retrying, queue.session.running = true ∧ queue.session.results = [] ∧
    ∃ path, queue.session.paths = [path] ∧ ∀ result ∈ queue.results[index]?, result.path = path
  session : queue.session.running = true → queue.session.Open

namespace Invariant

/-- Nothing under way. -/
theorem of_idle (hfiles : queue.files.Nodup) (haligned : queue.results.map TranscribeFileResult.path <+: queue.batch)
    (hstep : queue.step ≠ .transcribe) (hretrying : queue.retrying = none)
    (hsession : queue.session.running = true → queue.session.Open) : queue.Invariant where
  files := hfiles
  aligned := haligned
  following h := absurd h hstep
  retrying index h := by rw [hretrying] at h; cases h
  session := hsession

variable (h : queue.Invariant)
include h

theorem step_ne_of_retrying {index : ℕ} (hindex : queue.retrying = some index) : queue.step ≠ .transcribe := fun hstep => by
  rw [(h.following hstep).1.retrying] at hindex
  cases hindex

theorem of_stopped (hstopped : queue.session.running = false) : queue.step ≠ .transcribe ∧ queue.retrying = none := by
  refine ⟨fun hstep => ?_, Option.eq_none_iff_forall_not_mem.mpr fun index hindex => ?_⟩
  · rw [(h.following hstep).2.1] at hstopped
    cases hstopped
  · rw [(h.retrying index hindex).1] at hstopped
    cases hstopped

/-- What stopping leaves. -/
theorem cancel_spec : queue.cancel.results = queue.results ∧ queue.cancel.files = queue.files ∧
    queue.cancel.batch = queue.batch ∧ queue.cancel.retrying = none ∧ queue.cancel.step ≠ .transcribe ∧
      queue.cancel.session.running = false := by
  obtain ⟨hfiles, hbatch, hsession⟩ := queue.deliver_frame queue.session.cancel
  cases hrunning : queue.session.running with
  | false =>
    obtain ⟨hstep, hretrying⟩ := h.of_stopped hrunning
    have hcancel : queue.session.cancel = (queue.session, []) := by
      rw [FileTranscriptionSession.cancel, hrunning]
      rfl
    rw [TranscribeQueue.cancel, hcancel]
    exact ⟨rfl, rfl, rfl, hretrying, hstep, hrunning⟩
  | true =>
    have hcancel : queue.session.cancel = ({ queue.session with running := false },
        [.batchFinished queue.session.results true]) := by
      rw [FileTranscriptionSession.cancel, hrunning]
      rfl
    rw [hcancel] at hfiles hbatch hsession
    rw [TranscribeQueue.cancel, hcancel]
    suffices hrest : (queue.deliver ({ queue.session with running := false },
        [.batchFinished queue.session.results true])).results = queue.results ∧
        (queue.deliver ({ queue.session with running := false },
          [.batchFinished queue.session.results true])).retrying = none ∧
        (queue.deliver ({ queue.session with running := false },
          [.batchFinished queue.session.results true])).step ≠ .transcribe from
      ⟨hrest.1, hfiles, hbatch, hrest.2.1, hrest.2.2, congrArg _ hsession⟩
    rw [deliver, List.foldl_cons, List.foldl_nil]
    obtain hretrying | ⟨index, hretrying⟩ := Option.eq_none_or_eq_some queue.retrying
    · by_cases hstep : queue.step = .transcribe
      · have hfollows : Follows { queue with session := { queue.session with running := false } } queue.session :=
          ⟨hstep, hretrying, (h.following hstep).1.results⟩
        obtain ⟨hresults, hnone, hne⟩ := hfollows.batchFinished true
        exact ⟨hresults.trans (h.following hstep).1.results, hnone, hne⟩
      · simp only [handle, hretrying, ne_eq, hstep, not_false_eq_true, if_true]
        exact ⟨trivial, trivial, trivial⟩
    · obtain ⟨-, hempty, -⟩ := h.retrying index hretrying
      simp only [handle, hretrying, hempty]
      exact ⟨trivial, trivial, h.step_ne_of_retrying hretrying⟩

theorem cancel : queue.cancel.Invariant := by
  obtain ⟨hresults, hfiles, hbatch, hretrying, hstep, hrunning⟩ := h.cancel_spec
  refine of_idle (hfiles ▸ h.files) (by rw [hresults, hbatch]; exact h.aligned) hstep hretrying fun hrun => ?_
  rw [hrunning] at hrun
  cases hrun

/-- Going back to setup takes the finished files off the list. -/
theorem backToSetup_spec : queue.backToSetup.results = queue.results ∧
    queue.backToSetup.files = queue.files.filter (fun file => file ∉ queue.results.map TranscribeFileResult.path) ∧
    queue.backToSetup.batch = queue.batch ∧ queue.backToSetup.retrying = none ∧
      (queue.backToSetup.session.running = true → queue.backToSetup.session.Open) := by
  have herase : ∀ (results : List TranscribeFileResult) (files : List Text), files.Nodup →
      results.foldl (fun files result => files.erase result.path) files =
        files.filter fun file => file ∉ results.map TranscribeFileResult.path := by
    intro results files hnodup
    rw [← List.Nodup.sdiff_eq_filter hnodup]
    exact (List.foldl_map ..).symm.trans (List.diff_eq_foldl ..).symm
  rw [backToSetup]
  obtain hretrying | ⟨index, hretrying⟩ := Option.eq_none_or_eq_some queue.retrying
  · simp only [hretrying, Option.isSome_none, Bool.false_eq_true, if_false]
    exact ⟨trivial, herase _ _ h.files, trivial, trivial, h.session⟩
  · obtain ⟨hresults, hfiles, hbatch, hnone, -, hrunning⟩ := h.cancel_spec
    simp only [hretrying, Option.isSome_some, if_true]
    refine ⟨hresults, ?_, hbatch, hnone, h.cancel.session⟩
    rw [hresults, hfiles]
    exact herase _ _ h.files

theorem backToSetup : queue.backToSetup.Invariant := by
  obtain ⟨hresults, hfiles, hbatch, hretrying, hsession⟩ := h.backToSetup_spec
  refine of_idle (hfiles ▸ h.files.filter _) (by rw [hresults, hbatch]; exact h.aligned) ?_ hretrying hsession
  exact fun hstep => nomatch hstep

/-- The queue with another list of files. -/
theorem withFiles {files : List Text} (hfiles : files.Nodup) : Invariant { queue with files := files } where
  files := hfiles
  aligned := h.aligned
  following hstep :=
    have ⟨hfollows, hrest⟩ := h.following hstep
    ⟨⟨hfollows.step, hfollows.retrying, hfollows.results⟩, hrest⟩
  retrying := h.retrying
  session := h.session

omit h in
theorem nodup_listed (disk : Disk) (paths : List Text) {files : List Text} (hfiles : files.Nodup) :
    (paths.foldl (listed disk) files).Nodup := by
  induction paths generalizing files with
  | nil => exact hfiles
  | cons path paths ih =>
    refine ih ?_
    rw [listed]
    split
    · exact hfiles
    · rename_i hnew
      refine hfiles.append (List.nodup_singleton _) (List.disjoint_singleton.mpr fun hmem => hnew ?_)
      rw [Bool.or_eq_true, decide_eq_true_eq]
      exact .inr hmem

theorem addFiles (disk : Disk) (paths : List Text) : (queue.addFiles disk paths).Invariant := by
  rw [TranscribeQueue.addFiles]
  split
  · exact h.backToSetup.withFiles (nodup_listed disk paths h.backToSetup.files)
  · exact h.withFiles (nodup_listed disk paths h.files)

omit h in
/-- A batch that is followed from where it stands. -/
theorem of_follows {session : FileTranscriptionSession} (hfollows : queue.Follows session) (hbetween : session.Between)
    (hrunning : session.running = true) (hpaths : session.paths = queue.batch) (hfiles : queue.files.Nodup)
    (hsession : queue.session = (session.moveOn failing).1) : Invariant ((session.moveOn failing).2.foldl handle queue) := by
  obtain ⟨hpaths', hopen, -, hprefix⟩ := moveOn_spec session failing hrunning hbetween
  obtain ⟨hfiles', hbatch', hsession'⟩ := foldl_handle_frame (session.moveOn failing).2 queue
  obtain ⟨hresults, hretrying, hstep⟩ := hfollows.foldl_handle failing hrunning
  rw [hsession] at hsession'
  refine ⟨hfiles' ▸ hfiles, ?_, fun heq => ?_, fun index hindex => ?_, fun hrun => ?_⟩
  · rw [hresults, hbatch', ← hpaths]
    exact hprefix
  · rw [hsession', hbatch', hpaths', hpaths]
    exact ⟨⟨heq, hretrying, hresults.symm⟩, hstep heq, rfl⟩
  · rw [hretrying] at hindex
    cases hindex
  · rw [hsession'] at hrun ⊢
    exact hopen hrun

theorem start (refusal lateRefusal : Text) (failing : List FileOutcome) :
    (queue.start refusal lateRefusal failing).Invariant := by
  rw [TranscribeQueue.start]
  split
  · exact h
  split
  · exact ⟨h.files, h.aligned, fun hstep => have ⟨hfollows, hrest⟩ := h.following hstep
      ⟨⟨hfollows.step, hfollows.retrying, hfollows.results⟩, hrest⟩, h.retrying, h.session⟩
  dsimp only
  split
  · refine ⟨h.files, List.nil_prefix, (fun hstep => nomatch hstep), fun index hindex => ?_, h.session⟩
    obtain ⟨hrunning, hempty, path, hpath, -⟩ := h.retrying index hindex
    exact ⟨hrunning, hempty, path, hpath, fun result hresult => nomatch hresult⟩
  · rename_i done hdone
    split at hdone
    · rw [FileTranscriptionSession.start] at hdone
      split_ifs at hdone with hrefused
      obtain rfl := Option.some.inj hdone
      have hstopped : queue.session.running = false := by
        rw [Bool.or_eq_true, not_or] at hrefused
        exact Bool.eq_false_iff.mpr hrefused.1
      obtain ⟨-, hretrying⟩ := h.of_stopped hstopped
      have hfollows : Follows { queue with
          batch := queue.files, results := [], exported := ∅, cancelled := false, current := none, fileDone := false
          problem := [], step := .transcribe
          session := (moveOn { paths := queue.files, results := [], running := true, index := none } failing).1 }
          { paths := queue.files, results := [], running := true, index := none } := ⟨rfl, hretrying, rfl⟩
      exact of_follows hfollows ⟨rfl, List.nil_prefix⟩ rfl rfl h.files rfl
    · cases hdone

/-- A file that ends. -/
theorem fileEnds (hrunning : queue.session.running = true) (outcome : FileOutcome) (failing : List FileOutcome) :
    (queue.deliver (queue.session.finishFile outcome failing)).Invariant := by
  have hbetween := (h.session hrunning).between outcome
  obtain ⟨hpaths, hopen, -, -⟩ := moveOn_spec (queue.session.finished outcome) failing hrunning hbetween
  by_cases hstep : queue.step = .transcribe
  · obtain ⟨hfollows, -, hbatch⟩ := h.following hstep
    rw [finishFile_eq, deliver, List.foldl_cons]
    have hfollows' : Follows { queue with session := ((queue.session.finished outcome).moveOn failing).1 } queue.session :=
      ⟨hfollows.step, hfollows.retrying, hfollows.results⟩
    obtain ⟨hfiles', hbatch', hsession'⟩ := handle_frame
      { queue with session := ((queue.session.finished outcome).moveOn failing).1 }
      (.fileFinished (queue.session.index.getD 0) (queue.session.resultOf outcome))
    exact of_follows (hfollows'.fileFinished _ _ rfl) hbetween hrunning (hbatch.trans hbatch'.symm)
      (hfiles'.symm ▸ h.files) hsession'
  · obtain hretrying | ⟨index, hretrying⟩ := Option.eq_none_or_eq_some queue.retrying
    · rw [deliver_finishFile_ignored hstep hretrying hrunning]
      exact of_idle h.files h.aligned hstep hretrying hopen
    · obtain ⟨-, hempty, path, hpath, hresult⟩ := h.retrying index hretrying
      rw [deliver_finishFile_retried hretrying hempty (h.session hrunning) hpath hresult]
      refine of_idle h.files ?_ hstep rfl fun hrun => nomatch hrun
      rw [map_path_modify]
      exact h.aligned

omit h in
/-- A retry that starts: its file is open, or failed at once. -/
theorem deliver_start_retried {index : ℕ} {path : Text} (hresult : ∀ result ∈ queue.results[index]?, result.path = path)
    (failing : List FileOutcome) :
    deliver { queue with retrying := some index }
        (moveOn { paths := [path], results := [], running := true, index := none } failing) =
      match failing with
      | [] => { queue with retrying := some index, session := ⟨[path], [], true, some 0⟩ }
      | outcome :: _ =>
        { queue with
          results := queue.results.modify index fun before => ⟨outcome, before.path⟩
          retrying := none
          session := ⟨[path], [⟨outcome, path⟩], false, some 1⟩ } := by
  have hignored : ∀ session : FileTranscriptionSession,
      followsBatch { queue with retrying := some index, session := session } = false := fun _ =>
    followsBatch_of_retrying rfl
  cases failing with
  | nil =>
    rw [moveOn_nil (show _ = some path from rfl), deliver, List.foldl_cons, List.foldl_nil, handle, hignored,
      if_neg Bool.false_ne_true]
    rfl
  | cons outcome failing =>
    have hend : (recorded { paths := [path], results := [], running := true, index := none } outcome path).moveOn failing =
        (⟨[path], [⟨outcome, path⟩], false, some 1⟩, [.batchFinished [⟨outcome, path⟩] false]) := moveOn_end rfl
    rw [moveOn_cons (show _ = some path from rfl), hend, deliver, List.foldl_cons, handle, hignored, if_neg Bool.false_ne_true,
      List.foldl_cons, handle, hignored, if_neg Bool.false_ne_true, List.foldl_cons, List.foldl_nil]
    exact handle_retried rfl outcome hresult

omit h in
/-- A retry is refused, or runs the failed file at its index. -/
theorem retry_cases (queue : TranscribeQueue) (index : ℤ) (refusal : Text) (failing : List FileOutcome) :
    queue.retry index refusal failing = queue ∨
    (queue.retrying = none ∧ queue.retry index refusal failing = { queue with problem := refusal }) ∨
    ∃ result, 0 ≤ index ∧ queue.results[index.toNat]? = some result ∧ result.failed = true ∧ queue.retrying = none ∧
      queue.session.running = false ∧
      queue.retry index refusal failing = { deliver { queue with retrying := some index.toNat }
        (moveOn { paths := [result.path], results := [], running := true, index := none } failing) with problem := [] } := by
  rw [TranscribeQueue.retry]
  split
  · exact .inl rfl
  · rename_i result hresult
    split at hresult
    · cases hresult
    · rename_i hasked
      rw [Bool.or_eq_true, not_or, decide_eq_true_eq, not_lt] at hasked
      obtain ⟨hretrying, hindex⟩ := hasked
      have hnone : queue.retrying = none := by simpa using hretrying
      split
      · exact .inl rfl
      · rename_i hfailed
        split
        · refine .inr (.inl ⟨hnone, ?_⟩)
          rw [← hnone]
        · rename_i done hdone
          split_ifs at hdone
          rw [FileTranscriptionSession.start] at hdone
          split_ifs at hdone with hrefused
          obtain rfl := Option.some.inj hdone
          rw [Bool.or_eq_true, not_or] at hrefused
          exact .inr (.inr ⟨result, hindex, hresult, by simpa using hfailed, hnone, by simpa using hrefused.1, rfl⟩)

theorem retry (index : ℤ) (refusal : Text) (failing : List FileOutcome) :
    (queue.retry index refusal failing).Invariant := by
  have hproblem : ∀ (queue : TranscribeQueue), queue.Invariant → ∀ problem, Invariant { queue with problem := problem } :=
    fun queue h problem => ⟨h.files, h.aligned, fun hstep => have ⟨hfollows, hrest⟩ := h.following hstep
      ⟨⟨hfollows.step, hfollows.retrying, hfollows.results⟩, hrest⟩, h.retrying, h.session⟩
  obtain heq | ⟨-, heq⟩ | ⟨result, -, hresult, -, hretrying, hstopped, heq⟩ := retry_cases queue index refusal failing
  · rwa [heq]
  · rw [heq]
    exact hproblem queue h refusal
  · rw [heq]
    refine hproblem _ ?_ []
    have hpath : ∀ other ∈ queue.results[index.toNat]?, other.path = result.path := fun other hother => by
      rw [hresult] at hother
      rw [← Option.some.inj hother]
    obtain ⟨hstep, -⟩ := h.of_stopped hstopped
    rw [deliver_start_retried hpath]
    cases failing with
    | nil =>
      refine ⟨h.files, h.aligned, fun heq => absurd heq hstep, fun other hother => ?_, fun _ => ⟨rfl, List.nil_prefix, ?_⟩⟩
      · obtain rfl := Option.some.inj hother
        exact ⟨rfl, rfl, result.path, rfl, hpath⟩
      · exact Nat.zero_lt_one
    | cons outcome failing =>
      refine of_idle h.files ?_ hstep rfl fun hrun => nomatch hrun
      rw [map_path_modify]
      exact h.aligned

end Invariant

/-- One event keeps the invariant. -/
theorem Invariant.next (h : queue.Invariant) {event : Event} {queue' : TranscribeQueue}
    (hnext : queue.next event = some queue') : queue'.Invariant := by
  cases event with
  | addFiles disk paths => exact Option.some.inj hnext ▸ h.addFiles disk paths
  | removeFile path => exact Option.some.inj hnext ▸ h.withFiles (h.files.erase path)
  | start refusal lateRefusal failing => exact Option.some.inj hnext ▸ h.start refusal lateRefusal failing
  | cancel => exact Option.some.inj hnext ▸ h.cancel
  | backToSetup => exact Option.some.inj hnext ▸ h.backToSetup
  | retry index refusal failing => exact Option.some.inj hnext ▸ h.retry index refusal failing
  | markExported index =>
    refine Option.some.inj hnext ▸ ⟨h.files, h.aligned, fun hstep => ?_, h.retrying, h.session⟩
    obtain ⟨hfollows, hrest⟩ := h.following hstep
    exact ⟨⟨hfollows.step, hfollows.retrying, hfollows.results⟩, hrest⟩
  | fileEnds outcome failing =>
    rw [TranscribeQueue.next] at hnext
    split_ifs at hnext with hrunning
    exact Option.some.inj hnext ▸ h.fileEnds hrunning outcome failing

/-- **Each result belongs to the batch's file at its place**, and what is followed is what the session runs, in every
state reached. -/
theorem invariant (h : Reaches next (fun _ _ => True) {} queue) : queue.Invariant :=
  h.invariant
    (Invariant.of_idle List.nodup_nil List.nil_prefix (fun hstep => nomatch hstep) rfl fun hrun => nomatch hrun)
    fun _ _ _ _ h hnext => h.next hnext

/-! ## Results and their files -/

/-- A new batch is asked for. -/
def Event.startsBatch : Event → Bool
  | .start .. => true
  | _ => false

/-- One event while a retry is under way, other than the start of a batch. -/
theorem next_of_retrying (h : queue.Invariant) {index : ℕ} (hretrying : queue.retrying = some index)
    {event : Event} (hevent : event.startsBatch = false) {queue' : TranscribeQueue}
    (hnext : queue.next event = some queue') :
    queue'.retrying = some index ∧ queue'.results = queue.results ∨ queue'.retrying = none ∧
      (queue'.results = queue.results ∨
        ∃ outcome, queue'.results = queue.results.modify index fun before => ⟨outcome, before.path⟩) := by
  cases event with
  | addFiles disk paths =>
    obtain rfl := Option.some.inj hnext
    rw [addFiles]
    split
    · obtain ⟨hresults, -, -, hnone, -⟩ := h.backToSetup_spec
      exact .inr ⟨hnone, .inl hresults⟩
    · exact .inl ⟨hretrying, rfl⟩
  | removeFile path => exact Option.some.inj hnext ▸ .inl ⟨hretrying, rfl⟩
  | start => cases hevent
  | cancel =>
    obtain rfl := Option.some.inj hnext
    obtain ⟨hresults, -, -, hnone, -⟩ := h.cancel_spec
    exact .inr ⟨hnone, .inl hresults⟩
  | backToSetup =>
    obtain rfl := Option.some.inj hnext
    obtain ⟨hresults, -, -, hnone, -⟩ := h.backToSetup_spec
    exact .inr ⟨hnone, .inl hresults⟩
  | retry other refusal failing =>
    obtain rfl := Option.some.inj hnext
    obtain heq | ⟨hnone, -⟩ | ⟨_, _, _, _, hnone, _⟩ := Invariant.retry_cases queue other refusal failing
    · rw [heq]
      exact .inl ⟨hretrying, rfl⟩
    · rw [hretrying] at hnone
      cases hnone
    · rw [hretrying] at hnone
      cases hnone
  | markExported other => exact Option.some.inj hnext ▸ .inl ⟨hretrying, rfl⟩
  | fileEnds outcome failing =>
    rw [next] at hnext
    split_ifs at hnext with hrunning
    obtain rfl := Option.some.inj hnext
    obtain ⟨-, hempty, path, hpath, hresult⟩ := h.retrying index hretrying
    rw [deliver_finishFile_retried hretrying hempty (h.session hrunning) hpath hresult]
    exact .inr ⟨rfl, .inr ⟨outcome, rfl⟩⟩

/-- A run of a retry, up to its end. -/
theorem run_of_retrying (h : queue.Invariant) {index : ℕ} (hretrying : queue.retrying = some index)
    {queue' : TranscribeQueue}
    (hrun : Reaches next (fun s e => s.retrying = some index ∧ e.startsBatch = false) queue queue') :
    queue'.retrying = some index ∧ queue'.results = queue.results ∨ queue'.retrying = none ∧
      (queue'.results = queue.results ∨
        ∃ outcome, queue'.results = queue.results.modify index fun before => ⟨outcome, before.path⟩) := by
  refine (hrun.invariant (P := fun s => s.Invariant ∧ (s.retrying = some index ∧ s.results = queue.results ∨
    s.retrying = none ∧ (s.results = queue.results ∨
      ∃ outcome, s.results = queue.results.modify index fun before => ⟨outcome, before.path⟩)))
    ⟨h, .inl ⟨hretrying, rfl⟩⟩ ?_).2
  rintro s e s' ⟨hunder, hevent⟩ ⟨hs, hbefore⟩ hnext
  refine ⟨hs.next hnext, ?_⟩
  obtain ⟨-, hsame⟩ | ⟨hnone, -⟩ := hbefore
  · rw [← hsame]
    exact next_of_retrying hs hunder hevent hnext
  · rw [hunder] at hnone
    cases hnone

/-- What stands in the queue, and what a retry and going back to setup make of it. -/
structure ResultsAligned (queue : TranscribeQueue) : Prop where
  aligned : ∀ (i : ℕ) (hi : i < queue.results.length), ∃ hb : i < queue.batch.length, queue.results[i].path = queue.batch[i]
  files : queue.files.Nodup
  backToSetup : queue.backToSetup.files =
    queue.files.filter fun file => file ∉ queue.results.map TranscribeFileResult.path
  /-- A retry is refused, waits for its file or replaces its result at once. -/
  retry : ∀ (index : ℤ) (refusal : Text) (failing : List FileOutcome),
    (queue.retry index refusal failing).results = queue.results ∨
    ∃ result outcome, 0 ≤ index ∧ queue.results[index.toNat]? = some result ∧ result.failed = true ∧
      (queue.retry index refusal failing).results = queue.results.set index.toNat ⟨outcome, result.path⟩
  /-- While it waits no other result changes, and what ends it leaves them or replaces its own. -/
  retrying : ∀ index ∈ queue.retrying, ∀ queue',
    Reaches next (fun s e => s.retrying = some index ∧ e.startsBatch = false) queue queue' →
    queue'.results = queue.results ∨ queue'.retrying = none ∧
      ∃ outcome, queue'.results = queue.results.modify index fun before => ⟨outcome, before.path⟩
  /-- The file's end replaces it. -/
  ends : ∀ index ∈ queue.retrying, ∀ outcome failing, ∃ queue', queue.next (.fileEnds outcome failing) = some queue' ∧
    queue'.retrying = none ∧ queue'.results = queue.results.modify index fun before => ⟨outcome, before.path⟩

/-- **Results stay aligned with their files**, in every state reached. -/
theorem results_stay_aligned (h : Reaches next (fun _ _ => True) {} queue) : queue.ResultsAligned where
  aligned i hi := by
    have hprefix := (invariant h).aligned
    have hmap : i < (queue.results.map TranscribeFileResult.path).length := by rwa [List.length_map]
    refine ⟨hmap.trans_le hprefix.length_le, ?_⟩
    rw [← hprefix.getElem hmap, List.getElem_map]
  files := (invariant h).files
  backToSetup := (invariant h).backToSetup_spec.2.1
  retry index refusal failing := by
    obtain heq | ⟨-, heq⟩ | ⟨result, hindex, hresult, hfailed, -, -, heq⟩ :=
      Invariant.retry_cases queue index refusal failing
    · exact .inl (congrArg TranscribeQueue.results heq)
    · exact .inl ((congrArg TranscribeQueue.results heq).trans rfl)
    · have hpath : ∀ other ∈ queue.results[index.toNat]?, other.path = result.path := fun other hother => by
        rw [hresult] at hother
        rw [← Option.some.inj hother]
      rw [heq, Invariant.deliver_start_retried hpath]
      cases failing with
      | nil => exact .inl rfl
      | cons outcome failing =>
        exact .inr ⟨result, outcome, hindex, hresult, hfailed, (set_eq_modify outcome hpath).symm⟩
  retrying index hindex queue' hrun := by
    obtain ⟨-, hsame⟩ | ⟨hnone, hsame | hreplaced⟩ := run_of_retrying (invariant h) hindex hrun
    · exact .inl hsame
    · exact .inl hsame
    · exact .inr ⟨hnone, hreplaced⟩
  ends index hindex outcome failing := by
    obtain ⟨hrunning, hempty, path, hpath, hresult⟩ := (invariant h).retrying index hindex
    refine ⟨_, if_pos hrunning, ?_⟩
    rw [deliver_finishFile_retried hindex hempty ((invariant h).session hrunning) hpath hresult]
    exact ⟨rfl, rfl⟩

/-- Two files listed and run, the first of which fails, and the first run again. -/
def retriedRun : List Event :=
  [.addFiles ⟨id, fun _ => true⟩ ["a".toList, "b".toList, "a".toList], .start [] [] [⟨[], [], [], [], "no audio".toList⟩],
    .fileEnds ⟨"hi".toList, [], "Hi.".toList, [], []⟩ [], .retry 0 [] []]

/-- A retry under way in the first of two files. -/
theorem results_stay_aligned_retry : ∃ queue : TranscribeQueue, queue.ResultsAligned ∧ queue.retrying = some 0 ∧
    queue.results.map TranscribeFileResult.path = ["a".toList, "b".toList] := by
  have hrun : (Reaches.runs next (fun _ _ => True) {} retriedRun).any (fun queue => queue.retrying = some 0 ∧
      queue.results.map TranscribeFileResult.path = ["a".toList, "b".toList]) = true := by decide
  obtain ⟨queue, hqueue, hwith⟩ := (Option.any_eq_true ..).mp hrun
  exact ⟨queue, results_stay_aligned (.of_runs .start hqueue), of_decide_eq_true hwith⟩

end TranscribeQueue

end Speecher
