import Mathlib.Algebra.BigOperators.Group.List.Basic
import Mathlib.Algebra.Ring.Int.Defs
import Mathlib.Data.List.Dedup
import Mathlib.Data.List.Infix
import Mathlib.Data.List.TakeWhile
import Speecher.Foundations.Blocks
import Speecher.Foundations.History
import Speecher.Foundations.Machine

/-!
# Downloading a model through Ollama

`OllamaPull` posts a pull and reads the reply as it comes, one JSON object a line: progress of a layer, an error, or
success at the end. It adds up the newest byte counts of every layer, and reports the end once the reply is finished.
A handler of its signals may start another download or cancel this one.

The JSON of a line is a parameter, `decode`, and the network a source of moves: bytes arrive and are announced or not,
and a reply ends, with an error or without. Each reply has a number, and every entry of the log says which it is about.

* `readAll_eq` and `reported`: what a whole reply makes the object report, read off its lines.
* `Sound` is kept by every move, `sound_run`.
* **`pull_reports_once`**: where handlers of progress disturb no read, each download reports what its reply says, once,
  however the reply arrives, and nothing after it was cancelled or another was started.
-/

namespace Speecher.OllamaPull

/-! ## Lines -/

/-- What is read of a line's object. -/
structure Event where
  error : List Char := []
  status : List Char := []
  digest : List Char := []
  completed : ℤ := 0
  total : ℤ := 0
  deriving DecidableEq

/-- `QByteArray::trimmed`. -/
def isBlank (b : UInt8) : Bool := b = 0x20 || (0x09 ≤ b && b ≤ 0x0d)

def trimmed (line : List UInt8) : List UInt8 := ((line.dropWhile isBlank).reverse.dropWhile isBlank).reverse

structure Progress where
  completed : ℤ
  total : ℤ
  status : List Char
  deriving DecidableEq

/-- What is kept of the lines so far: `m_layers`, `m_succeeded` and `m_error`. -/
structure Reader where
  layers : List (List Char × ℤ × ℤ) := []
  succeeded : Bool := false
  error : List Char := []
  deriving DecidableEq

/-- `QHash::insert`. -/
def insertLayer (digest : List Char) (completed total : ℤ) (layers : List (List Char × ℤ × ℤ)) :
    List (List Char × ℤ × ℤ) := (digest, completed, total) :: layers.filter (·.1 ≠ digest)

def couldNot (error : List Char) : List Char := "Ollama could not download the model: ".toList ++ error

/-- A line's object, and the progress to report. -/
def readEvent (event : Event) (reader : Reader) : Reader × Option Progress :=
  if event.error ≠ [] then ({ reader with error := couldNot event.error }, none)
  else
    let layers := if event.digest ≠ [] then insertLayer event.digest event.completed event.total reader.layers
      else reader.layers
    ({ reader with layers := layers, succeeded := reader.succeeded || event.status = "success".toList },
      some ⟨(layers.map (·.2.1)).sum, (layers.map (·.2.2)).sum, event.status⟩)

variable (decode : List UInt8 → Event)

/-- The body of the loop of `readLines`. -/
def readLine (line : List UInt8) (reader : Reader) : Reader × Option Progress :=
  if trimmed line = [] then (reader, none) else readEvent (decode (trimmed line)) reader

/-- The line at the front of the buffer, and what follows its line break. -/
def cutLine (buffer : List UInt8) : Option (List UInt8 × List UInt8) :=
  match buffer.dropWhile (· ≠ 10) with
  | [] => none
  | _ :: rest => some (buffer.takeWhile (· ≠ 10), rest)

/-! ## What a reply says -/

/-- The objects of the lines that are not blank. -/
def eventsOf (lines : List (List UInt8)) : List Event := ((lines.map trimmed).filter (· ≠ [])).map decode

/-- The last of the events about a layer. -/
def newest (digest : List Char) (events : List Event) : Event :=
  (events.filter (·.digest = digest)).getLast?.getD {}

def digests (events : List Event) : List (List Char) := ((events.map (·.digest)).filter (· ≠ [])).dedup

/-- The newest byte counts of every layer, each once, and the status of the last event. -/
def progressAfter (events : List Event) : Progress where
  completed := ((digests events).map fun digest => (newest digest events).completed).sum
  total := ((digests events).map fun digest => (newest digest events).total).sum
  status := (events.getLast?.getD {}).status

/-- Every event but an error reports progress. -/
def progressReported (events : List Event) : List Progress :=
  (events.filter (·.error = [])).inits.tail.map progressAfter

def succeeds (events : List Event) : Bool := events.any fun event => event.error = [] && event.status = "success".toList

def lastError (events : List Event) : List Char :=
  match (events.filter (·.error ≠ [])).getLast? with
  | none => []
  | some event => couldNot event.error

/-! ## Reading lines -/

/-- The lines so far, and the progress reported. -/
def readAll (lines : List (List UInt8)) : Reader × List Progress :=
  lines.foldl (fun read line => ((readLine decode line read.1).1, read.2 ++ (readLine decode line read.1).2.toList))
    ({}, [])

@[simp] theorem readAll_nil : readAll decode [] = ({}, []) := rfl

theorem readAll_concat (lines : List (List UInt8)) (line : List UInt8) :
    readAll decode (lines ++ [line]) = ((readLine decode line (readAll decode lines).1).1,
      (readAll decode lines).2 ++ (readLine decode line (readAll decode lines).1).2.toList) := by
  rw [readAll, List.foldl_append]
  rfl

variable {decode} {events : List Event} {layers : List (List Char × ℤ × ℤ)}

theorem mem_digests {digest : List Char} : digest ∈ digests events ↔ digest ≠ [] ∧ ∃ e ∈ events, e.digest = digest := by
  simp only [digests, List.mem_dedup, List.mem_filter, List.mem_map, decide_eq_true_eq]
  exact and_comm

theorem newest_concat (digest : List Char) (events : List Event) (e : Event) :
    newest digest (events ++ [e]) = if e.digest = digest then e else newest digest events := by
  rw [newest, List.filter_append]
  by_cases h : e.digest = digest
  · simp [h]
  · simp [h, newest]

/-- The layers kept are those of the events, with their newest counts. -/
structure LayersOf (events : List Event) (layers : List (List Char × ℤ × ℤ)) : Prop where
  nodup : (layers.map Prod.fst).Nodup
  keys : ∀ digest, digest ∈ layers.map Prod.fst ↔ digest ∈ digests events
  counts : ∀ layer ∈ layers, layer.2 = ((newest layer.1 events).completed, (newest layer.1 events).total)

theorem LayersOf.nil : LayersOf [] [] := ⟨List.nodup_nil, fun _ => Iff.rfl, fun _ h => absurd h List.not_mem_nil⟩

/-- An event about no layer. -/
theorem LayersOf.skip (h : LayersOf events layers) {e : Event} (he : e.digest = []) :
    LayersOf (events ++ [e]) layers where
  nodup := h.nodup
  keys digest := by
    rw [h.keys, mem_digests, mem_digests]
    refine and_congr_right fun hne => ?_
    simp only [List.mem_append, List.mem_singleton, or_and_right, exists_or, exists_eq_left, he]
    exact (or_iff_left hne.symm).symm
  counts layer hlayer := by
    have hne := (mem_digests.mp ((h.keys layer.1).mp (List.mem_map_of_mem hlayer))).1
    rw [newest_concat, if_neg (by rw [he]; exact hne.symm)]
    exact h.counts layer hlayer

/-- An event about a layer takes the place of what was known of it. -/
theorem LayersOf.insert (h : LayersOf events layers) {e : Event} (he : e.digest ≠ []) :
    LayersOf (events ++ [e]) (insertLayer e.digest e.completed e.total layers) where
  nodup := by
    have hkept : ((layers.filter (·.1 ≠ e.digest)).map Prod.fst).Nodup :=
      h.nodup.sublist (List.filter_sublist.map _)
    refine List.nodup_cons.mpr ⟨fun hmem => ?_, hkept⟩
    obtain ⟨layer, hlayer, hkey⟩ := List.mem_map.mp hmem
    exact absurd hkey (by simpa using (List.mem_filter.mp hlayer).2)
  keys digest := by
    have hold := h.keys digest
    rw [mem_digests] at hold ⊢
    rw [insertLayer, List.map_cons, List.mem_cons]
    simp only [List.mem_append, List.mem_singleton, or_and_right, exists_or, exists_eq_left]
    by_cases hdigest : digest = e.digest
    · simp [hdigest, he]
    · have hkept : digest ∈ (layers.filter (·.1 ≠ e.digest)).map Prod.fst ↔ digest ∈ layers.map Prod.fst := by
        simp only [List.mem_map, List.mem_filter, decide_eq_true_eq]
        refine exists_congr fun layer => ⟨fun ⟨hmem, hkey⟩ => ⟨hmem.1, hkey⟩, fun ⟨hmem, hkey⟩ => ⟨⟨hmem, ?_⟩, hkey⟩⟩
        rwa [hkey]
      rw [hkept, hold, or_iff_right hdigest, or_iff_left (Ne.symm hdigest)]
  counts layer hlayer := by
    rcases List.mem_cons.mp hlayer with rfl | hlayer
    · rw [newest_concat, if_pos rfl]
    · obtain ⟨hmem, hkey⟩ := List.mem_filter.mp hlayer
      rw [newest_concat, if_neg (Ne.symm (by simpa using hkey))]
      exact h.counts layer hmem

/-- Every layer's newest count is added once. -/
theorem LayersOf.sum_eq (h : LayersOf events layers) (count : List Char × ℤ × ℤ → ℤ) (newestCount : Event → ℤ)
    (hcount : ∀ layer ∈ layers, count layer = newestCount (newest layer.1 events)) :
    (layers.map count).sum = ((digests events).map fun digest => newestCount (newest digest events)).sum := by
  have hmap : layers.map count = (layers.map Prod.fst).map fun digest => newestCount (newest digest events) := by
    rw [List.map_map]
    exact List.map_congr_left hcount
  have hperm : (layers.map Prod.fst).Perm (digests events) :=
    (List.perm_ext_iff_of_nodup h.nodup (List.nodup_dedup _)).mpr h.keys
  rw [hmap]
  exact (hperm.map _).sum_eq

theorem LayersOf.progress (h : LayersOf events layers) (e : Event) (hlast : events.getLast? = some e) :
    (⟨(layers.map (·.2.1)).sum, (layers.map (·.2.2)).sum, e.status⟩ : Progress) = progressAfter events := by
  have hcompleted := h.sum_eq (·.2.1) (·.completed) fun layer hlayer => by rw [h.counts layer hlayer]
  have htotal := h.sum_eq (·.2.2) (·.total) fun layer hlayer => by rw [h.counts layer hlayer]
  rw [hcompleted, htotal, progressAfter, hlast]
  rfl

theorem eventsOf_concat (lines : List (List UInt8)) (line : List UInt8) :
    eventsOf decode (lines ++ [line]) =
      eventsOf decode lines ++ if trimmed line = [] then [] else [decode (trimmed line)] := by
  simp only [eventsOf, List.map_append, List.filter_append, List.map_cons, List.map_nil]
  split_ifs with h <;> simp [h]

theorem progressReported_concat (events : List Event) (e : Event) :
    progressReported (events ++ [e]) = progressReported events ++
      if e.error = [] then [progressAfter (events.filter (·.error = []) ++ [e])] else [] := by
  rw [progressReported, progressReported, List.filter_append]
  split_ifs with h
  · have hone : [e].filter (·.error = []) = [e] := by simp [h]
    obtain ⟨first, rest, hinits⟩ : ∃ first rest, (events.filter (·.error = [])).inits = first :: rest := by
      cases events.filter (·.error = []) with
      | nil => exact ⟨_, _, rfl⟩
      | cons a l => exact ⟨_, _, List.inits_cons a l⟩
    rw [hone, List.inits_append, hinits]
    simp
  · simp [h]

theorem succeeds_concat (events : List Event) (e : Event) :
    succeeds (events ++ [e]) = (succeeds events || (e.error = [] && e.status = "success".toList)) := by
  simp [succeeds]

theorem lastError_concat (events : List Event) (e : Event) :
    lastError (events ++ [e]) = if e.error = [] then lastError events else couldNot e.error := by
  rw [lastError, lastError, List.filter_append]
  split_ifs with h <;> simp [h]

/-- An event about a layer, or about none. -/
theorem LayersOf.next (h : LayersOf events layers) (e : Event) :
    LayersOf (events ++ [e])
      (if e.digest ≠ [] then insertLayer e.digest e.completed e.total layers else layers) := by
  split_ifs with he
  · exact h.insert he
  · exact h.skip (not_not.mp he)

/-- **What the lines so far leave** is what their events say. -/
theorem readAll_eq (lines : List (List UInt8)) :
    LayersOf ((eventsOf decode lines).filter (·.error = [])) (readAll decode lines).1.layers ∧
      (readAll decode lines).1.succeeded = succeeds (eventsOf decode lines) ∧
      (readAll decode lines).1.error = lastError (eventsOf decode lines) ∧
      (readAll decode lines).2 = progressReported (eventsOf decode lines) := by
  induction lines using List.reverseRecOn with
  | nil => exact ⟨LayersOf.nil, rfl, rfl, rfl⟩
  | append_singleton lines line ih =>
    obtain ⟨hlayers, hsucceeded, herror, hprogress⟩ := ih
    rw [readAll_concat, eventsOf_concat, readLine]
    by_cases hblank : trimmed line = []
    · rw [if_pos hblank, if_pos hblank, List.append_nil]
      exact ⟨hlayers, hsucceeded, herror, (List.append_nil _).trans hprogress⟩
    rw [if_neg hblank, if_neg hblank, readEvent, succeeds_concat, lastError_concat, progressReported_concat,
      List.filter_append]
    by_cases hfailed : (decode (trimmed line)).error = []
    · have hnext := hlayers.next (decode (trimmed line))
      rw [if_neg (not_not.mpr hfailed), if_pos hfailed, if_pos hfailed]
      simp only [List.filter_cons, List.filter_nil, hfailed, decide_true, if_true, Bool.true_and]
      refine ⟨hnext, by rw [hsucceeded], herror, ?_⟩
      rw [hprogress]
      exact congrArg (fun p => progressReported (eventsOf decode lines) ++ [p])
        (hnext.progress _ (List.getLast?_concat ..))
    · rw [if_pos hfailed, if_neg hfailed, if_neg hfailed]
      simp only [List.filter_cons, List.filter_nil, hfailed, decide_false, Bool.false_eq_true, if_false,
        List.append_nil, Bool.false_and, Bool.or_false]
      exact ⟨hlayers, hsucceeded, trivial, (List.append_nil _).trans hprogress⟩

/-! ## The object -/

/-- What is posted: the address and the model. -/
structure Request where
  url : List Char
  model : List Char
  deriving DecidableEq

/-- What happened to a download, by its reply. -/
inductive Told
  | started (reply : ℕ) (request : Request)
  /-- Its reply was let go, by a cancel or a start. -/
  | cancelled (reply : ℕ)
  | progress (reply : ℕ) (progress : Progress)
  | finished (reply : ℕ)
  | failed (reply : ℕ) (message : List Char)
  deriving DecidableEq

namespace Told

def about : Told → ℕ
  | started reply _ | cancelled reply | progress reply _ | finished reply | failed reply _ => reply

/-- The download is over, cancelled or not. -/
def ends : Told → Bool
  | started _ _ | progress _ _ => false
  | cancelled _ | finished _ | failed _ _ => true

def startedReply : Told → Option ℕ
  | started reply _ => some reply
  | _ => none

end Told

structure Pull where
  /-- `m_reply`. -/
  reply : Option ℕ := none
  buffer : List UInt8 := []
  reader : Reader := {}
  /-- The replies there have been. -/
  next : ℕ := 0
  /-- What a reply holds that was not read yet. -/
  incoming : ℕ → List UInt8 := fun _ => []
  /-- All that came of a reply. -/
  stream : ℕ → List UInt8 := fun _ => []
  /-- A finished reply, with its error if it has one. -/
  ended : ℕ → Option (Option (List Char)) := fun _ => none
  log : List Told := []

namespace Pull

def told (entry : Told) (s : Pull) : Pull := { s with log := s.log ++ [entry] }

/-- `cancel`. The reply's abort finishes it there and then; its handler finds another `m_reply` and does nothing. -/
def cancel (s : Pull) : Pull :=
  match s.reply with
  | none => s
  | some reply =>
    { s with
      reply := none
      ended := if s.ended reply = none then Function.update s.ended reply (some (some "Operation canceled".toList))
        else s.ended
      log := s.log ++ [.cancelled reply] }

/-- `start`, after its `cancel`. -/
def begin (request : Request) (s : Pull) : Pull :=
  { s with
    reply := some s.next, buffer := [], reader := {}, next := s.next + 1
    log := s.log ++ [.started s.next request] }

/-- What was not read yet of a reply goes into the buffer. -/
def takeIn (reply : ℕ) (s : Pull) : Pull :=
  { s with buffer := s.buffer ++ s.incoming reply, incoming := Function.update s.incoming reply [] }

def receive (reply : ℕ) (bytes : List UInt8) (s : Pull) : Pull :=
  { s with
    incoming := Function.update s.incoming reply (s.incoming reply ++ bytes)
    stream := Function.update s.stream reply (s.stream reply ++ bytes) }

end Pull

/-- How a download ends, once its reply is finished. -/
def endReported (reply : ℕ) (succeeded : Bool) (error : List Char) (outcome : Option (List Char)) : Told :=
  if succeeded then .finished reply
  else if error ≠ [] then .failed reply error
  else
    .failed reply (match outcome with
      | none => "Ollama stopped before the download finished.".toList
      | some text => "Could not download through Ollama: ".toList ++ text)

inductive Instr
  | start (request : Request)
  | cancel
  /-- Bytes of a reply arrived, so far unannounced. -/
  | received (reply : ℕ) (bytes : List UInt8)
  /-- `QNetworkReply::readyRead`. -/
  | readyRead (reply : ℕ)
  /-- `QNetworkReply::finished`. -/
  | ended (reply : ℕ) (error : Option (List Char))
  /-- `readLines`, from either handler of a reply. -/
  | readLines (reply : ℕ) (last : Bool)
  /-- Its loop. -/
  | lines (reply : ℕ) (last : Bool)
  /-- The handlers of `progress`. -/
  | progressHandlers (reply : ℕ) (last : Bool)
  /-- The handler of a finished reply, after its last read. -/
  | conclude (reply : ℕ)
  /-- The handlers of `finished` and `failed`. -/
  | endHandlers
  deriving DecidableEq

variable (decode)

def exec : Unit → Instr → Pull → Pull × List Instr
  | (), .start request, s => (s.cancel.begin request, [])
  | (), .cancel, s => (s.cancel, [])
  | (), .received reply bytes, s => (s.receive reply bytes, [])
  | (), .readyRead reply, s => (s, if s.reply = some reply then [.readLines reply false] else [])
  | (), .ended reply error, s =>
    if s.reply = some reply then
      ({ s with ended := Function.update s.ended reply (some error), buffer := s.buffer ++ s.incoming reply ++ [10],
                incoming := Function.update s.incoming reply [] }, [.readLines reply true])
    else ({ s with ended := Function.update s.ended reply (some error) }, [])
  | (), .readLines reply last, s =>
    (match s.reply with
      | none => s
      | some current => s.takeIn current, [.lines reply last])
  | (), .lines reply last, s =>
    match cutLine s.buffer with
    | none => (s, if last then [.conclude reply] else [])
    | some (line, rest) =>
      match readLine decode line s.reader with
      | (reader, none) => ({ s with buffer := rest, reader := reader }, [.lines reply last])
      | (reader, some progress) =>
        ({ s with buffer := rest, reader := reader, log := s.log ++ [.progress reply progress] },
          [.progressHandlers reply last])
  | (), .progressHandlers reply last, s => (s, [.lines reply last])
  | (), .conclude reply, s =>
    ({ s with
        reply := none
        log := s.log ++ [endReported reply s.reader.succeeded s.reader.error ((s.ended reply).getD none)] },
      [.endHandlers])
  | (), .endHandlers, s => (s, [])

def machine : Machine Pull Instr Unit where
  exec := exec decode
  yields
    | .progressHandlers _ _ | .endHandlers => true
    | _ => false
  enters _
    | .start _ | .cancel => true
    | _ => false
  wakes s
    | .received reply _ | .readyRead reply | .ended reply _ => reply < s.next && s.ended reply = none
    | _ => false

/-- No line of the buffer reports progress. -/
def Quiet (buffer : List UInt8) : Prop :=
  ∀ line ∈ (buffer.splitOn 10).dropLast, trimmed line = [] ∨ (decode (trimmed line)).error ≠ []

/-- When the handlers of a progress return, their download runs on, or it is not in its last read and no line of the
buffer reports progress. -/
def Undisturbed (c : Config Pull Instr) : Move Instr Unit → Prop
  | .run () =>
    match c.code with
    | .progressHandlers reply last :: _ => c.state.reply = some reply ∨ last = false ∧ Quiet decode c.state.buffer
    | _ => True
  | _ => True

instance (buffer : List UInt8) : Decidable (Quiet decode buffer) :=
  inferInstanceAs (Decidable (∀ line ∈ (buffer.splitOn 10).dropLast, _))

instance (c : Config Pull Instr) : ∀ mv, Decidable (Undisturbed decode c mv)
  | .run () =>
    match h : c.code with
    | .progressHandlers reply last :: _ =>
      decidable_of_iff (c.state.reply = some reply ∨ last = false ∧ Quiet decode c.state.buffer) (by
        rw [Undisturbed, h])
    | [] | .start _ :: _ | .cancel :: _ | .received _ _ :: _ | .readyRead _ :: _ | .ended _ _ :: _
    | .readLines _ _ :: _ | .lines _ _ :: _ | .conclude _ :: _ | .endHandlers :: _ =>
      .isTrue (by rw [Undisturbed, h]; trivial)
  | .enter _ | .wake _ => .isTrue trivial

/-! ## What every run keeps -/

/-- The entries about a download. -/
def ofReply (reply : ℕ) (log : List Told) : List Told := log.filter (·.about = reply)

/-- What a finished reply makes the object report. -/
def reported (reply : ℕ) (stream : List UInt8) (outcome : Option (List Char)) : List Told :=
  (progressReported (eventsOf decode (stream.splitOn 10))).map (.progress reply) ++
    [endReported reply (succeeds (eventsOf decode (stream.splitOn 10)))
      (lastError (eventsOf decode (stream.splitOn 10))) outcome]

def lastStarted (log : List Told) : Option ℕ := (log.filterMap Told.startedReply).getLast?

/-- Nothing is told of a download that is over, and nothing but of the one started last. -/
def Orderly (before : List Told) (entry : Told) : Prop :=
  (∀ t ∈ before, t.about = entry.about → t.ends = false) ∧
    (entry.startedReply = none → lastStarted before = some entry.about)

/-- The lines read so far of the download in hand, and what is left of its reply. -/
def Reading (reply : ℕ) (s : Pull) : Prop :=
  ∃ lines, (∀ line ∈ lines, 10 ∉ line) ∧ s.reader = (readAll decode lines).1 ∧
    (∃ request, ofReply reply s.log = .started reply request :: (readAll decode lines).2.map (.progress reply)) ∧
    if (s.ended reply).isSome then
      s.stream reply ++ [10] = lines.flatMap (· ++ [10]) ++ s.buffer ∧ s.incoming reply = []
    else s.stream reply = lines.flatMap (· ++ [10]) ++ (s.buffer ++ s.incoming reply)

/-- A download that is not in hand any more was cancelled, or reported what its reply says. -/
def Past (reply : ℕ) (s : Pull) : Prop :=
  .cancelled reply ∈ s.log ∨ ∃ outcome request, s.ended reply = some outcome ∧
    ofReply reply s.log = .started reply request :: reported decode reply (s.stream reply) outcome

structure Sound (s : Pull) : Prop where
  order : Each Orderly s.log
  current : ∀ reply, s.reply = some reply →
    reply < s.next ∧ lastStarted s.log = some reply ∧ Reading decode reply s
  past : ∀ reply < s.next, s.reply ≠ some reply → Past decode reply s
  fresh : ∀ reply, s.next ≤ reply →
    ofReply reply s.log = [] ∧ s.ended reply = none ∧ s.incoming reply = [] ∧ s.stream reply = []

variable {decode} {s s' : Pull} {reply other : ℕ}

theorem ofReply_other {entry : Told} (h : entry.about ≠ reply) (log : List Told) :
    ofReply reply (log ++ [entry]) = ofReply reply log := by
  simp [ofReply, h]

theorem ofReply_same {entry : Told} (h : entry.about = reply) (log : List Told) :
    ofReply reply (log ++ [entry]) = ofReply reply log ++ [entry] := by
  simp [ofReply, h]

theorem lastStarted_started (log : List Told) (reply : ℕ) (request : Request) :
    lastStarted (log ++ [.started reply request]) = some reply := by
  simp [lastStarted, Told.startedReply]

theorem lastStarted_other {entry : Told} (h : entry.startedReply = none) (log : List Told) :
    lastStarted (log ++ [entry]) = lastStarted log := by
  simp [lastStarted, h]

/-- A download in hand is not over. -/
theorem Reading.goes_on (h : Reading decode reply s) : ∀ t ∈ s.log, t.about = reply → t.ends = false := by
  obtain ⟨lines, -, -, ⟨request, hlog⟩, -⟩ := h
  intro t ht habout
  have hmem : t ∈ ofReply reply s.log := List.mem_filter.mpr ⟨ht, by simpa using habout⟩
  rw [hlog] at hmem
  rcases List.mem_cons.mp hmem with rfl | hmem
  · rfl
  · obtain ⟨p, -, rfl⟩ := List.mem_map.mp hmem
    rfl

/-- What is told of the download in hand is orderly. -/
theorem Sound.orderly (h : Sound decode s) (hreply : s.reply = some reply) {entry : Told}
    (habout : entry.about = reply) : Each Orderly (s.log ++ [entry]) := by
  obtain ⟨-, hlast, hreading⟩ := h.current reply hreply
  exact h.order.snoc ⟨fun t ht hsame => hreading.goes_on t ht (hsame.trans habout), fun _ => habout ▸ hlast⟩

/-- What happens to one download leaves the others where they were. -/
theorem Past.frame (h : Past decode other s) (hlog : ofReply other s'.log = ofReply other s.log)
    (hended : s'.ended other = s.ended other) (hstream : s'.stream other = s.stream other) : Past decode other s' := by
  rcases h with hcancelled | ⟨outcome, request, hout, htold⟩
  · have hmem : Told.cancelled other ∈ ofReply other s.log := List.mem_filter.mpr ⟨hcancelled, by simp [Told.about]⟩
    exact .inl (List.mem_filter.mp (hlog ▸ hmem)).1
  · exact .inr ⟨outcome, request, hended.trans hout, by rw [hlog, hstream, htold]⟩

theorem cancel_none (h : s.reply = none) : s.cancel = s := by
  rw [Pull.cancel, h]

theorem cancel_some (h : s.reply = some reply) : s.cancel =
    { s with
      reply := none
      ended := if s.ended reply = none then Function.update s.ended reply (some (some "Operation canceled".toList))
        else s.ended
      log := s.log ++ [.cancelled reply] } := by
  rw [Pull.cancel, h]

theorem cancel_reply (s : Pull) : s.cancel.reply = none ∧ s.cancel.next = s.next := by
  rcases hreply : s.reply with _ | reply
  · rw [cancel_none hreply]
    exact ⟨hreply, rfl⟩
  · rw [cancel_some hreply]
    exact ⟨rfl, rfl⟩

/-- What a cancel does to the other replies. -/
theorem ended_cancel (h : s.reply = some reply) (hne : other ≠ reply) : s.cancel.ended other = s.ended other := by
  rw [cancel_some h]
  dsimp only
  split_ifs
  · exact Function.update_of_ne hne ..
  · rfl

theorem Sound.cancel (h : Sound decode s) : Sound decode s.cancel := by
  rcases hreply : s.reply with _ | reply
  · rwa [cancel_none hreply]
  obtain ⟨hlt, -, -⟩ := h.current reply hreply
  have hlog : s.cancel.log = s.log ++ [.cancelled reply] := by rw [cancel_some hreply]
  have hstream : s.cancel.stream = s.stream ∧ s.cancel.incoming = s.incoming := by
    rw [cancel_some hreply]
    exact ⟨rfl, rfl⟩
  refine ⟨by rw [hlog]; exact h.orderly hreply rfl, fun q hq => ?_, fun q hq _ => ?_, fun q hq => ?_⟩
  · rw [(cancel_reply s).1] at hq
    cases hq
  · rw [(cancel_reply s).2] at hq
    by_cases hqr : q = reply
    · exact .inl (by rw [hlog, hqr]; simp)
    · refine (h.past q hq (by rw [hreply]; simpa using Ne.symm hqr)).frame ?_ (ended_cancel hreply hqr) ?_
      · rw [hlog]
        exact ofReply_other (Ne.symm hqr) _
      · rw [hstream.1]
  · rw [(cancel_reply s).2] at hq
    have hqr : q ≠ reply := fun heq => absurd hq (by omega)
    rw [hlog, ofReply_other (Ne.symm hqr), ended_cancel hreply hqr, hstream.1, hstream.2]
    exact h.fresh q hq

theorem Sound.begin (h : Sound decode s) (hnone : s.reply = none) (request : Request) :
    Sound decode (s.begin request) := by
  obtain ⟨hlog, hended, hincoming, hstream⟩ := h.fresh s.next (Nat.le_refl _)
  have hnew : ∀ t ∈ s.log, t.about ≠ s.next := by
    intro t ht habout
    have hmem : t ∈ ofReply s.next s.log := List.mem_filter.mpr ⟨ht, by simpa using habout⟩
    rw [hlog] at hmem
    cases hmem
  refine ⟨h.order.snoc ⟨fun t ht hsame => absurd hsame (hnew t ht), fun hne => by cases hne⟩, fun q hq => ?_,
    fun q hq hne => ?_, fun q hq => ?_⟩
  · obtain rfl := Option.some.inj hq
    refine ⟨Nat.lt_succ_self _, lastStarted_started .., [], by simp, rfl, ⟨request, ?_⟩, ?_⟩
    · have habout : (Told.started s.next request).about = s.next := rfl
      show ofReply s.next (s.log ++ [.started s.next request]) = _
      rw [ofReply_same habout, hlog]
      rfl
    · have : ((s.begin request).ended s.next).isSome = false := by simp [Pull.begin, hended]
      rw [this]
      simp [Pull.begin, hstream, hincoming]
  · have hqn : q ≠ s.next := fun heq => hne (by simp [Pull.begin, heq])
    have hlt : q < s.next := by
      have : q < s.next + 1 := hq
      omega
    exact (h.past q hlt (by rw [hnone]; exact (Option.some_ne_none q).symm)).frame
      (ofReply_other (Ne.symm hqn) _) rfl rfl
  · have hle : s.next + 1 ≤ q := hq
    obtain ⟨hlog', hrest⟩ := h.fresh q (by omega)
    exact ⟨(ofReply_other (by show s.next ≠ q; omega) _).trans hlog', hrest⟩

/-- The log and the replies that are not in hand stay. -/
theorem Sound.same_log (h : Sound decode s) (hlog : s'.log = s.log) (hreply : s'.reply = s.reply)
    (hnext : s'.next = s.next) (hreading : ∀ q, s.reply = some q → Reading decode q s')
    (hpast : ∀ q < s.next, s.reply ≠ some q → Past decode q s')
    (hfresh : ∀ q, s.next ≤ q → s'.ended q = none ∧ s'.incoming q = [] ∧ s'.stream q = []) : Sound decode s' where
  order := hlog ▸ h.order
  current q hq := by
    rw [hreply] at hq
    obtain ⟨hlt, hlast, -⟩ := h.current q hq
    exact ⟨hnext ▸ hlt, hlog ▸ hlast, hreading q hq⟩
  past q hq hne := hpast q (hnext ▸ hq) (hreply ▸ hne)
  fresh q hq := ⟨hlog ▸ (h.fresh q (hnext ▸ hq)).1, hfresh q (hnext ▸ hq)⟩

theorem Sound.receive (h : Sound decode s) (hlt : reply < s.next) (hended : s.ended reply = none) (bytes : List UInt8) :
    Sound decode (s.receive reply bytes) := by
  refine h.same_log rfl rfl rfl (fun q hq => ?_) (fun q hq hne => ?_) fun q hq => ?_
  · obtain ⟨-, -, lines, hlines, hreader, htold, hstream⟩ := h.current q hq
    refine ⟨lines, hlines, hreader, htold, ?_⟩
    by_cases hqr : q = reply
    · subst hqr
      rw [hended] at hstream
      simp only [Pull.receive, hended, Option.isSome_none, Bool.false_eq_true, if_false,
        Function.update_self] at hstream ⊢
      rw [hstream]
      simp only [List.append_assoc]
    · simpa only [Pull.receive, Function.update_of_ne hqr] using hstream
  · by_cases hqr : q = reply
    · subst hqr
      rcases h.past q hq hne with hcancelled | ⟨outcome, request, hout, -⟩
      · exact .inl hcancelled
      · rw [hended] at hout
        cases hout
    · exact (h.past q hq hne).frame rfl rfl (Function.update_of_ne hqr ..)
  · obtain ⟨-, hq', hincoming, hstream⟩ := h.fresh q hq
    have hqr : q ≠ reply := fun heq => absurd hq (by omega)
    exact ⟨hq', (Function.update_of_ne hqr ..).trans hincoming, (Function.update_of_ne hqr ..).trans hstream⟩

/-- What was not read yet is read. -/
theorem Sound.takeIn (h : Sound decode s) (hreply : s.reply = some reply) : Sound decode (s.takeIn reply) := by
  refine h.same_log rfl rfl rfl (fun q hq => ?_) (fun q hq hne => ?_) fun q hq => ?_
  · obtain rfl := Option.some.inj (hreply.symm.trans hq)
    obtain ⟨-, -, lines, hlines, hreader, htold, hstream⟩ := h.current _ hreply
    refine ⟨lines, hlines, hreader, htold, ?_⟩
    simp only [Pull.takeIn, Function.update_self]
    split_ifs at hstream with hended
    · rw [if_pos hended, hstream.2, List.append_nil]
      exact ⟨hstream.1, trivial⟩
    · rw [if_neg hended, List.append_nil, ← hstream]
  · exact (h.past q hq hne).frame rfl rfl rfl
  · obtain ⟨-, hended, hincoming, hstream⟩ := h.fresh q hq
    have hqr : q ≠ reply := fun heq => absurd hq (by have := (h.current _ hreply).1; omega)
    exact ⟨hended, (Function.update_of_ne hqr ..).trans hincoming, hstream⟩

/-- A reply finishes that is not in hand. -/
theorem Sound.ended_other (h : Sound decode s) (hlt : reply < s.next) (hended : s.ended reply = none)
    (hne : s.reply ≠ some reply) (outcome : Option (List Char)) :
    Sound decode { s with ended := Function.update s.ended reply (some outcome) } := by
  refine h.same_log rfl rfl rfl (fun q hq => ?_) (fun q hq hne' => ?_) fun q hq => ?_
  · have hqr : q ≠ reply := fun heq => hne (heq ▸ hq)
    obtain ⟨-, -, lines, hlines, hreader, htold, hstream⟩ := h.current q hq
    exact ⟨lines, hlines, hreader, htold, by simpa only [Function.update_of_ne hqr] using hstream⟩
  · by_cases hqr : q = reply
    · subst hqr
      rcases h.past q hq hne' with hcancelled | ⟨outcome', request, hout, -⟩
      · exact .inl hcancelled
      · rw [hended] at hout
        cases hout
    · exact (h.past q hq hne').frame rfl (Function.update_of_ne hqr ..) rfl
  · obtain ⟨-, hended', hrest⟩ := h.fresh q hq
    have hqr : q ≠ reply := fun heq => absurd hq (by omega)
    exact ⟨(Function.update_of_ne hqr ..).trans hended', hrest⟩

/-- The reply in hand finishes: what is left of it goes into the buffer, and a line break after it. -/
theorem Sound.ended_current (h : Sound decode s) (hended : s.ended reply = none) (hreply : s.reply = some reply)
    (outcome : Option (List Char)) :
    Sound decode { s with
      ended := Function.update s.ended reply (some outcome), buffer := s.buffer ++ s.incoming reply ++ [10]
      incoming := Function.update s.incoming reply [] } := by
  refine h.same_log rfl rfl rfl (fun q hq => ?_) (fun q hq hne => ?_) fun q hq => ?_
  · obtain rfl := Option.some.inj (hreply.symm.trans hq)
    obtain ⟨-, -, lines, hlines, hreader, htold, hstream⟩ := h.current _ hreply
    refine ⟨lines, hlines, hreader, htold, ?_⟩
    rw [hended] at hstream
    simp only [Option.isSome_none, Bool.false_eq_true, if_false] at hstream
    simp only [Function.update_self, Option.isSome_some, if_true, hstream, List.append_assoc, and_self]
  · have hqr : q ≠ reply := fun heq => hne (heq ▸ hreply)
    exact (h.past q hq hne).frame rfl (Function.update_of_ne hqr ..) rfl
  · obtain ⟨-, hended', hincoming, hstream⟩ := h.fresh q hq
    have hqr : q ≠ reply := fun heq => absurd hq (by have := (h.current _ hreply).1; omega)
    exact ⟨(Function.update_of_ne hqr ..).trans hended', (Function.update_of_ne hqr ..).trans hincoming, hstream⟩

theorem cutLine_none {buffer : List UInt8} (h : cutLine buffer = none) : 10 ∉ buffer := by
  rw [cutLine] at h
  split at h
  · rename_i hdrop
    intro hmem
    exact absurd (List.dropWhile_eq_nil_iff.mp hdrop 10 hmem) (by decide)
  · cases h

theorem cutLine_some {buffer line rest : List UInt8} (h : cutLine buffer = some (line, rest)) :
    buffer = line ++ 10 :: rest ∧ 10 ∉ line := by
  rw [cutLine] at h
  split at h
  · cases h
  · rename_i b more hdrop
    obtain ⟨rfl, rfl⟩ := Prod.mk.inj (Option.some.inj h)
    have hb : b = 10 := by
      have hhead := List.head?_dropWhile_not (p := fun b : UInt8 => decide (b ≠ 10)) (l := buffer)
      rw [hdrop] at hhead
      simpa using hhead
    have hwhole := List.takeWhile_append_dropWhile (p := fun b : UInt8 => decide (b ≠ 10)) (l := buffer)
    rw [hdrop, hb] at hwhole
    exact ⟨hwhole.symm, fun hmem => absurd (List.mem_takeWhile_imp hmem) (by decide)⟩

/-- **A line is read** of the reply in hand. -/
theorem Sound.line (h : Sound decode s) (hreply : s.reply = some reply) {line rest : List UInt8}
    (hbuffer : s.buffer = line ++ 10 :: rest) (hline : 10 ∉ line) :
    Sound decode { s with
      buffer := rest, reader := (readLine decode line s.reader).1
      log := s.log ++ (readLine decode line s.reader).2.toList.map (.progress reply) } := by
  obtain ⟨hlt, hlast, lines, hlines, hreader, ⟨request, htold⟩, hstream⟩ := h.current _ hreply
  have hread : Reading decode reply { s with
      buffer := rest, reader := (readLine decode line s.reader).1
      log := s.log ++ (readLine decode line s.reader).2.toList.map (.progress reply) } := by
    refine ⟨lines ++ [line], ?_, ?_, ⟨request, ?_⟩, ?_⟩
    · intro other hother
      rcases List.mem_append.mp hother with hother | hother
      · exact hlines other hother
      · rwa [List.mem_singleton.mp hother]
    · rw [readAll_concat, hreader]
    · rw [readAll_concat, List.map_append, ← List.cons_append, ← htold, ← hreader]
      cases (readLine decode line s.reader).2 with
      | none => simp
      | some p =>
        have habout : (Told.progress reply p).about = reply := rfl
        exact ofReply_same habout s.log
    · simp only [List.flatMap_append, List.flatMap_cons, List.flatMap_nil, List.append_nil]
      split_ifs at hstream ⊢ with hended
      · exact ⟨by rw [hstream.1, hbuffer]; simp, hstream.2⟩
      · rw [hstream, hbuffer]
        simp
  cases hp : (readLine decode line s.reader).2 with
  | none =>
    rw [hp] at hread
    simp only [Option.toList_none, List.map_nil, List.append_nil] at hread ⊢
    refine h.same_log rfl rfl rfl (fun q hq => ?_) (fun q hq hne => (h.past q hq hne).frame rfl rfl rfl)
      fun q hq => (h.fresh q hq).2
    obtain rfl := Option.some.inj (hreply.symm.trans hq)
    exact hread
  | some p =>
    rw [hp] at hread
    refine ⟨h.orderly hreply rfl, fun q hq => ?_, fun q hq hne => ?_, fun q hq => ?_⟩
    · obtain rfl := Option.some.inj (hreply.symm.trans hq)
      exact ⟨hlt, (lastStarted_other rfl _).trans hlast, hread⟩
    · have hqr : (Told.progress reply p).about ≠ q := fun heq => hne (hreply.trans (congrArg some heq))
      exact (h.past q hq hne).frame (ofReply_other hqr _) rfl rfl
    · have hle : s.next ≤ q := hq
      have hqr : (Told.progress reply p).about ≠ q := by
        show reply ≠ q
        omega
      obtain ⟨hlog, hrest⟩ := h.fresh q hq
      exact ⟨(ofReply_other hqr _).trans hlog, hrest⟩

/-- What is left of a download that was let go changes nothing. -/
theorem Sound.leftover (h : Sound decode s) (hnone : s.reply = none) (buffer : List UInt8) (reader : Reader) :
    Sound decode { s with buffer := buffer, reader := reader } :=
  h.same_log rfl rfl rfl (fun q hq => by rw [hnone] at hq; cases hq)
    (fun q hq hne => (h.past q hq hne).frame rfl rfl rfl) fun q hq => (h.fresh q hq).2

/-- The lines read of a whole reply are its lines. -/
theorem splitOn_stream {stream buffer : List UInt8} {lines : List (List UInt8)} (hlines : ∀ line ∈ lines, 10 ∉ line)
    (hbuffer : 10 ∉ buffer) (h : stream ++ [10] = lines.flatMap (· ++ [10]) ++ buffer) :
    stream.splitOn 10 = lines := by
  have hsplit := congrArg (List.splitOn 10) h
  rw [splitOn_lines hlines, List.splitOn_append_cons_self, List.splitOn_nil,
    List.splitOn_eq_singleton hbuffer] at hsplit
  exact (List.append_inj' hsplit rfl).1

/-- **A finished reply is reported.** -/
theorem Sound.conclude (h : Sound decode s) (hreply : s.reply = some reply) (hended : (s.ended reply).isSome = true)
    (hbuffer : 10 ∉ s.buffer) :
    Sound decode { s with
      reply := none
      log := s.log ++ [endReported reply s.reader.succeeded s.reader.error ((s.ended reply).getD none)] } := by
  obtain ⟨hlt, hlast, lines, hlines, hreader, ⟨request, htold⟩, hstream⟩ := h.current _ hreply
  rw [if_pos hended] at hstream
  obtain ⟨-, hsucceeded, herror, hprogress⟩ := @readAll_eq decode lines
  have habout : (endReported reply s.reader.succeeded s.reader.error ((s.ended reply).getD none)).about = reply := by
    unfold endReported
    split_ifs <;> rfl
  refine ⟨h.orderly hreply habout, fun q hq => (by cases hq), fun q hq _ => ?_, fun q hq => ?_⟩
  · by_cases hqr : q = reply
    · subst hqr
      obtain ⟨outcome, hout⟩ := Option.isSome_iff_exists.mp hended
      refine .inr ⟨outcome, request, hout, ?_⟩
      have hsplit := splitOn_stream hlines hbuffer hstream.1
      refine (ofReply_same habout s.log).trans ?_
      rw [htold, hout, reported, hsplit, hreader, hsucceeded, herror, hprogress]
      rfl
    · exact (h.past q hq (by rw [hreply]; simpa using Ne.symm hqr)).frame
        (ofReply_other (by rw [habout]; exact Ne.symm hqr) _) rfl rfl
  · have hqr : reply ≠ q := fun heq => absurd hq (by show ¬ s.next ≤ q; omega)
    obtain ⟨hlog, hrest⟩ := h.fresh q hq
    exact ⟨(ofReply_other (by rw [habout]; exact hqr) _).trans hlog, hrest⟩

/-! ## The code that is left -/

/-- The reply in hand has not finished. -/
def Waiting (s : Pull) : Prop := ∀ q, s.reply = some q → s.ended q = none

/-- Another download is in hand, if any, and nothing of it was read. -/
def Elsewhere (reply : ℕ) (s : Pull) : Prop :=
  s.reply ≠ some reply ∧ ∀ q, s.reply = some q → s.ended q = none ∧ s.buffer = []

/-- Where the handlers of a progress are. -/
structure Under (reply : ℕ) (last : Bool) (s : Pull) : Prop where
  lt : reply < s.next
  inHand : s.reply = some reply → (s.ended reply).isSome = last
  elsewhere : s.reply ≠ some reply → Elsewhere reply s

/-- A call from outside. -/
def Instr.isCall : Instr → Bool
  | .start _ | .cancel => true
  | _ => false

variable (decode) in
/-- The code left at any time, and what is known of the object then. -/
inductive Shape (s : Pull) : List Instr → Prop
  | idle : Waiting s → Shape s []
  | called (i : Instr) : i.isCall = true → Waiting s → Shape s [i]
  | received (reply : ℕ) (bytes : List UInt8) : reply < s.next → s.ended reply = none → Waiting s →
      Shape s [.received reply bytes]
  | readyRead (reply : ℕ) : Waiting s → Shape s [.readyRead reply]
  | ended (reply : ℕ) (error : Option (List Char)) : reply < s.next → s.ended reply = none → Waiting s →
      Shape s [.ended reply error]
  | readLines (reply : ℕ) (last : Bool) : s.reply = some reply → (s.ended reply).isSome = last →
      Shape s [.readLines reply last]
  | lines (reply : ℕ) (last : Bool) : s.reply = some reply → (s.ended reply).isSome = last → Shape s [.lines reply last]
  | leftover (reply : ℕ) : Elsewhere reply s → Quiet decode s.buffer → Shape s [.lines reply false]
  | progress (reply : ℕ) (last : Bool) : Under reply last s → Shape s [.progressHandlers reply last]
  | progressCalled (i : Instr) (reply : ℕ) (last : Bool) : i.isCall = true → Under reply last s →
      Shape s [i, .progressHandlers reply last]
  | conclude (reply : ℕ) : s.reply = some reply → (s.ended reply).isSome = true → 10 ∉ s.buffer →
      Shape s [.conclude reply]
  | ends : Waiting s → Shape s [.endHandlers]
  | endsCalled (i : Instr) : i.isCall = true → Waiting s → Shape s [i, .endHandlers]

theorem Elsewhere.waiting (h : Elsewhere reply s) : Waiting s := fun q hq => (h.2 q hq).1

theorem Waiting.of_none (h : s.reply = none) : Waiting s := fun q hq => by
  rw [h] at hq
  cases hq

theorem yields_call {i : Instr} (hi : i.isCall = true) : (machine decode).yields i = false := by
  cases i with
  | start request => rfl
  | cancel => rfl
  | _ => cases hi

theorem isCall_of_enters {i : Instr} (hi : (machine decode).enters s i = true) : i.isCall = true := by
  cases i with
  | start request => rfl
  | cancel => rfl
  | _ => cases hi

/-- A call leaves the object waiting, and other downloads where they were. -/
theorem call (h : Sound decode s) {i : Instr} (hi : i.isCall = true) :
    Sound decode (exec decode () i s).1 ∧ (exec decode () i s).2 = [] ∧ Waiting (exec decode () i s).1 ∧
      s.next ≤ (exec decode () i s).1.next ∧
      ∀ q < s.next, (exec decode () i s).1.reply ≠ some q ∧ Elsewhere q (exec decode () i s).1 := by
  have hnone := (cancel_reply s).1
  have hnext := (cancel_reply s).2
  cases i with
  | start request =>
    have hbegun := h.cancel.begin hnone request
    have hfresh : s.cancel.ended s.next = none := (h.cancel.fresh s.next (by rw [hnext])).2.1
    have hwaiting : ∀ q, (s.cancel.begin request).reply = some q →
        (s.cancel.begin request).ended q = none ∧ (s.cancel.begin request).buffer = [] := by
      intro q hq
      obtain rfl := Option.some.inj hq
      exact ⟨by rw [hnext]; exact hfresh, rfl⟩
    refine ⟨hbegun, rfl, fun q hq => (hwaiting q hq).1, ?_, fun q hq => ?_⟩
    · show s.next ≤ s.cancel.next + 1
      omega
    · have hne : (s.cancel.begin request).reply ≠ some q := by
        show some s.cancel.next ≠ some q
        rw [hnext]
        simpa using Nat.ne_of_gt hq
      exact ⟨hne, hne, hwaiting⟩
  | cancel =>
    refine ⟨h.cancel, rfl, Waiting.of_none hnone, Nat.le_of_eq hnext.symm, fun q _ => ?_⟩
    have hne : s.cancel.reply ≠ some q := by rw [hnone]; exact (Option.some_ne_none q).symm
    exact ⟨hne, hne, fun q' hq' => by
      rw [show (exec decode () .cancel s).1 = s.cancel from rfl, hnone] at hq'
      cases hq'⟩
  | _ => cases hi

/-- What is left of a quiet buffer after a line is quiet, and the line reports nothing. -/
theorem Quiet.rest {line rest : List UInt8} (h : Quiet decode (line ++ 10 :: rest)) (hline : 10 ∉ line)
    (reader : Reader) : Quiet decode rest ∧ (readLine decode line reader).2 = none := by
  rw [Quiet, List.splitOn_append_cons_self_of_not_mem hline,
    List.dropLast_cons_of_ne_nil (List.splitOn_ne_nil 10 rest)] at h
  refine ⟨fun other hother => h other (List.mem_cons_of_mem line hother), ?_⟩
  rw [readLine]
  split_ifs with hblank
  · rfl
  · rw [readEvent, if_pos ((h line List.mem_cons_self).resolve_left hblank)]

theorem exec_lines_none {last : Bool} (h : cutLine s.buffer = none) :
    exec decode () (.lines reply last) s = (s, if last then [.conclude reply] else []) := by
  rw [exec, h]

theorem exec_lines_some {last : Bool} {line rest : List UInt8} (h : cutLine s.buffer = some (line, rest)) :
    exec decode () (.lines reply last) s =
      ({ s with buffer := rest, reader := (readLine decode line s.reader).1,
                log := s.log ++ (readLine decode line s.reader).2.toList.map (.progress reply) },
        if (readLine decode line s.reader).2.isSome then [.progressHandlers reply last] else [.lines reply last]) := by
  cases hread : readLine decode line s.reader with
  | mk reader progress =>
    rw [exec, h]
    cases progress with
    | none => simp [hread]
    | some progress => simp [hread]

/-- The loop, on the reply in hand. -/
theorem lines_inHand (h : Sound decode s) {last : Bool} (hreply : s.reply = some reply)
    (hended : (s.ended reply).isSome = last) :
    Sound decode (exec decode () (.lines reply last) s).1 ∧
      Shape decode (exec decode () (.lines reply last) s).1 (exec decode () (.lines reply last) s).2 := by
  rcases hcut : cutLine s.buffer with _ | ⟨line, rest⟩
  · rw [exec_lines_none hcut]
    refine ⟨h, ?_⟩
    cases last with
    | false =>
      refine .idle fun q hq => ?_
      obtain rfl := Option.some.inj (hreply.symm.trans hq)
      exact Option.not_isSome_iff_eq_none.mp (by rw [hended]; exact Bool.false_ne_true)
    | true => exact .conclude reply hreply hended (cutLine_none hcut)
  · obtain ⟨hbuffer, hline⟩ := cutLine_some hcut
    rw [exec_lines_some hcut]
    refine ⟨h.line hreply hbuffer hline, ?_⟩
    split_ifs
    · exact .progress reply last ⟨(h.current reply hreply).1, fun _ => hended, fun hne => absurd hreply hne⟩
    · exact .lines reply last hreply hended

/-- The loop, on what is left of a download that was let go. -/
theorem lines_leftover (h : Sound decode s) (helse : Elsewhere reply s) (hquiet : Quiet decode s.buffer) :
    Sound decode (exec decode () (.lines reply false) s).1 ∧
      Shape decode (exec decode () (.lines reply false) s).1 (exec decode () (.lines reply false) s).2 := by
  rcases hcut : cutLine s.buffer with _ | ⟨line, rest⟩
  · rw [exec_lines_none hcut]
    exact ⟨h, .idle helse.waiting⟩
  · obtain ⟨hbuffer, hline⟩ := cutLine_some hcut
    have hnone : s.reply = none := by
      rcases hreply : s.reply with _ | q
      · rfl
      · rw [(helse.2 q hreply).2] at hbuffer
        exact absurd hbuffer.symm (List.append_ne_nil_of_right_ne_nil _ (List.cons_ne_nil _ _))
    rw [hbuffer] at hquiet
    obtain ⟨hrest, hread⟩ := hquiet.rest hline s.reader
    rw [exec_lines_some hcut, hread]
    simp only [Option.toList_none, List.map_nil, List.append_nil, Option.isSome_none, Bool.false_eq_true, if_false]
    refine ⟨h.leftover hnone rest _, .leftover reply ⟨helse.1, fun q hq => ?_⟩ hrest⟩
    rw [hnone] at hq
    cases hq

/-- **Every move keeps it.** -/
theorem sound_run {c : Config Pull Instr} (h : (machine decode).Reachable (Undisturbed decode) (· = {}) c) :
    Sound decode c.state ∧ Shape decode c.state c.code := by
  refine h.invariant (P := fun c => Sound decode c.state ∧ Shape decode c.state c.code) ?_ ?_ ?_ ?_
  · rintro s rfl
    refine ⟨⟨Each.nil, fun q hq => (by cases hq), fun q hq _ => absurd hq (Nat.not_lt_zero q), fun q _ => ?_⟩,
      .idle (Waiting.of_none rfl)⟩
    exact ⟨rfl, rfl, rfl, rfl⟩
  · rintro ⟨⟩ i k s hok ⟨hs, hshape⟩
    cases hshape with
    | called _ hi _ =>
      obtain ⟨hsound, hcode, hwaiting, -⟩ := call hs hi
      show Sound decode (exec decode () i s).1 ∧ Shape decode (exec decode () i s).1 ((exec decode () i s).2 ++ [])
      rw [hcode]
      exact ⟨hsound, .idle hwaiting⟩
    | received reply bytes hlt hended hwaiting => exact ⟨hs.receive hlt hended bytes, .idle hwaiting⟩
    | readyRead reply hwaiting =>
      refine ⟨hs, ?_⟩
      show Shape decode s ((if s.reply = some reply then [.readLines reply false] else []) ++ [])
      rw [List.append_nil]
      split_ifs with hreply
      · exact .readLines reply false hreply (by rw [hwaiting reply hreply]; rfl)
      · exact .idle hwaiting
    | ended reply error hlt hended hwaiting =>
      show Sound decode (exec decode () (.ended reply error) s).1 ∧ Shape decode
        (exec decode () (.ended reply error) s).1 ((exec decode () (.ended reply error) s).2 ++ [])
      rw [List.append_nil, exec]
      split_ifs with hreply
      · exact ⟨hs.ended_current hended hreply error, .readLines reply true hreply (by simp)⟩
      · refine ⟨hs.ended_other hlt hended hreply error, .idle fun q hq => ?_⟩
        have hqr : q ≠ reply := fun heq => hreply (heq ▸ hq)
        exact (Function.update_of_ne hqr ..).trans (hwaiting q hq)
    | readLines reply last hreply hended =>
      have hout : exec decode () (.readLines reply last) s = (s.takeIn reply, [.lines reply last]) := by
        rw [exec, hreply]
      show Sound decode (exec decode () (.readLines reply last) s).1 ∧ Shape decode
        (exec decode () (.readLines reply last) s).1 ((exec decode () (.readLines reply last) s).2 ++ [])
      rw [hout]
      exact ⟨hs.takeIn hreply, .lines reply last hreply hended⟩
    | lines reply last hreply hended =>
      have hout := lines_inHand hs hreply hended
      rwa [← List.append_nil (exec decode () (.lines reply last) s).2] at hout
    | leftover reply helse hquiet =>
      have hout := lines_leftover hs helse hquiet
      rwa [← List.append_nil (exec decode () (.lines reply false) s).2] at hout
    | progress reply last hunder =>
      refine ⟨hs, ?_⟩
      rcases hok with hreply | ⟨rfl, hquiet⟩
      · exact .lines reply last hreply (hunder.inHand hreply)
      · by_cases hreply : s.reply = some reply
        · exact .lines reply false hreply (hunder.inHand hreply)
        · exact .leftover reply (hunder.elsewhere hreply) hquiet
    | progressCalled _ reply last hi hunder =>
      obtain ⟨hsound, hcode, -, hnext, helse⟩ := call hs hi
      show Sound decode (exec decode () i s).1 ∧ Shape decode (exec decode () i s).1
        ((exec decode () i s).2 ++ [.progressHandlers reply last])
      rw [hcode]
      obtain ⟨hne, helsewhere⟩ := helse reply hunder.lt
      exact ⟨hsound, .progress reply last ⟨Nat.lt_of_lt_of_le hunder.lt hnext, fun heq => absurd heq hne,
        fun _ => helsewhere⟩⟩
    | conclude reply hreply hended hbuffer =>
      exact ⟨hs.conclude hreply hended hbuffer, .ends (Waiting.of_none rfl)⟩
    | ends hwaiting => exact ⟨hs, .idle hwaiting⟩
    | endsCalled _ hi _ =>
      obtain ⟨hsound, hcode, hwaiting, -⟩ := call hs hi
      show Sound decode (exec decode () i s).1 ∧ Shape decode (exec decode () i s).1
        ((exec decode () i s).2 ++ [.endHandlers])
      rw [hcode]
      exact ⟨hsound, .ends hwaiting⟩
  · rintro i k s - ⟨hs, hshape⟩ hcontrol henters
    have hi : i.isCall = true := isCall_of_enters henters
    refine ⟨hs, ?_⟩
    cases hshape with
    | idle hwaiting => exact .called i hi hwaiting
    | progress reply last hunder => exact .progressCalled i reply last hi hunder
    | ends hwaiting => exact .endsCalled i hi hwaiting
    | called j hj _ => exact absurd hcontrol (Bool.eq_false_iff.mp (yields_call hj))
    | progressCalled j _ _ hj _ => exact absurd hcontrol (Bool.eq_false_iff.mp (yields_call hj))
    | endsCalled j hj _ => exact absurd hcontrol (Bool.eq_false_iff.mp (yields_call hj))
    | _ => cases hcontrol
  · rintro i s - ⟨hs, hshape⟩ hwakes
    refine ⟨hs, ?_⟩
    cases hshape with
    | idle hwaiting =>
      cases i with
      | received reply bytes =>
        obtain ⟨hlt, hended⟩ := Bool.and_eq_true_iff.mp hwakes
        exact .received reply bytes (of_decide_eq_true hlt) (of_decide_eq_true hended) hwaiting
      | readyRead reply => exact .readyRead reply hwaiting
      | ended reply error =>
        obtain ⟨hlt, hended⟩ := Bool.and_eq_true_iff.mp hwakes
        exact .ended reply error (of_decide_eq_true hlt) (of_decide_eq_true hended) hwaiting
      | _ => cases hwakes

/-! ## Downloads are reported once -/

/-- A line break at the end of a reply changes nothing. -/
theorem reported_newline (reply : ℕ) (stream : List UInt8) (outcome : Option (List Char)) :
    reported decode reply (stream ++ [10]) outcome = reported decode reply stream outcome := by
  have hevents : eventsOf decode ((stream ++ [10]).splitOn 10) = eventsOf decode (stream.splitOn 10) := by
    rw [List.splitOn_append_cons_self, List.splitOn_nil, eventsOf_concat]
    exact List.append_nil _
  rw [reported, reported, hevents]

/-- It finishes exactly when a line said success. -/
theorem finished_iff (reply : ℕ) (stream : List UInt8) (outcome : Option (List Char)) :
    .finished reply ∈ reported decode reply stream outcome ↔
      ∃ event ∈ eventsOf decode (stream.splitOn 10), event.error = [] ∧ event.status = "success".toList := by
  have hsucceeds : succeeds (eventsOf decode (stream.splitOn 10)) = true ↔
      ∃ event ∈ eventsOf decode (stream.splitOn 10), event.error = [] ∧ event.status = "success".toList := by
    simp only [succeeds, List.any_eq_true, Bool.and_eq_true, decide_eq_true_eq]
  rw [← hsucceeds, reported, List.mem_append, List.mem_singleton]
  have hprogress : Told.finished reply ∉
      (progressReported (eventsOf decode (stream.splitOn 10))).map (Told.progress reply) := by
    intro hmem
    obtain ⟨p, -, hp⟩ := List.mem_map.mp hmem
    cases hp
  rw [or_iff_right hprogress]
  unfold endReported
  split_ifs with h
  · exact iff_of_true rfl h
  · exact iff_of_false (fun heq => by cases heq) h
  · exact iff_of_false (fun heq => by cases heq) h

theorem Sound.over_once (h : Sound decode s) (reply : ℕ) :
    s.log.countP (fun entry => entry.about = reply && entry.ends) ≤ 1 := by
  refine Each.countP_le_one (h.order.mono fun before entry horder hentry t ht => ?_)
  obtain ⟨habout, -⟩ := Bool.and_eq_true_iff.mp hentry
  by_cases ht' : t.about = reply
  · rw [horder.1 t ht (ht'.trans (of_decide_eq_true habout).symm), Bool.and_false]
  · rw [decide_eq_false ht', Bool.false_and]

/-- What a started download that is not in hand any more reported. -/
theorem Sound.reported_once (h : Sound decode s) {request : Request} (hstarted : .started reply request ∈ s.log)
    (hcancelled : .cancelled reply ∉ s.log) (hreply : s.reply ≠ some reply) :
    ∃ outcome, s.ended reply = some outcome ∧
      ofReply reply s.log = .started reply request :: reported decode reply (s.stream reply) outcome := by
  have hmem : Told.started reply request ∈ ofReply reply s.log :=
    List.mem_filter.mpr ⟨hstarted, by simp [Told.about]⟩
  have hlt : reply < s.next := by
    by_contra hle
    rw [(h.fresh reply (Nat.le_of_not_lt hle)).1] at hmem
    cases hmem
  obtain ⟨outcome, request', hout, hlog⟩ := (h.past reply hlt hreply).resolve_left hcancelled
  refine ⟨outcome, hout, ?_⟩
  rw [hlog] at hmem ⊢
  rcases List.mem_cons.mp hmem with heq | hmem
  · rw [heq]
  · rw [reported, List.mem_append, List.mem_singleton] at hmem
    rcases hmem with hmem | hmem
    · obtain ⟨p, -, hp⟩ := List.mem_map.mp hmem
      cases hp
    · unfold endReported at hmem
      split_ifs at hmem

/-- **A download is reported once and read the same however it arrives**, in every run in which the handlers of a
progress leave their download running or, outside its last read, leave no line that reports progress: nothing is told of
a download that is over, and nothing but of the one started last; each is over once; one that is let go without a cancel
reported what its whole reply says, and none is in hand once its reply was handled. -/
theorem pull_reports_once {c : Config Pull Instr}
    (h : (machine decode).Reachable (Undisturbed decode) (· = {}) c) :
    Each Orderly c.state.log ∧
    (∀ reply, c.state.log.countP (fun entry => entry.about = reply && entry.ends) ≤ 1) ∧
    (∀ reply request, .started reply request ∈ c.state.log → .cancelled reply ∉ c.state.log →
      c.state.reply ≠ some reply → ∃ outcome, c.state.ended reply = some outcome ∧
        ofReply reply c.state.log = .started reply request :: reported decode reply (c.state.stream reply) outcome) ∧
    (c.code = [] → ∀ reply, c.state.reply = some reply → c.state.ended reply = none) ∧
    ∀ reply stream outcome, reported decode reply (stream ++ [10]) outcome = reported decode reply stream outcome ∧
      (.finished reply ∈ reported decode reply stream outcome ↔
        ∃ event ∈ eventsOf decode (stream.splitOn 10), event.error = [] ∧ event.status = "success".toList) := by
  obtain ⟨hsound, hshape⟩ := sound_run h
  refine ⟨hsound.order, hsound.over_once, fun reply request hstarted hcancelled hreply =>
    hsound.reported_once hstarted hcancelled hreply, fun hcode => ?_,
    fun reply stream outcome => ⟨reported_newline reply stream outcome, finished_iff reply stream outcome⟩⟩
  rw [hcode] at hshape
  cases hshape with
  | idle hwaiting => exact hwaiting

/-- A reply of one empty object. -/
theorem one_line_is_reported_once : ∃ c : Config Pull Instr, c.code = [] ∧ c.state.reply = none ∧
    ∃ outcome, c.state.ended 0 = some outcome ∧ ofReply 0 c.state.log =
      .started 0 ⟨[], []⟩ :: reported (fun _ => {}) 0 (c.state.stream 0) outcome := by
  have hstart : (machine fun _ => {}).Reachable (Undisturbed fun _ => {}) (· = {}) ⟨{}, []⟩ := .start rfl
  have hplay : (machine fun _ => {}).play ⟨{}, []⟩ [.enter (.start ⟨[], []⟩), .run (),
      .wake (.received 0 [0x7b, 0x7d, 10]), .run (), .wake (.readyRead 0), .run (), .run (), .run (), .run (), .run (),
      .wake (.ended 0 none), .run (), .run (), .run (), .run (), .run (), .run ()] = some _ := rfl
  have hrun := hstart.play (by decide) hplay
  have hstarted := (pull_reports_once hrun).2.2.1 0 ⟨[], []⟩
  refine ⟨_, rfl, rfl, hstarted ?_ ?_ ?_⟩ <;> decide

/-- A handler of a progress cancels its download, and the next line is reported all the same. -/
theorem cancelled_download_is_reported : ¬ ∀ (decode : List UInt8 → Event) (c : Config Pull Instr),
    (machine decode).Reachable (fun _ _ => True) (· = {}) c → Each Orderly c.state.log := by
  intro h
  have hplay : (machine fun _ => {}).play ⟨{}, []⟩ [.enter (.start ⟨[], []⟩), .run (),
      .wake (.received 0 [0x7b, 0x7d, 10, 0x7b, 0x7d, 10]), .run (), .wake (.readyRead 0), .run (), .run (), .run (),
      .enter .cancel, .run (), .run (), .run ()] = some _ := rfl
  have horder := h _ _ (Machine.reachable_of_play rfl hplay) [.started 0 ⟨[], []⟩, .progress 0 ⟨0, 0, []⟩, .cancelled 0]
    (.progress 0 ⟨0, 0, []⟩) [] rfl
  exact absurd (horder.1 (.cancelled 0) (by decide) rfl) (by decide)

end Speecher.OllamaPull
