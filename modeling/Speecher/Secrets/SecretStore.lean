import Speecher.Bindings.Words
import Speecher.Foundations.Machine

/-!
# API keys in the keyring or the settings file

`SecretStore` writes one request of a secret at a time to the desktop keyring, or keeps the value in the
settings file where the request allows it, while one newer request waits its turn. Its reads answer from
memory and the settings file as far as those can tell. Removing every entry drops what is asked and refuses
what is asked meanwhile.

The store is a re-entrant `Machine`: a handler of `saveFinished`, a removal's caller and the callback of
`afterWrites` may all ask again before they return. The event loop brings the keyring's answers, what was
posted to it in the order it was posted, and saves of the settings file made elsewhere. The keyring itself
is `Ring`: it performs the requests of a secret in the order they were started, each of which may take
effect or not, and tells of an effect only once it was there; a request told to be refused, as one that
timed out, may still take effect.

Left out are the delay before a failed read is tried again, and the log.
-/

namespace Speecher

inductive Secret
  | openAiApiKey
  | cliproxyApiKey
  | speechEndpointKey
  | refinementEndpointKey
  deriving DecidableEq

/-- The secrets in the order of their table. -/
def secretEntries : List Secret := [.openAiApiKey, .cliproxyApiKey, .speechEndpointKey, .refinementEndpointKey]

theorem mem_secretEntries (secret : Secret) : secret ∈ secretEntries := by
  cases secret <;> decide

namespace SecretStore

/-- A save, or a clear when the value is empty. -/
structure Request where
  value : Text
  /-- The settings file keeps the value when the keyring refuses it. -/
  fallBack : Bool
  migrating : Bool
  /-- A deletion marker hid the key when it was asked for, other than one put in by a request still under
  way. -/
  marked : Bool
  number : ℕ
  deriving DecidableEq

inductive Phase
  | idle
  | writing
  | dropped
  deriving DecidableEq

structure SecretState where
  /-- What storage holds, as the store last read or wrote it. -/
  stored : Option Text
  reading : Bool
  phase : Phase
  writing : Option Request
  waiting : Option Request
  /-- The number of saves of the settings file at which it holds its last change for the secret. -/
  savedBy : ℕ
  commitRefused : Bool
  deriving DecidableEq

def SecretState.init : SecretState := ⟨none, false, .idle, none, none, 0, false⟩

/-- The request asked for last, whose value reads return. -/
def SecretState.newest (entry : SecretState) : Option Request := entry.waiting.or entry.writing

/-- Leaves the keyring's answer unheard, and nothing waiting. -/
def SecretState.drop (entry : SecretState) : SecretState :=
  { entry with
    phase := if entry.phase = .writing then .dropped else entry.phase
    writing := none
    waiting := none }

/-- What the settings file tells a reader: the copy it keeps, trimmed, whether a deletion marker hides the
key, and whether the keyring may hold it. -/
structure FileSays where
  copy : Text
  hidden : Bool
  inKeyring : Bool
  deriving DecidableEq

def FileSays.withKeyHidden (file : FileSays) : FileSays := ⟨[], true, file.inKeyring⟩

structure KeyringAnswer where
  ok : Bool
  value : Text
  error : Text
  deriving DecidableEq

inductive KeyringRequest
  | read
  | write (value : Text)
  | delete
  deriving DecidableEq

/-- What a keyring request was started for. -/
inductive Purpose
  | write
  | read
  | removal (rest : List Secret)
  | removalRead (rest : List Secret)
  deriving DecidableEq

/-- A keyring request that is not answered. -/
structure Job where
  id : ℕ
  secret : Secret
  request : KeyringRequest
  purpose : Purpose
  deriving DecidableEq

/-- A secret's keyring entry as reads find it, empty when there is none: the requests still to be performed,
those that took effect, and what reads found. -/
structure Ring where
  value : Text
  pending : List (ℕ × KeyringRequest)
  took : List ℕ
  found : List (ℕ × Text)
  deriving DecidableEq

/-- What was posted to the event loop. -/
inductive Task
  | settle (secret : Secret) (request : Request) (refusal : Text)
  | finishWrite (secret : Secret) (answer : Option KeyringAnswer)
  deriving DecidableEq

/-- What `saveFinished` told. -/
structure Report where
  secret : Secret
  number : ℕ
  cleared : Bool
  stored : Bool
  error : Text
  deriving DecidableEq

end SecretStore

open SecretStore

structure SecretStore where
  cache : Secret → SecretState
  lastError : Text
  /-- How many requests were numbered. -/
  requests : ℕ
  /-- The callers a removal under way answers. -/
  removals : List ℕ
  removalError : Option Text
  afterWrites : Option ℕ
  /-- The settings file as it stands in memory and as it was last saved, and how often it was. -/
  file : Secret → FileSays
  fileName : Text
  disk : Secret → FileSays
  saves : ℕ
  closed : Bool
  posted : List Task
  jobs : List Job
  started : ℕ
  ring : Secret → Ring
  /-- History: the requests asked for, those a newer one replaced while they were the newest, how many were
  asked when the file was last saved, and what was told to whom. -/
  asked : Secret → List Request
  replaced : Secret → List ℕ
  askedAtSave : Secret → ℕ
  reported : List Report
  removalCallers : ℕ
  removalsAnswered : List ℕ
  callbacks : ℕ
  callbacksRun : List ℕ

namespace SecretStore

/-- A store that starts on a settings file and a keyring. -/
def start (file : Secret → FileSays) (ring : Secret → Text) (fileName : Text) : SecretStore where
  cache _ := .init
  lastError := []
  requests := 0
  removals := []
  removalError := none
  afterWrites := none
  file
  fileName
  disk := file
  saves := 0
  closed := false
  posted := []
  jobs := []
  started := 0
  ring secret := ⟨ring secret, [], [], []⟩
  asked _ := []
  replaced _ := []
  askedAtSave _ := 0
  reported := []
  removalCallers := 0
  removalsAnswered := []
  callbacks := 0
  callbacksRun := []

variable (store : SecretStore) (secret : Secret)

/-- One secret's state changes. -/
def setState (entry : SecretState) : SecretStore :=
  { store with cache := Function.update store.cache secret entry }

def fail (error : Text) : SecretStore := { store with lastError := error }

/-- Whether the settings file alone refused what storage took, for `saveSecrets`. -/
def noteCommit (refused : Bool) : SecretStore :=
  store.setState secret { store.cache secret with commitRefused := refused }

/-! ## The settings file -/

/-- Only the entries Speecher wrote are read, and the OpenAI one. -/
def mayBeInKeyring : Bool := secret = .openAiApiKey || (store.file secret).inKeyring

def settingsFallback : Text := (store.file secret).copy

def deletionPending : Bool := (store.file secret).hidden

def fileSays : FileSays := ⟨store.settingsFallback secret, store.deletionPending secret, store.mayBeInKeyring secret⟩

/-- The settings file now says something new about the secret, which its next save holds. -/
def changedInFile : SecretStore :=
  store.setState secret { store.cache secret with savedBy := store.saves + 1 }

/-- Makes the settings file say that about the secret, for the file's next save. -/
def say (file : FileSays) : SecretStore :=
  if file = store.fileSays secret then store
  else ({ store with file := Function.update store.file secret file }).changedInFile secret

def hide : SecretStore := store.say secret (store.fileSays secret).withKeyHidden

/-- A save of the settings file that goes through. -/
def saveFile : SecretStore :=
  { store with disk := store.file, saves := store.saves + 1, askedAtSave := fun secret => (store.asked secret).length }

/-- The settings are deleted, all but the deletion markers where these are kept, and their file closed or,
when older settings would not go, left open. -/
def deleteSettings (keepMarkers close : Bool) : SecretStore :=
  let file := fun secret => (⟨[], keepMarkers && store.deletionPending secret, false⟩ : FileSays)
  { store with file, closed := store.closed || close, disk := if close then file else store.disk }

/-- What the environment answers: whether the settings file saves, and why others could read it. -/
structure Reply where
  saved : Bool
  exposed : Option Text
  deriving DecidableEq

/-- Whether the settings file saved what it says about the secret, else whether it saves now. -/
def commit (reply : Reply) : SecretStore × Bool :=
  if (store.cache secret).savedBy ≤ store.saves then (store, true)
  else if !store.closed && reply.saved then (store.saveFile, true)
  else (store.fail ("Could not save the settings file ".toList ++ store.fileName), false)

/-! ## Reads -/

/-- What a read answers without the keyring. -/
def readWithoutKeyring : Option Text :=
  match (store.cache secret).newest with
  | some asked => some asked.value
  | none =>
    if store.deletionPending secret then some []
    else
      match (store.cache secret).stored with
      | some value => some value
      | none =>
        if (store.settingsFallback secret).isEmpty && store.mayBeInKeyring secret then none
        else some (store.settingsFallback secret)

/-- The read puts what the settings file says in memory. -/
def cacheFallback : SecretStore :=
  let entry := store.cache secret
  if entry.newest.isNone && !store.deletionPending secret && entry.stored.isNone &&
      !((store.settingsFallback secret).isEmpty && store.mayBeInKeyring secret) then
    store.setState secret { entry with stored := some (store.settingsFallback secret) }
  else store

/-- `secret`, where the keyring found `found`; `cachedSecret` when it is not asked. -/
def read (found : Text) : Text := (store.readWithoutKeyring secret).getD found

/-- What a new process reads from a saved settings file and the keyring. -/
def freshRead (file : FileSays) (ring : Text) : Text :=
  if file.hidden then []
  else if file.copy.isEmpty && (decide (secret = .openAiApiKey) || file.inKeyring) then ring
  else file.copy

def isSecretKnown : Bool :=
  store.deletionPending secret || (store.cache secret).stored.isSome || (store.cache secret).newest.isSome

/-! ## The keyring -/

/-- Starts a keyring request, which is answered later. -/
def askKeyring (request : KeyringRequest) (purpose : Purpose) : SecretStore :=
  let ring := store.ring secret
  { store with
    jobs := store.jobs ++ [⟨store.started, secret, request, purpose⟩]
    started := store.started + 1
    ring := Function.update store.ring secret { ring with pending := ring.pending ++ [(store.started, request)] } }

/-- The keyring performs a secret's next request, which takes effect or not. -/
def Ring.perform (effective : Bool) (ring : Ring) : Ring :=
  match ring.pending with
  | [] => ring
  | (id, .read) :: pending => { ring with pending, found := (id, ring.value) :: ring.found }
  | (id, .write value) :: pending =>
    if effective then { ring with pending, value, took := id :: ring.took } else { ring with pending }
  | (id, .delete) :: pending =>
    if effective then { ring with pending, value := [], took := id :: ring.took } else { ring with pending }

/-- The keyring can give this answer: it tells of an effect only once it was there, and gives a read what
it found. -/
def Ring.answers (ring : Ring) (job : Job) (answer : KeyringAnswer) : Bool :=
  !answer.ok ||
    match job.request with
    | .read => ring.found.contains (job.id, answer.value)
    | _ => ring.took.contains job.id && answer.value.isEmpty

def startRead : SecretStore :=
  let entry := store.cache secret
  if entry.reading || !store.removals.isEmpty then store
  else (store.setState secret { entry with reading := true }).askKeyring secret .read .read

def finishRead (answer : KeyringAnswer) : SecretStore :=
  let store := store.setState secret { store.cache secret with reading := false }
  if store.isSecretKnown secret then store
  else if !answer.ok then store.fail answer.error
  else store.setState secret { store.cache secret with stored := some answer.value }

/-! ## Writes -/

/-- Why no save may be written now. -/
def writeRefusal : Option Text :=
  if store.closed then some "Speecher's settings were deleted".toList
  else if store.removals.isEmpty then none
  else some "Speecher's secrets are being removed".toList

/-- Storage holds the request where it allows, so it needs no write. -/
def holds (request : Request) : Bool :=
  if (store.cache secret).stored ≠ some request.value || store.deletionPending secret then false
  else
    let copy := store.settingsFallback secret
    if copy.isEmpty then request.value.isEmpty || store.mayBeInKeyring secret
    else request.fallBack && copy = request.value

def post (task : Task) : SecretStore := { store with posted := store.posted ++ [task] }

/-- Starts writing the request waiting its turn. -/
def writeNext : SecretStore :=
  let entry := store.cache secret
  let store := store.setState secret { entry with writing := entry.waiting, waiting := none, phase := .writing }
  match entry.waiting with
  | none => store
  | some request =>
    if store.writeRefusal.isSome || (!request.migrating && store.holds secret request) then
      store.post (.finishWrite secret none)
    else if request.value.isEmpty && !store.mayBeInKeyring secret && !request.marked then
      store.post (.finishWrite secret (some ⟨true, [], []⟩))
    else store.askKeyring secret (if request.value.isEmpty then .delete else .write request.value) .write

/-- What the keyring did with a request, for the settings file and for the memory, and why it was
refused. -/
structure Kept where
  kept : Bool
  file : FileSays
  stored : Option Text
  lastError : Text

/-- Puts what the keyring did with the request in what the settings file is to say and in memory. -/
def keep (request : Request) (answer : KeyringAnswer) (file : FileSays) (reply : Reply) : Kept :=
  let stored := (store.cache secret).stored
  if answer.ok then
    ⟨true, ⟨[], false, !request.value.isEmpty || secret = .openAiApiKey⟩, some request.value, answer.error⟩
  else if request.migrating then ⟨false, file, stored, answer.error⟩
  else if request.value.isEmpty then ⟨false, file.withKeyHidden, some [], answer.error⟩
  else if !request.fallBack then ⟨false, file, stored, answer.error⟩
  else
    match reply.exposed with
    | some because => ⟨false, file, stored, "No keyring took it (".toList ++ answer.error ++ "), and ".toList ++ because⟩
    | none => ⟨true, ⟨request.value, false, file.inKeyring⟩, some request.value, answer.error⟩

/-- What a request is kept as; one that needed no keyring changes nothing. -/
def keptAs (request : Request) (answer : Option KeyringAnswer) (reply : Reply) : Kept :=
  match answer with
  | none => ⟨true, store.fileSays secret, (store.cache secret).stored, []⟩
  | some answer => store.keep secret request answer (store.fileSays secret) reply

/-- What the settings file then says. A newer request waiting behind a hidden key keeps it hidden. -/
def saysAfter (kept : Kept) : FileSays :=
  if (store.cache secret).waiting.isSome && store.deletionPending secret then kept.file.withKeyHidden else kept.file

/-- Keeps what the keyring did with the request, or nothing when it needed no keyring, and saves the
settings file. -/
def storeRequest (request : Request) (answer : Option KeyringAnswer) (reply : Reply) : SecretStore × Bool :=
  match store.writeRefusal with
  | some refusal => (store.fail refusal, false)
  | none =>
    let kept := store.keptAs secret request answer reply
    let after := store.saysAfter secret kept
    let stored := (store.fail kept.lastError).setState secret { store.cache secret with stored := kept.stored }
    let committed := (stored.say secret after).commit secret reply
    let noted :=
      if kept.kept || decide (after ≠ store.fileSays secret) then
        committed.1.noteCommit secret (kept.kept && !committed.2)
      else committed.1
    (if kept.kept then noted else noted.fail kept.lastError, kept.kept && committed.2)

def writesSettled : Bool := store.removals.isEmpty && secretEntries.all fun secret => (store.cache secret).newest.isNone

/-! ## The machine -/

/-- What the store still has to do, what it may be asked, and the calls it makes. -/
inductive Instr
  /-- `saveSecret` and `saveApiKey`. -/
  | save (secret : Secret) (value : Text) (fallBack : Bool)
  | saveSecrets (values : List (Secret × Text))
  | saveRows (rows : List Secret) (values : List (Secret × Text))
  | saveValues (values : List (Secret × Text))
  | deleteKeyringSecrets
  | dropRows (rows : List Secret)
  | removeNext (rows : List Secret)
  | afterWritesAsked
  /-- A read, which may start one in the keyring. -/
  | readSecret (secret : Secret) (start : Bool)
  | writeWaiting (secret : Secret)
  | notifyIfWritesSettled
  /-- The event loop takes what was posted first, or brings a keyring's answer. -/
  | posted
  | answered (job : Job) (answer : KeyringAnswer)
  /-- The settings file is saved elsewhere, or deleted. -/
  | settingsSaved
  | settingsDeleted (keepMarkers close : Bool)
  /-- The keyring performs a secret's next request. -/
  | perform (secret : Secret) (effective : Bool)
  | saveFinished (report : Report)
  | removalDone (caller : ℕ)
  | callAfterWrites (callback : ℕ)
  deriving DecidableEq

def report (report : Report) : SecretStore := { store with reported := store.reported ++ [report] }

/-- A request told to `saveFinished`, unless a migration made it. -/
def settle (request : Request) (stored : Bool) (error : Text) : SecretStore × List Instr :=
  if request.migrating then (store, [])
  else
    let error := if stored then [] else error
    let report : Report := ⟨secret, request.number, request.value.isEmpty, stored, error⟩
    ((store.fail error).report report, [.saveFinished report])

/-- The request a save or a clear makes. A marker a request still under way put in hid nothing it didn't. -/
def newRequest (value : Text) (fallBack : Bool) : Request :=
  ⟨value, fallBack, false, ((store.cache secret).newest.map Request.marked).getD (store.deletionPending secret),
    store.requests + 1⟩

/-- A request is numbered, and replaces the newest. -/
def note (request : Request) : SecretStore :=
  { store with
    requests := store.requests + 1
    asked := Function.update store.asked secret (store.asked secret ++ [request])
    replaced := Function.update store.replaced secret
      (store.replaced secret ++ (store.cache secret).newest.toList.map Request.number) }

/-- A clear hides a key a reader could find at once. -/
def hides (request : Request) : Bool :=
  request.value.isEmpty && !request.migrating &&
    ((store.cache secret).phase = .writing ||
      (!(store.settingsFallback secret).isEmpty || store.mayBeInKeyring secret) && !store.holds secret request)

/-- A request waits its turn, which comes at once when nothing is written. -/
def await (request : Request) : SecretStore :=
  let store := store.setState secret { store.cache secret with waiting := some request }
  if (store.cache secret).phase = .idle then store.writeNext secret else store

/-- A request is asked for. -/
def save (request : Request) : SecretStore × List Instr :=
  let store := store.note secret request
  match store.writeRefusal with
  | some refusal =>
    ((store.setState secret (store.cache secret).drop).post (.settle secret request refusal), [.notifyIfWritesSettled])
  | none => ((if store.hides secret request then store.hide secret else store).await secret request, [])

/-- The first row of `saveSecrets`: the file is saved again for a change it refused to save. -/
def saveRow (values : List (Secret × Text)) (reply : Reply) : SecretStore × List Instr :=
  let entry := store.cache secret
  let asked := values.any (·.1 = secret)
  if !entry.commitRefused || entry.phase ≠ .idle || entry.waiting.isSome || asked || store.writeRefusal.isSome then
    (store, [])
  else
    let committed := store.commit secret reply
    if !committed.2 then (committed.1, [])
    else
      let store := committed.1.noteCommit secret false
      if store.deletionPending secret then (store, [])
      else
        let report : Report := ⟨secret, 0, ((store.readWithoutKeyring secret).getD []).isEmpty, true, []⟩
        ((store.cacheFallback secret).report report, [.saveFinished report])

/-- Settles the request being written, unless it was dropped; the one waiting its turn answers for it. -/
def finishWrite (answer : Option KeyringAnswer) (reply : Reply) : SecretStore × List Instr :=
  let entry := store.cache secret
  let store := store.setState secret { entry with phase := .idle, writing := none }
  match entry.writing with
  | none => (store, [.writeWaiting secret])
  | some request =>
    let stored := store.storeRequest secret request answer reply
    if entry.waiting.isSome then (stored.1, [.writeWaiting secret])
    else
      let settled := stored.1.settle secret request stored.2 stored.1.lastError
      (settled.1, settled.2 ++ [.writeWaiting secret])

/-- The row of a removal: what is under way or waits is dropped and refused. -/
def dropRow : SecretStore × List Instr :=
  let entry := store.cache secret
  let store := store.setState secret entry.drop
  match entry.newest with
  | none => (store, [])
  | some dropped => store.settle secret dropped false (store.writeRefusal.getD [])

/-- What storage held is gone, and so is what a read during the deletions found. -/
def finishRemoval : SecretStore × List Instr :=
  ({ store with
      cache := fun secret => { store.cache secret with stored := none, commitRefused := false }
      lastError := store.removalError.getD []
      removals := [] },
    store.removals.map .removalDone ++ [.notifyIfWritesSettled])

/-- A deleted entry is looked up no more, and its marker hides nothing. -/
def forgetEntry : SecretStore :=
  let file := store.file secret
  let forgotten := { store with
    file := Function.update store.file secret { file with hidden := false, inKeyring := false } }
  if file.hidden then forgotten.changedInFile secret else forgotten

/-- A deletion marker hides the key. -/
def markDeleted : SecretStore :=
  ({ store with file := Function.update store.file secret { store.file secret with hidden := true } }).changedInFile
    secret

/-- The answer of a removal's deletion. -/
def removalAnswered (rest : List Secret) (answer : KeyringAnswer) : SecretStore × List Instr :=
  if answer.ok then (store.forgetEntry secret, [.removeNext rest])
  else
    let store := { store with removalError := store.removalError.or (some answer.error) }
    if secret ≠ .openAiApiKey then (store, [.removeNext rest])
    else (store.askKeyring secret .read (.removalRead rest), [])

/-- A marker hides an OpenAI key the keyring kept, unless a read finds it gone. -/
def removalRead (rest : List Secret) (answer : KeyringAnswer) : SecretStore × List Instr :=
  (if !answer.ok || !answer.value.isEmpty then store.markDeleted secret else store, [.removeNext rest])

/-- A keyring request is answered, or timed out. -/
def answered (job : Job) (answer : KeyringAnswer) (reply : Reply) : SecretStore × List Instr :=
  let store := { store with jobs := store.jobs.erase job }
  match job.purpose with
  | .write => store.finishWrite job.secret (some answer) reply
  | .read => (store.finishRead job.secret answer, [])
  | .removal rest => store.removalAnswered job.secret rest answer
  | .removalRead rest => store.removalRead job.secret rest answer

/-- What the store does next, given the reply of the call it makes. -/
def exec (reply : Reply) : Instr → SecretStore → SecretStore × List Instr
  | .save secret value fallBack, store => store.save secret (store.newRequest secret (trimmed value) fallBack)
  | .saveSecrets values, store => (store, [.saveRows secretEntries values, .saveValues values])
  | .saveRows [] _, store => (store, [])
  | .saveRows (secret :: rows) values, store =>
    let row := store.saveRow secret values reply
    (row.1, row.2 ++ [.saveRows rows values])
  | .saveValues [], store => (store, [])
  | .saveValues ((secret, value) :: values), store => (store, [.save secret value true, .saveValues values])
  | .deleteKeyringSecrets, store =>
    let first := store.removals.isEmpty
    let store := { store with
      removals := store.removals ++ [store.removalCallers]
      removalCallers := store.removalCallers + 1 }
    if first then ({ store with removalError := none }, [.dropRows secretEntries]) else (store, [])
  | .dropRows [], store => (store, [.removeNext secretEntries])
  | .dropRows (secret :: rows), store =>
    let row := store.dropRow secret
    (row.1, row.2 ++ [.dropRows rows])
  | .removeNext [], store => store.finishRemoval
  | .removeNext (secret :: rows), store => (store.askKeyring secret .delete (.removal rows), [])
  | .afterWritesAsked, store =>
    ({ store with afterWrites := some store.callbacks, callbacks := store.callbacks + 1 }, [.notifyIfWritesSettled])
  | .readSecret secret start, store =>
    (if start && (store.readWithoutKeyring secret).isNone then store.startRead secret else store.cacheFallback secret, [])
  | .writeWaiting secret, store =>
    (if (store.cache secret).phase = .idle && (store.cache secret).waiting.isSome then store.writeNext secret else store,
      [.notifyIfWritesSettled])
  | .notifyIfWritesSettled, store =>
    match store.afterWrites with
    | some callback =>
      if store.writesSettled then
        ({ store with afterWrites := none, callbacksRun := store.callbacksRun ++ [callback] }, [.callAfterWrites callback])
      else (store, [])
    | none => (store, [])
  | .posted, store =>
    match store.posted with
    | [] => (store, [])
    | .settle secret request refusal :: posted => ({ store with posted }).settle secret request false refusal
    | .finishWrite secret answer :: posted => ({ store with posted }).finishWrite secret answer reply
  | .answered job answer, store => if job ∈ store.jobs then store.answered job answer reply else (store, [])
  | .settingsSaved, store => (if !store.closed && reply.saved then store.saveFile else store, [])
  | .settingsDeleted keepMarkers close, store => (store.deleteSettings keepMarkers close, [])
  | .perform secret effective, store =>
    ({ store with ring := Function.update store.ring secret ((store.ring secret).perform effective) }, [])
  | .saveFinished _, store => (store, [])
  | .removalDone caller, store => ({ store with removalsAnswered := store.removalsAnswered ++ [caller] }, [])
  | .callAfterWrites _, store => (store, [])

/-- The calls of `saveFinished`'s handlers, a removal's caller and the callback of `afterWrites`. -/
def yields : Instr → Bool
  | .saveFinished _ | .removalDone _ | .callAfterWrites _ => true
  | _ => false

/-- What may be asked of the store whenever it does not run. -/
def enters : Instr → Bool
  | .save .. | .saveSecrets _ | .deleteKeyringSecrets | .afterWritesAsked | .readSecret .. | .settingsSaved
  | .settingsDeleted .. | .perform .. => true
  | _ => false

/-- What the event loop brings. -/
def wakes (store : SecretStore) : Instr → Bool
  | .posted => !store.posted.isEmpty
  | .answered job answer => store.jobs.contains job && (store.ring job.secret).answers job answer
  | _ => false

/-- The store as a re-entrant machine. -/
def machine : Machine SecretStore Instr Reply where
  exec
  yields
  enters _ := enters
  wakes

end SecretStore

end Speecher
