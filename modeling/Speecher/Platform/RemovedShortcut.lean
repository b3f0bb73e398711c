import Speecher.Platform.PortalGlobalShortcutBinder

/-!
# A removed shortcut stays removed

`watch` reads what the binder writes down: what was asked, which session is current, which sessions it has to close and
whether a registration is owed an answer. `Follows` relates the binder to it, and every event keeps that relation
(`step_keeps`).

* `removed_stays_removed`: after a removal nothing brings the shortcut back but a registration, one request at most is
  under way, signals count only from the current session, every session is current, being set up or closed, and a
  registration is answered once.
-/

namespace Speecher.PortalShortcuts

open Monitor

variable {d : Desktop} {u : Binder}

/-! ## What is watched -/

/-- Whether a registration is owed an answer; after a call to bind it may not come any more. -/
inductive Owed
  | nothing
  | maybe
  | due
  deriving DecidableEq

structure Watch where
  /-- Removed, and no registration asked for since. -/
  removed : Bool := false
  /-- Removed, and no registration succeeded since. -/
  unregistered : Bool := false
  owed : Owed := .nothing
  current : Text := []
  /-- The sessions received and not closed. -/
  opened : List Text := []

namespace Watch

def after (w : Watch) : Told → Watch
  | .asked .bind => { w with owed := if w.owed = .nothing then .nothing else .maybe }
  | .asked .registerShortcut => { w with removed := false, owed := .due }
  | .asked .removeRegistration => { w with removed := true, unregistered := true, owed := .nothing }
  | .received session => { w with opened := w.opened ++ [session] }
  | .closedSession session => { w with opened := w.opened.filter (· ≠ session) }
  | .current session => { w with current := session }
  | .registrationFinished ok _ => { w with owed := .nothing, unregistered := w.unregistered && !ok }
  | _ => w

/-- What may be told. -/
def Allows (d : Desktop) (w : Watch) : Told → Prop
  | .sent kind _ => kind.creates = true → w.removed = false ∧ (kind = .createForRestore → w.unregistered = false)
  | .current session => session ≠ [] → w.removed = false
  | .activated session id | .deactivated session id _ =>
    w.removed = false ∧ session = w.current ∧ session ≠ [] ∧ id = d.action.id
  | .registrationFinished _ _ => w.owed ≠ .nothing
  | _ => True

end Watch

def watch (d : Desktop) : Monitor Watch Told where
  start := {}
  after := Watch.after
  Allows := Watch.Allows d

/-! ## How the binder follows -/

/-- The most answers that can still come before a registration asked for is answered. -/
def Binder.left (u : Binder) : ℕ :=
  if u.supportKnown = false then if u.registerWhenSupported then 4 else 0
  else if u.identityPending then if u.registrationAfterIdentity then 3 else 0
  else if u.underWay = some .createForRegistration then 2
  else if u.underWay = some .bind then 1
  else 0

/-- The most answers a request can still take until a registration is answered. -/
def RequestKind.left : RequestKind → ℕ
  | createForRegistration => 2
  | bind => 1
  | createForRestore | list => 0

theorem RequestKind.left_pos {kind : RequestKind} (h : kind.isRegistration = true) : 0 < kind.left := by
  cases kind with
  | createForRegistration => exact Nat.zero_lt_two
  | bind => exact Nat.zero_lt_one
  | createForRestore => cases h
  | list => cases h

theorem RequestKind.left_zero {kind : RequestKind} (h : kind.isRegistration = false) : kind.left = 0 := by
  cases kind with
  | createForRegistration => cases h
  | bind => cases h
  | createForRestore => rfl
  | list => rfl

structure Linked (d : Desktop) (u : Binder) (w : Watch) : Prop where
  only : ∀ i r, u.requests[i]? = some r → r.finished = false → u.request = some i
  current : w.current = u.sessionPath
  opened : ∀ s ∈ w.opened, s ≠ [] ∧ (s = u.sessionPath ∨ s = u.pendingSessionPath)
  removed : w.removed = true → w.unregistered = true
  unsupported : u.supported = false → u.underWay = none ∧ u.identityPending = false
  unknown : u.supportKnown = false → u.supported = false
  known : u.supportKnown = true → u.registerWhenSupported = false
  identity : u.identityPending = true → u.underWay = none
  ready : u.identityReady = true ∨ d.sandboxed = true → u.identityPending = false
  cancelled : u.identityContinuationCancelled = true → u.registrationAfterIdentity = false

/-- Nothing brings a removed shortcut back. -/
structure Removed (u : Binder) : Prop where
  session : u.sessionPath = []
  register : u.registerWhenSupported = false
  underWay : u.underWay = none
  identity : u.identityPending = true → u.identityContinuationCancelled = true

/-- A session is set up by the request under way. -/
def SetUp (u : Binder) : Prop := u.pendingSessionPath ≠ [] → ∃ kind, u.underWay = some kind ∧ kind.creates = false

structure Follows (d : Desktop) (k : ℕ) (u : Binder) (w : Watch) : Prop where
  linked : Linked d u w
  unregistered : w.unregistered = true → u.cleared = true
  removed : w.removed = true → Removed u
  setUp : SetUp u
  left : u.left ≤ k
  nothing : w.owed = .nothing → u.left = 0
  due : w.owed = .due → 0 < u.left

/-- A request of the kind has ended or may be made. -/
structure Turn (d : Desktop) (kind : RequestKind) (u : Binder) (w : Watch) : Prop where
  linked : Linked d u w
  unregistered : w.unregistered = true → u.cleared = true
  removed : w.removed = false
  finished : ∀ r ∈ u.requests, r.finished = true
  known : u.supportKnown = true
  supported : u.supported = true
  identity : u.identityPending = false
  owed : kind.isRegistration = true → w.owed ≠ .nothing
  free : kind.isRegistration = false → w.owed ≠ .due

variable {k : ℕ} {w : Watch}

theorem Follows.mono {k' : ℕ} (h : Follows d k u w) (hk : k ≤ k') : Follows d k' u w :=
  { h with left := h.left.trans hk }

theorem left_le_four (u : Binder) : u.left ≤ 4 := by
  unfold Binder.left
  split_ifs <;> omega

theorem left_of_underWay (hknown : u.supportKnown = true) (hidentity : u.identityPending = false) :
    u.left = (u.underWay.map RequestKind.left).getD 0 := by
  rw [Binder.left, hknown, if_neg (by decide), hidentity, if_neg (by decide)]
  cases u.underWay with
  | none => rfl
  | some kind => cases kind <;> rfl

theorem left_eq_zero (hknown : u.supportKnown = true) (hidentity : u.identityPending = false)
    (hidle : u.underWay = none) : u.left = 0 := by
  rw [left_of_underWay hknown hidentity, hidle]
  rfl

theorem underWay_none (h : ∀ r ∈ u.requests, r.finished = true) : u.underWay = none := by
  cases hunder : u.underWay with
  | none => rfl
  | some kind =>
    obtain ⟨r, hr, hkind⟩ := Option.bind_eq_some_iff.mp hunder
    obtain ⟨i, -, hi⟩ := Option.bind_eq_some_iff.mp hr
    rw [h r (List.mem_of_getElem? hi), if_pos rfl] at hkind
    cases hkind

/-- The request at an index is the one under way when it is not finished. -/
theorem underWay_of {i : ℕ} {r : PortalRequest} (hrequest : u.request = some i) (hr : u.requests[i]? = some r)
    (hfinished : r.finished = false) : u.underWay = some r.kind := by
  rw [Binder.underWay, hrequest]
  change (u.requests[i]?).bind _ = _
  rw [hr]
  exact if_neg (Bool.eq_false_iff.mp hfinished)

/-- The other requests are finished. -/
theorem finished_set (honly : ∀ i r, u.requests[i]? = some r → r.finished = false → u.request = some i) {i : ℕ}
    {r : PortalRequest} (hr : u.request = some i ∨ u.request = none) (hfinished : r.finished = true) :
    ∀ s ∈ u.requests.set i r, s.finished = true := by
  intro s hs
  obtain ⟨j, hj⟩ := List.mem_iff_getElem?.mp hs
  by_contra hne
  have hunfinished := Bool.eq_false_iff.mpr hne
  rw [List.getElem?_set] at hj
  split_ifs at hj with hij hlt
  · cases hj
    exact hne hfinished
  · have hrequest := honly j s hj hunfinished
    rcases hr with hr | hr
    · exact hij (Option.some.inj (hr.symm.trans hrequest))
    · rw [hr] at hrequest
      cases hrequest

/-! ## Parts of the code -/

theorem cancel_finished (r : PortalRequest) : r.cancel.1.finished = true := by
  unfold PortalRequest.cancel
  split
  · rfl
  · rfl
  · exact decide_eq_true ‹_›

/-- What a request that is cancelled tells is of no account. -/
theorem cancel_told (r : PortalRequest) (w : Watch) :
    (watch d).AllowsAll w r.cancel.2 ∧ r.cancel.2.foldl (watch d).after w = w := by
  unfold PortalRequest.cancel
  split
  · exact ⟨trivial, rfl⟩
  · exact ⟨⟨trivial, trivial⟩, rfl⟩
  · exact ⟨trivial, rfl⟩

theorem cancelRequest_eq (honly : ∀ i r, u.requests[i]? = some r → r.finished = false → u.request = some i) :
    ∃ requests log, u.cancelRequest = ({ u with requests := requests }, log) ∧ (∀ r ∈ requests, r.finished = true) ∧
      ∀ w, (watch d).AllowsAll w log ∧ log.foldl (watch d).after w = w := by
  cases hunder : u.request.bind fun i => u.requests[i]?.map fun r =>
      (({ u with requests := u.requests.set i r.cancel.1 }, r.cancel.2) : Out Binder Told) with
  | none =>
    refine ⟨u.requests, [], by rw [Binder.cancelRequest, hunder]; rfl, fun r hr => ?_, fun w => ⟨trivial, rfl⟩⟩
    obtain ⟨i, hi⟩ := List.mem_iff_getElem?.mp hr
    by_contra hne
    rw [honly i r hi (Bool.eq_false_iff.mpr hne), Option.bind_some, hi] at hunder
    cases hunder
  | some out =>
    obtain ⟨i, hrequest, hout⟩ := Option.bind_eq_some_iff.mp hunder
    obtain ⟨r, -, rfl⟩ := Option.map_eq_some_iff.mp hout
    exact ⟨u.requests.set i r.cancel.1, r.cancel.2, by rw [Binder.cancelRequest, hunder]; rfl,
      finished_set honly (.inl hrequest) (cancel_finished r), cancel_told r⟩

theorem closePendingSession_eq (u : Binder) :
    ∃ log, u.closePendingSession = ({ u with pendingSessionPath := [] }, log) ∧
      ∀ w, (watch d).AllowsAll w log ∧ ∃ opened, log.foldl (watch d).after w = { w with opened := opened } ∧
        ∀ s ∈ opened, s ∈ w.opened ∧ (s ≠ [] → s ≠ u.pendingSessionPath) := by
  unfold Binder.closePendingSession
  split_ifs with hpending
  · refine ⟨[], by rw [← hpending], fun w => ⟨trivial, w.opened, rfl, fun s hs => ⟨hs, fun hne heq => ?_⟩⟩⟩
    exact hne (heq.trans hpending)
  · refine ⟨_, rfl, fun w => ⟨⟨trivial, trivial⟩, _, rfl, fun s hs => ?_⟩⟩
    obtain ⟨hs, hne⟩ := List.mem_filter.mp hs
    exact ⟨hs, fun _ => of_decide_eq_true hne⟩

/-- The binder without a session being set up. -/
theorem Linked.idle (h : Linked d u w) {requests : List PortalRequest} (hfinished : ∀ r ∈ requests, r.finished = true)
    {opened : List Text} (hopened : ∀ s ∈ opened, s ∈ w.opened ∧ (s ≠ [] → s ≠ u.pendingSessionPath)) :
    Linked d { u with requests := requests, pendingSessionPath := [] } { w with opened := opened } where
  only i r hr hunfinished := by
    rw [hfinished r (List.mem_of_getElem? hr)] at hunfinished
    cases hunfinished
  current := h.current
  opened s hs := by
    obtain ⟨hmem, hpending⟩ := hopened s hs
    obtain ⟨hne, heq⟩ := h.opened s hmem
    exact ⟨hne, .inl (heq.resolve_right (hpending hne))⟩
  removed := h.removed
  unsupported hsupported := ⟨underWay_none hfinished, (h.unsupported hsupported).2⟩
  unknown := h.unknown
  known := h.known
  identity _ := underWay_none hfinished
  ready := h.ready
  cancelled := h.cancelled

/-- The request under way is withdrawn and the session being set up closed. -/
theorem idle_keeps {R : Binder → Watch → Prop} {f : Binder → Out Binder Told} (h : Linked d u w)
    (hf : ∀ requests opened, (∀ r ∈ requests, r.finished = true) →
      Linked d { u with requests := requests, pendingSessionPath := [] } { w with opened := opened } →
      (watch d).Keeps R { w with opened := opened } (f { u with requests := requests, pendingSessionPath := [] })) :
    (watch d).Keeps R w ((u.cancelRequest.andThen Binder.closePendingSession).andThen f) := by
  obtain ⟨requests, log, hcancel, hfinished, hlog⟩ := cancelRequest_eq (d := d) h.only
  obtain ⟨log', hclose, hlog'⟩ := closePendingSession_eq (d := d) { u with requests := requests }
  obtain ⟨hallows, hw⟩ := hlog w
  obtain ⟨hallows', opened, hw', hopened⟩ := hlog' w
  have hout : u.cancelRequest.andThen Binder.closePendingSession =
      ({ u with requests := requests, pendingSessionPath := [] }, log ++ log') := by
    rw [hcancel, Out.andThen]
    dsimp only
    rw [hclose]
  have hread : (log ++ log').foldl (watch d).after w = { w with opened := opened } := by
    rw [List.foldl_append, hw, hw']
  rw [hout]
  refine Keeps.told (allowsAll_append.mpr ⟨hallows, ?_⟩) ?_
  · rwa [hw]
  · rw [hread]
    exact hf requests opened hfinished (h.idle hfinished hopened)

/-- The session being set up is closed once its request has ended. -/
theorem closePendingSession_keeps {kind : RequestKind} (h : Turn d kind u w) (hkind : kind.isRegistration = false) :
    (watch d).Keeps (Follows d 0) w u.closePendingSession := by
  obtain ⟨log, hclose, hlog⟩ := closePendingSession_eq (d := d) u
  obtain ⟨hallows, opened, hw, hopened⟩ := hlog w
  rw [hclose]
  refine ⟨hallows, ?_⟩
  rw [hw]
  have hleft : ({ u with pendingSessionPath := [] } : Binder).left = 0 :=
    left_eq_zero h.known h.identity (underWay_none h.finished)
  exact ⟨h.linked.idle h.finished hopened, h.unregistered,
    fun hremoved => absurd hremoved (Bool.eq_false_iff.mp h.removed),
    fun hpending => absurd rfl hpending, hleft.le, fun _ => hleft, fun hdue => absurd hdue (h.free hkind)⟩

theorem finished_append {requests : List PortalRequest} (hfinished : ∀ r ∈ requests, r.finished = true)
    {r : PortalRequest} (hr : r.finished = true) : ∀ s ∈ requests ++ [r], s.finished = true := by
  intro s hs
  rcases List.mem_append.mp hs with hs | hs
  · exact hfinished s hs
  · exact List.mem_singleton.mp hs ▸ hr

/-- A request that fails at once. -/
theorem Turn.addFinished {kind : RequestKind} (h : Turn d kind u w) {r : PortalRequest} (hr : r.finished = true) :
    Turn d kind (u.addRequest r) w := by
  have hall := finished_append h.finished hr
  refine ⟨⟨fun i s hs hunfinished => ?_, h.linked.current, h.linked.opened, h.linked.removed,
    fun hsupported => ⟨underWay_none hall, (h.linked.unsupported hsupported).2⟩, h.linked.unknown, h.linked.known,
    fun _ => underWay_none hall, h.linked.ready, h.linked.cancelled⟩, h.unregistered, h.removed, hall, h.known,
    h.supported, h.identity, h.owed, h.free⟩
  rw [hall s (List.mem_of_getElem? hs)] at hunfinished
  cases hunfinished

/-- A request that is under way. -/
theorem Turn.addRequest {r : PortalRequest} (h : Turn d r.kind u w) (hr : r.finished = false)
    (hpending : u.pendingSessionPath ≠ [] → r.kind.creates = false) : Follows d r.kind.left (u.addRequest r) w := by
  have hunder : (u.addRequest r).underWay = some r.kind := underWay_of rfl List.getElem?_concat_length hr
  have hleft : (u.addRequest r).left = r.kind.left := by
    have hleft : (u.addRequest r).left = _ := left_of_underWay h.known h.identity
    rwa [hunder] at hleft
  refine ⟨⟨fun i s hs hunfinished => ?_, h.linked.current, h.linked.opened, h.linked.removed,
    fun hsupported => absurd h.supported (Bool.eq_false_iff.mp hsupported), h.linked.unknown, h.linked.known,
    fun hidentity => absurd hidentity (Bool.eq_false_iff.mp h.identity), h.linked.ready, h.linked.cancelled⟩,
    h.unregistered, fun hremoved => absurd hremoved (Bool.eq_false_iff.mp h.removed),
    fun hne => ⟨r.kind, hunder, hpending hne⟩, hleft.le, fun howed => ?_, fun hdue => ?_⟩
  · rcases Nat.lt_or_ge i u.requests.length with hlt | hge
    · change (u.requests ++ [r])[i]? = some s at hs
      rw [List.getElem?_append_left hlt] at hs
      rw [h.finished s (List.mem_of_getElem? hs)] at hunfinished
      cases hunfinished
    · have hlt : i < (u.requests ++ [r]).length := (List.getElem?_eq_some_iff.mp hs).1
      rw [List.length_append, List.length_singleton] at hlt
      rw [show i = u.requests.length by omega]
      rfl
  · rw [hleft]
    exact RequestKind.left_zero (Bool.eq_false_iff.mpr fun hkind => h.owed hkind howed)
  · rw [hleft]
    refine RequestKind.left_pos ?_
    by_contra hne
    exact h.free (Bool.eq_false_iff.mpr hne) hdue

/-- **A request is made.** -/
theorem sendRequest_keeps {failed : RequestKind → Text → Binder → Out Binder Told} (kind : RequestKind)
    (call : PortalCall) (h : Turn d kind u w) (hpending : u.pendingSessionPath ≠ [] → kind.creates = false)
    (hrestore : kind = .createForRestore → w.unregistered = false)
    (hfailed : ∀ reason u', Turn d kind u' w → (watch d).Keeps (Follows d 0) w (failed kind reason u')) :
    (watch d).Keeps (Follows d kind.left) w (Binder.sendRequest d failed kind call u) := by
  unfold Binder.sendRequest
  dsimp only
  refine Keeps.ite (fun _ => ?_) fun _ => ?_
  · refine Keeps.single (fun _ => ⟨h.removed, hrestore⟩) ?_
    exact Turn.addRequest (r := ⟨kind, _, .calling, [], false⟩) h rfl hpending
  · exact (hfailed _ _ (h.addFinished rfl)).mono fun _ _ hfollows => hfollows.mono (Nat.zero_le _)

/-! ## Sessions -/

/-- The identity is asked for, and a registration may wait for it. -/
theorem Linked.identify (h : Linked d u w) (hfinished : ∀ r ∈ u.requests, r.finished = true)
    (hsupported : u.supported = true) (hready : ¬ (u.identityReady = true ∨ d.sandboxed = true)) (registration : Bool) :
    Linked d { u with
      identityPending := true
      identityContinuationCancelled := false
      registrationAfterIdentity := registration } w where
  only i r hr hunfinished := by
    rw [hfinished r (List.mem_of_getElem? hr)] at hunfinished
    cases hunfinished
  current := h.current
  opened := h.opened
  removed := h.removed
  unsupported hfalse := absurd hsupported (Bool.eq_false_iff.mp hfalse)
  unknown := h.unknown
  known := h.known
  identity _ := underWay_none hfinished
  ready hor := absurd hor hready
  cancelled hcancelled := by cases hcancelled

theorem identify_follows (h : Linked d u w) (hunregistered : w.unregistered = true → u.cleared = true)
    (hremoved : w.removed = false) (hfinished : ∀ r ∈ u.requests, r.finished = true) (hknown : u.supportKnown = true)
    (hsupported : u.supported = true) (hready : ¬ (u.identityReady = true ∨ d.sandboxed = true))
    (hpending : u.pendingSessionPath = []) (registration : Bool) (hk : registration = true → 3 ≤ k)
    (hnothing : w.owed = .nothing → registration = false) (hdue : w.owed = .due → registration = true) :
    Follows d k { u with
      identityPending := true
      identityContinuationCancelled := false
      registrationAfterIdentity := registration } w := by
  have hleft : ({ u with
      identityPending := true
      identityContinuationCancelled := false
      registrationAfterIdentity := registration } : Binder).left = if registration then 3 else 0 := by
    rw [Binder.left, if_neg (by rw [hknown]; decide), if_pos rfl]
  refine ⟨h.identify hfinished hsupported hready registration, hunregistered,
    fun htrue => absurd htrue (Bool.eq_false_iff.mp hremoved), fun hne => absurd hpending hne, ?_, fun howed => ?_,
    fun howed => ?_⟩
  · rw [hleft]
    split_ifs with hregistration
    · exact hk hregistration
    · exact Nat.zero_le k
  · rw [hleft, hnothing howed]
    rfl
  · rw [hleft, hdue howed]
    exact Nat.zero_lt_succ 2

/-- What a session needs to be asked for. -/
structure MayCreate (d : Desktop) (registration : Bool) (k : ℕ) (u : Binder) (w : Watch) : Prop where
  linked : Linked d u w
  unregistered : w.unregistered = true → u.cleared = true
  removed : w.removed = false
  known : u.supportKnown = true
  owed : registration = true → w.owed ≠ .nothing
  free : registration = false → w.owed ≠ .due
  waits : u.identityPending = true → u.registrationAfterIdentity = true → w.owed ≠ .nothing ∧ 3 ≤ k
  left : registration = true → (if u.identityReady then 2 else 3) ≤ k

section Create

variable {failed : RequestKind → Text → Binder → Out Binder Told} {registration : Bool}

/-- The request for a session. -/
theorem create_keeps (h : MayCreate d registration k u w) (hsupported : u.supported = true)
    (hfinished : ∀ r ∈ u.requests, r.finished = true) (hempty : u.pendingSessionPath = [])
    (hrestore : registration = false → w.unregistered = false)
    (hfailed : ∀ kind reason u', kind.isRegistration = registration → Turn d kind u' w →
      (watch d).Keeps (Follows d 0) w (failed kind reason u'))
    (hidentity : u.identityPending = false) :
    (watch d).Keeps (Follows d k) w (Binder.sendRequest d failed
      (if registration then .createForRegistration else .createForRestore)
      (.createSession ("speecher_session_".toList ++ d.sessionUuid u.requests.length)) u) := by
  cases registration with
  | true =>
    have hk : 2 ≤ k := by
      have hleft := h.left rfl
      split_ifs at hleft <;> omega
    refine (sendRequest_keeps .createForRegistration _ ⟨h.linked, h.unregistered, h.removed, hfinished, h.known,
      hsupported, hidentity, fun _ => h.owed rfl, fun hfalse => (by cases hfalse)⟩ (fun hne => absurd hempty hne)
      (fun heq => by cases heq) fun reason u' hturn => hfailed _ _ _ rfl hturn).mono fun _ _ hfollows =>
        hfollows.mono hk
  | false =>
    refine (sendRequest_keeps .createForRestore _ ⟨h.linked, h.unregistered, h.removed, hfinished, h.known,
      hsupported, hidentity, fun htrue => (by cases htrue), fun _ => h.free rfl⟩ (fun hne => absurd hempty hne)
      (fun _ => hrestore rfl) fun reason u' hturn => hfailed _ _ _ rfl hturn).mono fun _ _ hfollows =>
        hfollows.mono (Nat.zero_le k)

/-- The request, or the identity before it. -/
theorem identified_keeps (h : MayCreate d registration k u w) (hsupported : u.supported = true)
    (hfinished : ∀ r ∈ u.requests, r.finished = true) (hempty : u.pendingSessionPath = [])
    (hrestore : registration = false → w.unregistered = false)
    (hfailed : ∀ kind reason u', kind.isRegistration = registration → Turn d kind u' w →
      (watch d).Keeps (Follows d 0) w (failed kind reason u')) :
    (watch d).Keeps (Follows d k) w (if (Binder.ensureHostIdentity d registration u).2 then
        (Binder.ensureHostIdentity d registration u).1.andThen fun u => Binder.sendRequest d failed
          (if registration then .createForRegistration else .createForRestore)
          (.createSession ("speecher_session_".toList ++ d.sessionUuid u.requests.length)) u
      else (Binder.ensureHostIdentity d registration u).1) := by
  unfold Binder.ensureHostIdentity
  by_cases hready : u.identityReady = true
  · rw [if_pos hready, if_pos rfl]
    exact Keeps.told trivial
      (create_keeps h hsupported hfinished hempty hrestore hfailed (h.linked.ready (.inl hready)))
  rw [if_neg hready]
  by_cases hsandboxed : d.sandboxed = true
  · rw [if_pos hsandboxed, if_pos rfl]
    have hidentity := h.linked.ready (.inr hsandboxed)
    have hmay : MayCreate d registration k { u with identityReady := true } w :=
      { h with
        linked := { h.linked with ready := fun _ => hidentity }
        left := fun hregistration => by
          have hleft := h.left hregistration
          rw [if_neg hready] at hleft
          rw [if_pos rfl]
          omega }
    exact Keeps.told trivial (create_keeps hmay hsupported hfinished hempty hrestore hfailed hidentity)
  rw [if_neg hsandboxed]
  have hneither : ¬ (u.identityReady = true ∨ d.sandboxed = true) := not_or.mpr ⟨hready, hsandboxed⟩
  have hk (hregistration : registration = true) : 3 ≤ k := by
    have hleft := h.left hregistration
    rwa [if_neg hready] at hleft
  have hnothing (howed : w.owed = .nothing) : registration = false :=
    Bool.eq_false_iff.mpr fun hregistration => h.owed hregistration howed
  have hdue (howed : w.owed = .due) : registration = true := by
    by_contra hne
    exact h.free (Bool.eq_false_iff.mpr hne) howed
  by_cases hpending : u.identityPending = true
  · rw [if_pos hpending, if_neg Bool.false_ne_true]
    refine Keeps.silent ?_
    have hfollows := identify_follows (k := k) h.linked h.unregistered h.removed hfinished h.known hsupported hneither
      hempty (u.registrationAfterIdentity || registration) (fun hor => ?_) (fun howed => ?_)
      fun howed => Bool.or_eq_true_iff.mpr (.inr (hdue howed))
    · rwa [← hpending] at hfollows
    · rcases Bool.or_eq_true_iff.mp hor with hwaits | hregistration
      · exact (h.waits hpending hwaits).2
      · exact hk hregistration
    · refine Bool.or_eq_false_iff.mpr ⟨?_, hnothing howed⟩
      exact Bool.eq_false_iff.mpr fun hwaits => (h.waits hpending hwaits).1 howed
  · rw [if_neg hpending, if_neg Bool.false_ne_true]
    exact Keeps.single trivial (identify_follows h.linked h.unregistered h.removed hfinished h.known hsupported hneither
      hempty registration hk hnothing hdue)

/-- **A session is asked for** once what was under way is withdrawn. -/
theorem createWith_keeps (h : MayCreate d registration k u w) (hsupported : u.supported = true)
    (hrestore : registration = false → w.unregistered = false)
    (hfailed : ∀ kind reason u' w', kind.isRegistration = registration → Turn d kind u' w' →
      (watch d).Keeps (Follows d 0) w' (failed kind reason u')) :
    (watch d).Keeps (Follows d k) w ((u.cancelRequest.andThen Binder.closePendingSession).andThen fun u =>
      if (Binder.ensureHostIdentity d registration u).2 then
        (Binder.ensureHostIdentity d registration u).1.andThen fun u => Binder.sendRequest d failed
          (if registration then .createForRegistration else .createForRestore)
          (.createSession ("speecher_session_".toList ++ d.sessionUuid u.requests.length)) u
      else (Binder.ensureHostIdentity d registration u).1) :=
  idle_keeps h.linked fun _ _ hfinished hlinked => identified_keeps
    ⟨hlinked, h.unregistered, h.removed, h.known, h.owed, h.free, h.waits, h.left⟩ hsupported hfinished rfl hrestore
    fun kind reason u' hkind hturn => hfailed kind reason u' _ hkind hturn

end Create

theorem left_identity (hknown : u.supportKnown = true) (hpending : u.identityPending = true) :
    u.left = if u.registrationAfterIdentity then 3 else 0 := by
  rw [Binder.left, if_neg (by rw [hknown]; decide), if_pos hpending]

/-- **A restore**, when no registration waits for its answer. -/
theorem restore_keeps (h : Follows d k u w) (hknown : u.supportKnown = true) (hfree : w.owed ≠ .due) :
    (watch d).Keeps (Follows d k) w (Binder.createSession d false u) := by
  rw [Binder.createSession_false]
  unfold Binder.createWith
  refine Keeps.ite (fun _ => Keeps.silent h) fun hcleared => Keeps.ite (fun _ => Keeps.silent h) fun hsupported => ?_
  have hsupported' : u.supported = true := by simpa using hsupported
  have hunregistered : w.unregistered = false := Bool.eq_false_iff.mpr fun hunregistered => hcleared <| by
    rw [h.unregistered hunregistered]
    rfl
  have hremoved : w.removed = false := by
    refine Bool.eq_false_iff.mpr fun hremoved => ?_
    rw [h.linked.removed hremoved] at hunregistered
    cases hunregistered
  have hwaits (hpending : u.identityPending = true) (hafter : u.registrationAfterIdentity = true) : u.left = 3 := by
    rw [left_identity hknown hpending, hafter]
    rfl
  refine createWith_keeps ⟨h.linked, h.unregistered, hremoved, hknown, fun htrue => (by cases htrue), fun _ => hfree,
    fun hpending hafter => ⟨fun howed => ?_, ?_⟩, fun htrue => (by cases htrue)⟩ hsupported' (fun _ => hunregistered)
    fun _ _ _ _ hkind hturn => closePendingSession_keeps hturn hkind
  · have hzero := h.nothing howed
    rw [hwaits hpending hafter] at hzero
    cases hzero
  · rw [← hwaits hpending hafter]
    exact h.left

/-- **A request that failed.** -/
theorem requestFailed_keeps {kind : RequestKind} (h : Turn d kind u w) (reason : Text) :
    (watch d).Keeps (Follows d 0) w (Binder.requestFailed d kind reason u) := by
  unfold Binder.requestFailed
  refine Keeps.ite (fun hkind => ?_) fun hkind => closePendingSession_keeps h (Bool.eq_false_iff.mpr hkind)
  obtain ⟨log, hclose, hlog⟩ := closePendingSession_eq (d := d) u
  obtain ⟨hallows, opened, hw, hopened⟩ := hlog w
  have hleft : ({ u with pendingSessionPath := [] } : Binder).left = 0 :=
    left_eq_zero h.known h.identity (underWay_none h.finished)
  rw [hclose]
  rw [Out.andThen]
  refine Keeps.told ?_ ?_
  · refine allowsAll_append.mpr ⟨hallows, ?_⟩
    rw [hw]
    exact ⟨h.owed hkind, trivial⟩
  · rw [List.foldl_append, hw]
    refine restore_keeps ?_ h.known fun hdue => by cases hdue
    have hlinked := h.linked.idle h.finished hopened
    exact ⟨{ hlinked with removed := fun hremoved => absurd hremoved (Bool.eq_false_iff.mp h.removed) },
      fun hunregistered => h.unregistered (Bool.and_eq_true_iff.mp hunregistered).1,
      fun hremoved => absurd hremoved (Bool.eq_false_iff.mp h.removed), fun hne => absurd rfl hne, hleft.le,
      fun _ => hleft, fun hdue => by cases hdue⟩

/-- **A registration**: it fails at once, or its request or the identity before it is under way. -/
theorem createSession_keeps (h : MayCreate d true k u w) (hsetUp : SetUp u) :
    (watch d).Keeps (Follows d k) w (Binder.createSession d true u) := by
  unfold Binder.createSession Binder.createWith
  refine Keeps.ite (fun hfalse => by cases hfalse) fun _ => Keeps.ite (fun hsupported => ?_) fun hsupported => ?_
  · obtain ⟨hidle, hidentity⟩ := h.linked.unsupported (by simpa using hsupported)
    have hleft := left_eq_zero h.known hidentity hidle
    rw [if_pos rfl]
    refine Keeps.single (h.owed rfl) ?_
    exact ⟨{ h.linked with removed := fun hremoved => absurd hremoved (Bool.eq_false_iff.mp h.removed) },
      fun hunregistered => h.unregistered (Bool.and_eq_true_iff.mp hunregistered).1,
      fun hremoved => absurd hremoved (Bool.eq_false_iff.mp h.removed), hsetUp, hleft.le.trans (Nat.zero_le k),
      fun _ => hleft, fun hdue => by cases hdue⟩
  · exact createWith_keeps h (by simpa using hsupported) (fun hfalse => by cases hfalse)
      fun _ reason _ _ _ hturn => requestFailed_keeps hturn reason

/-! ## Answers of requests -/

/-- The session that was set up becomes the current one. -/
theorem activatePendingSession_told (trigger : Text) (hremoved : w.removed = false)
    (hopened : ∀ s ∈ w.opened, s ≠ [] ∧ (s = u.sessionPath ∨ s = u.pendingSessionPath)) :
    (watch d).AllowsAll w (u.activatePendingSession trigger).2 ∧
      ∃ opened, (u.activatePendingSession trigger).2.foldl (watch d).after w =
        { w with current := u.pendingSessionPath, opened := opened } ∧
        ∀ s ∈ opened, s ≠ [] ∧ s = u.pendingSessionPath := by
  unfold Binder.activatePendingSession
  by_cases hprevious : u.sessionPath ≠ u.pendingSessionPath ∧ u.sessionPath ≠ []
  · rw [if_pos hprevious]
    refine ⟨⟨fun _ => hremoved, trivial, trivial, trivial⟩, w.opened.filter (· ≠ u.sessionPath), rfl, fun s hs => ?_⟩
    obtain ⟨hs, hne⟩ := List.mem_filter.mp hs
    obtain ⟨hempty, heq⟩ := hopened s hs
    exact ⟨hempty, heq.resolve_left (of_decide_eq_true hne)⟩
  · rw [if_neg hprevious]
    refine ⟨⟨fun _ => hremoved, trivial, trivial⟩, w.opened, rfl, fun s hs => ?_⟩
    obtain ⟨hempty, heq⟩ := hopened s hs
    refine ⟨hempty, heq.elim (fun heq => ?_) id⟩
    by_contra hne
    exact hprevious ⟨fun hsame => hne (heq.trans hsame), fun hnone => hempty (heq.trans hnone)⟩

/-- The binder with the session that was set up. -/
theorem Turn.activated {kind : RequestKind} (h : Turn d kind u w) (trigger : Text) {opened : List Text}
    (hopened : ∀ s ∈ opened, s ≠ [] ∧ s = u.pendingSessionPath) (cleared : Bool) :
    Linked d { (u.activatePendingSession trigger).1 with cleared := cleared }
      { w with current := u.pendingSessionPath, opened := opened } where
  only i r hr hunfinished := by
    rw [h.finished r (List.mem_of_getElem? hr)] at hunfinished
    cases hunfinished
  current := rfl
  opened s hs := ⟨(hopened s hs).1, .inl (hopened s hs).2⟩
  removed := h.linked.removed
  unsupported hsupported := absurd h.supported (Bool.eq_false_iff.mp hsupported)
  unknown := h.linked.unknown
  known := h.linked.known
  identity _ := underWay_none h.finished
  ready := h.linked.ready
  cancelled := h.linked.cancelled

/-- **A session that was created.** -/
theorem sessionCreated_keeps {kind : RequestKind} (h : Turn d kind u w) (hcreates : kind.creates = true)
    (hempty : u.pendingSessionPath = []) (session : Text) :
    (watch d).Keeps (Follows d (kind.left - 1)) w (Binder.sessionCreated d kind session u) := by
  unfold Binder.sessionCreated
  refine Keeps.ite (fun _ => ?_) fun hsession => ?_
  · have hu : ({ u with pendingSessionPath := [] } : Binder) = u := by rw [← hempty]
    rw [hu]
    exact (requestFailed_keeps h _).mono fun _ _ hfollows => hfollows.mono (Nat.zero_le _)
  · refine Keeps.told ⟨trivial, trivial⟩ ?_
    have hlinked : Linked d { u with pendingSessionPath := session } { w with opened := w.opened ++ [session] } :=
      { h.linked with
        opened := fun s hs => by
          rcases List.mem_append.mp hs with hs | hs
          · obtain ⟨hne, heq⟩ := h.linked.opened s hs
            exact ⟨hne, .inl (heq.resolve_right fun heq => hne (heq.trans hempty))⟩
          · rw [List.mem_singleton.mp hs]
            exact ⟨hsession, .inr rfl⟩ }
    cases kind with
    | createForRegistration =>
      exact sendRequest_keeps .bind _ ⟨hlinked, h.unregistered, h.removed, h.finished, h.known, h.supported,
        h.identity, fun _ => h.owed rfl, fun hfalse => (by cases hfalse)⟩ (fun _ => rfl) (fun heq => by cases heq)
        fun reason _ hturn => requestFailed_keeps hturn reason
    | createForRestore =>
      exact sendRequest_keeps .list _ ⟨hlinked, h.unregistered, h.removed, h.finished, h.known, h.supported,
        h.identity, fun htrue => (by cases htrue), fun _ => h.free rfl⟩ (fun _ => rfl) (fun heq => by cases heq)
        fun reason _ hturn => requestFailed_keeps hturn reason
    | list => cases hcreates
    | bind => cases hcreates

/-- What a Response leads to. -/
theorem processRequestResponse_keeps {kind : RequestKind} (h : Turn d kind u w)
    (hempty : kind.creates = true → u.pendingSessionPath = []) (response : Response) :
    (watch d).Keeps (Follows d (kind.left - 1)) w (Binder.processRequestResponse d kind response u) := by
  have hfails (reason : Text) : (watch d).Keeps (Follows d (kind.left - 1)) w (Binder.requestFailed d kind reason u) :=
    (requestFailed_keeps h reason).mono fun _ _ hfollows => hfollows.mono (Nat.zero_le _)
  unfold Binder.processRequestResponse
  refine Keeps.ite (fun _ => hfails _) fun _ => Keeps.ite
    (fun hcreates => sessionCreated_keeps h hcreates (hempty hcreates) _) fun hcreates => Keeps.ite (fun hkind => ?_)
    fun hkind => ?_
  · subst hkind
    cases d.shortcutTrigger response.results with
    | none => exact closePendingSession_keeps h rfl
    | some trigger =>
      rw [Option.elim_some]
      obtain ⟨hallows, opened, hw, hopened⟩ := activatePendingSession_told (d := d) trigger h.removed h.linked.opened
      refine ⟨hallows, ?_⟩
      rw [hw]
      have hleft : (u.activatePendingSession trigger).1.left = 0 :=
        left_eq_zero h.known h.identity (underWay_none h.finished)
      exact ⟨h.activated trigger hopened u.cleared, h.unregistered,
        fun hremoved => absurd hremoved (Bool.eq_false_iff.mp h.removed),
        fun hne => absurd rfl hne, hleft.le, fun _ => hleft, fun hdue => absurd hdue (h.free rfl)⟩
  · obtain rfl : kind = .bind := by
      cases kind with
      | createForRestore => exact absurd rfl hcreates
      | createForRegistration => exact absurd rfl hcreates
      | list => exact absurd rfl hkind
      | bind => rfl
    cases d.shortcutTrigger response.results with
    | none => exact hfails _
    | some trigger =>
      rw [Option.elim_some]
      obtain ⟨hallows, opened, hw, hopened⟩ := activatePendingSession_told (d := d) (u := { u with cleared := false })
        trigger h.removed h.linked.opened
      refine Keeps.seq hallows ?_
      rw [hw]
      refine Keeps.single (h.owed rfl) ?_
      have hleft : (({ u with cleared := false } : Binder).activatePendingSession trigger).1.left = 0 :=
        left_eq_zero h.known h.identity (underWay_none h.finished)
      have hlinked := h.activated trigger hopened false
      exact ⟨{ hlinked with removed := fun hremoved => absurd hremoved (Bool.eq_false_iff.mp h.removed) },
        fun hunregistered => absurd (Bool.and_eq_true_iff.mp hunregistered).2 Bool.false_ne_true,
        fun hremoved => absurd hremoved (Bool.eq_false_iff.mp h.removed), fun hne => absurd rfl hne, hleft.le,
        fun _ => hleft, fun hdue => by cases hdue⟩

/-- **What the end of a request leads to.** -/
theorem requestEnded_keeps {kind : RequestKind} (h : Turn d kind u w)
    (hempty : kind.creates = true → u.pendingSessionPath = []) (outcome : Outcome) :
    (watch d).Keeps (Follows d (kind.left - 1)) w (Binder.requestEnded d kind u outcome) := by
  have hfails (reason : Text) : (watch d).Keeps (Follows d (kind.left - 1)) w (Binder.requestFailed d kind reason u) :=
    (requestFailed_keeps h reason).mono fun _ _ hfollows => hfollows.mono (Nat.zero_le _)
  cases outcome with
  | answered response => exact processRequestResponse_keeps h hempty response
  | failed error => exact hfails error
  | timedOut => exact hfails _

/-! ## Events -/

section Request

variable {i : ℕ} {r r' : PortalRequest}

/-- A request that goes on leaves the same kind under way. -/
theorem underWay_set (hr : u.requests[i]? = some r) (hkind : r'.kind = r.kind) (hfinished : r'.finished = r.finished) :
    ({ u with requests := u.requests.set i r' } : Binder).underWay = u.underWay := by
  unfold Binder.underWay
  dsimp only
  cases u.request with
  | none => rfl
  | some j =>
    rw [Option.bind_some, Option.bind_some, List.getElem?_set]
    split_ifs with hij hlt
    · rw [← hij, hr, Option.bind_some, Option.bind_some, hkind, hfinished]
    · exact absurd (List.getElem?_eq_some_iff.mp hr).1 hlt
    · rfl

theorem Follows.set (h : Follows d k u w) (hr : u.requests[i]? = some r) (hkind : r'.kind = r.kind)
    (hfinished : r'.finished = r.finished) : Follows d k { u with requests := u.requests.set i r' } w := by
  have hunder := underWay_set hr hkind hfinished
  have hleft : ({ u with requests := u.requests.set i r' } : Binder).left = u.left := by
    unfold Binder.left
    rw [hunder]
  refine ⟨⟨fun j s hs hunfinished => ?_, h.linked.current, h.linked.opened, h.linked.removed, fun hsupported => ?_,
    h.linked.unknown, h.linked.known, fun hidentity => hunder.trans (h.linked.identity hidentity), h.linked.ready,
    h.linked.cancelled⟩, h.unregistered, fun hremoved => ?_, fun hne => ?_, hleft.le.trans h.left,
    fun howed => hleft.trans (h.nothing howed), fun hdue => hleft.symm ▸ h.due hdue⟩
  · change (u.requests.set i r')[j]? = some s at hs
    rw [List.getElem?_set] at hs
    split_ifs at hs with hij hlt
    · cases hs
      rw [hfinished] at hunfinished
      exact hij ▸ h.linked.only i r hr hunfinished
    · exact h.linked.only j s hs hunfinished
  · exact ⟨hunder.trans (h.linked.unsupported hsupported).1, (h.linked.unsupported hsupported).2⟩
  · obtain ⟨hsession, hregister, hidle, hidentity⟩ := h.removed hremoved
    exact ⟨hsession, hregister, hunder.trans hidle, hidentity⟩
  · obtain ⟨kind, hkind, hcreates⟩ := h.setUp hne
    exact ⟨kind, hunder.trans hkind, hcreates⟩

/-- What a request under way says about the binder. -/
theorem Follows.underWay (h : Follows d k u w) (hr : u.requests[i]? = some r) (hfinished : r.finished = false) :
    u.underWay = some r.kind ∧ u.request = some i :=
  ⟨underWay_of (h.linked.only i r hr hfinished) hr hfinished, h.linked.only i r hr hfinished⟩

/-- A request under way that ends. -/
theorem Follows.turn (h : Follows d k u w) (hr : u.requests[i]? = some r) (hfinished : r.finished = false)
    (hended : r'.finished = true) :
    Turn d r.kind { u with requests := u.requests.set i r' } w ∧ u.left = r.kind.left ∧
      (r.kind.creates = true → u.pendingSessionPath = []) := by
  obtain ⟨hunder, hrequest⟩ := h.underWay hr hfinished
  have hsupported : u.supported = true := by
    by_contra hne
    have hnone := (h.linked.unsupported (Bool.eq_false_iff.mpr hne)).1
    rw [hunder] at hnone
    cases hnone
  have hknown : u.supportKnown = true := by
    by_contra hne
    have hfalse := h.linked.unknown (Bool.eq_false_iff.mpr hne)
    rw [hsupported] at hfalse
    cases hfalse
  have hidentity : u.identityPending = false := by
    refine Bool.eq_false_iff.mpr fun hpending => ?_
    have hnone := h.linked.identity hpending
    rw [hunder] at hnone
    cases hnone
  have hremoved : w.removed = false := by
    refine Bool.eq_false_iff.mpr fun hremoved => ?_
    have hnone := (h.removed hremoved).underWay
    rw [hunder] at hnone
    cases hnone
  have hleft : u.left = r.kind.left := by
    rw [left_of_underWay hknown hidentity, hunder]
    rfl
  have hall : ∀ s ∈ u.requests.set i r', s.finished = true := finished_set h.linked.only (.inl hrequest) hended
  refine ⟨⟨⟨fun j s hs hunfinished => ?_, h.linked.current, h.linked.opened, h.linked.removed,
    fun hfalse => absurd hsupported (Bool.eq_false_iff.mp hfalse), h.linked.unknown, h.linked.known,
    fun _ => underWay_none hall, h.linked.ready, h.linked.cancelled⟩, h.unregistered, hremoved, hall, hknown,
    hsupported, hidentity, fun hregistration howed => ?_, fun hregistration hdue => ?_⟩, hleft, fun hcreates => ?_⟩
  · rw [hall s (List.mem_of_getElem? hs)] at hunfinished
    cases hunfinished
  · exact (RequestKind.left_pos hregistration).ne' (hleft.symm.trans (h.nothing howed))
  · exact (h.due hdue).ne' (hleft.trans (RequestKind.left_zero hregistration))
  · by_contra hne
    obtain ⟨kind, hkind, hfalse⟩ := h.setUp hne
    rw [hunder] at hkind
    cases hkind
    rw [hcreates] at hfalse
    cases hfalse

/-- **A request changes or ends.** -/
theorem requestMoved_keeps (h : Follows d k u w) (hr : u.requests[i]? = some r)
    (moved : PortalRequest × Option Outcome)
    (hgoes : moved.2 = none → moved.1.kind = r.kind ∧ moved.1.finished = r.finished)
    (hends : moved.2.isSome = true → r.finished = false ∧ moved.1.finished = true) :
    (watch d).Keeps (Follows d (if moved.2.isSome then u.left - 1 else k)) w (u.requestMoved d i r moved) := by
  obtain ⟨r', outcome⟩ := moved
  cases outcome with
  | none =>
    obtain ⟨hkind, hfinished⟩ := hgoes rfl
    exact Keeps.silent (h.set hr hkind hfinished)
  | some outcome =>
    obtain ⟨hfinished, hended⟩ := hends rfl
    obtain ⟨hturn, hleft, hempty⟩ := h.turn hr hfinished hended
    change (watch d).Keeps (Follows d (u.left - 1)) w _
    rw [hleft]
    exact requestEnded_keeps hturn hempty outcome

end Request

/-- What a reply and a Response leave of a request. -/
theorem handleReply_goes (r : PortalRequest) (reply : Except Text Text) (hcalling : r.phase = .calling) :
    ((r.handleReply reply).2 = none →
      (r.handleReply reply).1.kind = r.kind ∧ (r.handleReply reply).1.finished = r.finished) ∧
    ((r.handleReply reply).2.isSome = true → r.finished = false ∧ (r.handleReply reply).1.finished = true) := by
  have hfinished : r.finished = false := by
    rw [PortalRequest.finished, hcalling]
    rfl
  cases reply with
  | error error => exact ⟨fun hnone => (by cases hnone), fun _ => ⟨hfinished, rfl⟩⟩
  | ok path =>
    unfold PortalRequest.handleReply
    dsimp only
    split
    · exact ⟨fun hnone => (by cases hnone), fun _ => ⟨hfinished, rfl⟩⟩
    · exact ⟨fun _ => ⟨rfl, hfinished.symm⟩, fun hsome => by cases hsome⟩

theorem handleResponse_goes (r : PortalRequest) (path : Text) (response : Response) :
    ((r.handleResponse path response).2 = none → (r.handleResponse path response).1.kind = r.kind ∧
      (r.handleResponse path response).1.finished = r.finished) ∧
    ((r.handleResponse path response).2.isSome = true →
      r.finished = false ∧ (r.handleResponse path response).1.finished = true) := by
  unfold PortalRequest.handleResponse
  by_cases hfinished : r.phase = .finished
  · rw [if_pos hfinished]
    exact ⟨fun _ => ⟨rfl, rfl⟩, fun hsome => by cases hsome⟩
  rw [if_neg hfinished]
  by_cases hpath : path ≠ r.path
  · rw [if_pos hpath]
    refine ⟨fun _ => ?_, fun hsome => by cases hsome⟩
    dsimp only
    split_ifs
    · exact ⟨rfl, rfl⟩
    · exact ⟨rfl, rfl⟩
  · rw [if_neg hpath]
    exact ⟨fun hnone => (by cases hnone), fun _ => ⟨decide_eq_false hfinished, rfl⟩⟩

/-! ### Calls -/

theorem bind_keeps (h : Follows d k u w) (hfree : w.owed ≠ .due) : (watch d).Keeps (Follows d k) w (u.bind d) := by
  unfold Binder.bind
  refine Keeps.ite (fun hknown => Keeps.silent ?_) fun hknown => Keeps.ite (fun _ => Keeps.silent h) fun _ => ?_
  · exact ⟨{ h.linked with }, h.unregistered, fun hremoved => { h.removed hremoved with }, h.setUp, h.left, h.nothing,
      h.due⟩
  · exact restore_keeps h (by simpa using hknown) hfree

/-- A registration that support is known for. -/
theorem registerShortcut_known (h : MayCreate d true k u w) (hsetUp : SetUp u) :
    (watch d).Keeps (Follows d k) w (u.registerShortcut d) := by
  unfold Binder.registerShortcut
  refine Keeps.ite (fun hunknown => ?_) fun _ => Keeps.ite (fun hsupported => ?_) fun _ => createSession_keeps h hsetUp
  · rw [h.known] at hunknown
    cases hunknown
  · have hcreate := createSession_keeps h hsetUp
    rw [Binder.createSession, Binder.createWith, if_neg (fun hfalse => by cases hfalse), if_pos hsupported] at hcreate
    exact hcreate

theorem registerShortcut_keeps (h : Follows d k u w) :
    (watch d).Keeps (Follows d 4) (w.after (.asked .registerShortcut)) (u.registerShortcut d) := by
  have hlinked : Linked d u (w.after (.asked .registerShortcut)) :=
    ⟨h.linked.only, h.linked.current, h.linked.opened, fun hremoved => (by cases hremoved), h.linked.unsupported,
      h.linked.unknown, h.linked.known, h.linked.identity, h.linked.ready, h.linked.cancelled⟩
  by_cases hknown : u.supportKnown = true
  · refine registerShortcut_known ⟨hlinked, h.unregistered, rfl, hknown, fun _ howed => (by cases howed),
      fun hfalse => (by cases hfalse), fun _ _ => ⟨fun howed => (by cases howed), ?_⟩, fun _ => ?_⟩ h.setUp
    · exact Nat.le_succ 3
    · split_ifs <;> omega
  · have hunknown : (!u.supportKnown) = true := by simpa using hknown
    rw [Binder.registerShortcut, if_pos hunknown]
    have hleft : ({ u with registerWhenSupported := true } : Binder).left = 4 := by
      rw [Binder.left, if_pos (Bool.eq_false_iff.mpr hknown), if_pos rfl]
    refine Keeps.silent ⟨{ hlinked with known := fun htrue => absurd htrue hknown }, h.unregistered,
      fun hremoved => (by cases hremoved), h.setUp, hleft.le, fun howed => (by cases howed), fun _ => ?_⟩
    rw [hleft]
    exact Nat.zero_lt_succ 3

/-- The binder once a removal has withdrawn what was under way. -/
structure Withdrawn (u : Binder) : Prop where
  finished : ∀ r ∈ u.requests, r.finished = true
  pending : u.pendingSessionPath = []
  cleared : u.cleared = true
  register : u.registerWhenSupported = false
  after : u.registrationAfterIdentity = false
  identity : u.identityPending = true → u.identityContinuationCancelled = true

theorem Withdrawn.follows (h : Withdrawn u) (hlinked : Linked d u w) (hsession : u.sessionPath = [])
    (howed : w.owed = .nothing) : Follows d 4 u w := by
  have hleft : u.left = 0 := by
    have hidle := underWay_none h.finished
    unfold Binder.left
    rw [h.register, h.after, hidle]
    split_ifs <;> first | rfl | contradiction
  exact ⟨hlinked, fun _ => h.cleared, fun _ => ⟨hsession, h.register, underWay_none h.finished, h.identity⟩,
    fun hne => absurd h.pending hne, left_le_four u, fun _ => hleft, fun hdue => by rw [howed] at hdue; cases hdue⟩

/-- The current session of a removal. -/
theorem closeSession_keeps (h : Withdrawn u) (hlinked : Linked d u w) (howed : w.owed = .nothing) :
    (watch d).Keeps (Follows d 4) w (u.closeSession.andThen fun u =>
      ({ u with activatedAtMs := 0, triggerDescription := [] }, [.bindingChanged])) := by
  unfold Binder.closeSession
  by_cases hsession : u.sessionPath = []
  · rw [if_pos hsession]
    refine Keeps.told trivial (Keeps.single trivial ?_)
    exact Withdrawn.follows ⟨h.finished, h.pending, h.cleared, h.register, h.after, h.identity⟩ { hlinked with }
      hsession howed
  · rw [if_neg hsession]
    refine Keeps.told ⟨trivial, fun hne => absurd rfl hne, trivial⟩ (Keeps.single trivial ?_)
    refine Withdrawn.follows ⟨h.finished, h.pending, h.cleared, h.register, h.after, h.identity⟩ ?_ rfl howed
    refine { hlinked with current := rfl, opened := fun s hs => ?_ }
    obtain ⟨hs, hne⟩ := List.mem_filter.mp hs
    obtain ⟨hempty, heq⟩ := hlinked.opened s hs
    rcases heq with heq | heq
    · exact absurd heq (of_decide_eq_true hne)
    · exact absurd (heq.trans h.pending) hempty

/-- **A removal** closes the session and withdraws what is under way. -/
theorem removeRegistration_keeps (h : Follows d k u w) :
    (watch d).Keeps (Follows d 4) (w.after (.asked .removeRegistration)) u.removeRegistration := by
  have hlinked : Linked d { u with
      cleared := true
      bindWhenSupported := false
      registerWhenSupported := false
      identityContinuationCancelled := u.identityPending
      registrationAfterIdentity := false } (w.after (.asked .removeRegistration)) :=
    ⟨h.linked.only, h.linked.current, h.linked.opened, fun _ => rfl, h.linked.unsupported, h.linked.unknown,
      fun _ => rfl, h.linked.identity, h.linked.ready, fun _ => rfl⟩
  unfold Binder.removeRegistration
  rw [Out.andThen_assoc]
  exact idle_keeps hlinked fun _ _ hfinished hidle =>
    closeSession_keeps ⟨hfinished, rfl, rfl, rfl, rfl, id⟩ hidle rfl

/-! ### Answers -/

theorem left_unknown (hunknown : u.supportKnown = false) : u.left = if u.registerWhenSupported then 4 else 0 :=
  if_pos hunknown

theorem supportAnswered_keeps (h : Follows d u.left u w) (hunknown : u.supportKnown = false) (ok : Bool) :
    (watch d).Keeps (Follows d (u.left - 1)) w (u.supportAnswered d ok) := by
  obtain ⟨hidle, hidentity⟩ := h.linked.unsupported (h.linked.unknown hunknown)
  have hlinked (reason : Text) (bind : Bool) : Linked d { u with
      supportKnown := true
      supported := ok
      unsupportedReason := reason
      registerWhenSupported := false
      bindWhenSupported := bind } w :=
    ⟨h.linked.only, h.linked.current, h.linked.opened, h.linked.removed, fun _ => ⟨hidle, hidentity⟩,
      fun hfalse => (by cases hfalse), fun _ => rfl, h.linked.identity, h.linked.ready, h.linked.cancelled⟩
  unfold Binder.supportAnswered
  refine Keeps.told ⟨trivial, trivial⟩ ?_
  by_cases hregister : u.registerWhenSupported = true
  · have hleft : u.left = 4 := by rw [left_unknown hunknown, if_pos hregister]
    have howed : w.owed ≠ .nothing := fun howed => by
      have hzero := h.nothing howed
      rw [hleft] at hzero
      cases hzero
    have hremoved : w.removed = false := Bool.eq_false_iff.mpr fun hremoved => by
      have hnot := (h.removed hremoved).register
      rw [hregister] at hnot
      cases hnot
    rw [if_pos hregister, hleft]
    refine registerShortcut_known ⟨hlinked _ false, h.unregistered, hremoved, rfl, fun _ => howed,
      fun hfalse => (by cases hfalse), fun _ _ => ⟨howed, le_rfl⟩, fun _ => ?_⟩ h.setUp
    split_ifs <;> omega
  · have hregister' : u.registerWhenSupported = false := Bool.eq_false_iff.mpr hregister
    have hzero : u.left = 0 := by rw [left_unknown hunknown, if_neg hregister]
    have hfollows (reason : Text) (bind : Bool) : Follows d 0 { u with
        supportKnown := true
        supported := ok
        unsupportedReason := reason
        registerWhenSupported := false
        bindWhenSupported := bind } w := by
      have hleft : ({ u with
          supportKnown := true
          supported := ok
          unsupportedReason := reason
          registerWhenSupported := false
          bindWhenSupported := bind } : Binder).left = 0 := left_eq_zero rfl hidentity hidle
      refine ⟨hlinked reason bind, h.unregistered, fun hremoved => { h.removed hremoved with register := rfl }, h.setUp,
        hleft.le, fun _ => hleft, fun hdue => ?_⟩
      exact absurd (h.due hdue) (by rw [hzero]; exact lt_irrefl 0)
    rw [if_neg hregister, hzero]
    rw [← hregister'] at hfollows
    refine Keeps.ite (fun _ => ?_) fun _ => Keeps.silent (hfollows _ _)
    refine restore_keeps (hfollows _ _) rfl fun hdue => ?_
    exact absurd (h.due hdue) (by rw [hzero]; exact lt_irrefl 0)

/-- The binder once the portal answered who asks. -/
theorem Follows.identified (h : Follows d k u w) (hpending : u.identityPending = true) :
    u.supportKnown = true ∧ u.supported = true ∧ u.underWay = none ∧ ∀ ready cancelled reason,
      Linked d { u with
        identityPending := false
        registrationAfterIdentity := false
        identityReady := ready
        identityContinuationCancelled := cancelled
        unsupportedReason := reason } w := by
  have hsupported : u.supported = true := by
    by_contra hne
    have hnot := (h.linked.unsupported (Bool.eq_false_iff.mpr hne)).2
    rw [hpending] at hnot
    cases hnot
  have hknown : u.supportKnown = true := by
    by_contra hne
    have hnot := h.linked.unknown (Bool.eq_false_iff.mpr hne)
    rw [hsupported] at hnot
    cases hnot
  exact ⟨hknown, hsupported, h.linked.identity hpending, fun _ _ _ => ⟨h.linked.only, h.linked.current, h.linked.opened,
    h.linked.removed, fun hfalse => absurd hsupported (Bool.eq_false_iff.mp hfalse), h.linked.unknown, h.linked.known,
    fun hfalse => (by cases hfalse), fun _ => rfl, fun _ => rfl⟩⟩

theorem identityAnswered_keeps (h : Follows d u.left u w) (hpending : u.identityPending = true)
    (error : Option IdentityError) :
    (watch d).Keeps (Follows d (u.left - 1)) w (u.identityAnswered d error) := by
  obtain ⟨hknown, hsupported, hidle, hlinked⟩ := h.identified hpending
  have hzero (ready cancelled : Bool) (reason : Text) : ({ u with
      identityPending := false
      registrationAfterIdentity := false
      identityReady := ready
      identityContinuationCancelled := cancelled
      unsupportedReason := reason } : Binder).left = 0 := left_eq_zero hknown rfl hidle
  have hremoved (ready cancelled : Bool) (reason : Text) (hremoved : w.removed = true) : Removed { u with
      identityPending := false
      registrationAfterIdentity := false
      identityReady := ready
      identityContinuationCancelled := cancelled
      unsupportedReason := reason } := { h.removed hremoved with identity := fun hfalse => by cases hfalse }
  cases hafter : u.registrationAfterIdentity with
  | true =>
    have hleft : u.left = 3 := by rw [left_identity hknown hpending, if_pos hafter]
    have howed : w.owed ≠ .nothing := fun howed => by
      have hnot := h.nothing howed
      rw [hleft] at hnot
      cases hnot
    unfold Binder.identityAnswered
    split
    · rw [if_pos hafter]
      refine Keeps.single howed ?_
      refine ⟨{ hlinked _ _ _ with removed := fun hremoved => ?_ }, fun hunregistered => ?_, hremoved _ _ _, h.setUp,
        (hzero _ _ _).le.trans (Nat.zero_le _), fun _ => hzero _ _ _, fun hdue => by cases hdue⟩
      · exact Bool.and_eq_true_iff.mpr ⟨h.linked.removed hremoved, rfl⟩
      · exact h.unregistered (Bool.and_eq_true_iff.mp hunregistered).1
    · have hcancelled : ¬ u.identityContinuationCancelled = true := fun hcancelled => by
        have hnot := h.linked.cancelled hcancelled
        rw [hafter] at hnot
        cases hnot
      have hnotRemoved : w.removed = false :=
        Bool.eq_false_iff.mpr fun hremoved => hcancelled ((h.removed hremoved).identity hpending)
      rw [if_neg hcancelled, hafter, hleft]
      exact createSession_keeps ⟨hlinked _ _ _, h.unregistered, hnotRemoved, hknown, fun _ => howed,
        fun hfalse => (by cases hfalse), fun hfalse => (by cases hfalse), fun _ => le_rfl⟩ h.setUp
  | false =>
    have hleft : u.left = 0 := by rw [left_identity hknown hpending, hafter]; rfl
    have hfree : w.owed ≠ .due := fun hdue => absurd (h.due hdue) (by rw [hleft]; exact lt_irrefl 0)
    have hfollows (ready cancelled : Bool) (reason : Text) : Follows d 0 { u with
        identityPending := false
        registrationAfterIdentity := false
        identityReady := ready
        identityContinuationCancelled := cancelled
        unsupportedReason := reason } w :=
      ⟨hlinked _ _ _, h.unregistered, hremoved _ _ _, h.setUp, (hzero _ _ _).le, fun _ => hzero _ _ _,
        fun hdue => absurd hdue hfree⟩
    rw [hleft]
    unfold Binder.identityAnswered
    split
    · rw [hafter]
      exact Keeps.silent (hfollows _ _ _)
    · refine Keeps.ite (fun _ => Keeps.silent (hfollows _ _ _)) fun _ => ?_
      rw [hafter]
      exact restore_keeps (hfollows _ _ _) hknown hfree

/-! ### Every event -/

theorem handleActivated_keeps (h : Follows d k u w) {session : Text} (hsession : session ≠ []) (id : Text)
    (timestamp : ℕ) : (watch d).Keeps (Follows d k) w (u.handleActivated d session id timestamp) := by
  refine Keeps.ite (fun hmatches => ?_) fun _ => Keeps.silent h
  have hremoved : w.removed = false := Bool.eq_false_iff.mpr fun hremoved =>
    hsession (hmatches.1.trans (h.removed hremoved).session)
  refine Keeps.single ⟨hremoved, hmatches.1.trans h.linked.current.symm, hsession, hmatches.2⟩ ?_
  exact ⟨{ h.linked with }, h.unregistered, fun hremoved => { h.removed hremoved with }, h.setUp, h.left, h.nothing,
    h.due⟩

theorem handleDeactivated_keeps (h : Follows d k u w) {session : Text} (hsession : session ≠ []) (id : Text)
    (timestamp : ℕ) : (watch d).Keeps (Follows d k) w (u.handleDeactivated d session id timestamp) := by
  refine Keeps.ite (fun hmatches => ?_) fun _ => Keeps.silent h
  have hremoved : w.removed = false := Bool.eq_false_iff.mpr fun hremoved =>
    hsession (hmatches.1.trans (h.removed hremoved).session)
  refine Keeps.single ⟨hremoved, hmatches.1.trans h.linked.current.symm, hsession, hmatches.2⟩ ?_
  exact ⟨{ h.linked with }, h.unregistered, fun hremoved => { h.removed hremoved with }, h.setUp, h.left, h.nothing,
    h.due⟩

/-- How many answers a registration still waits for after an event. -/
def Binder.bound (u : Binder) (e : Event) : ℕ := if e.isCall then 4 else if u.answers e then u.left - 1 else u.left

theorem Keeps.bounded {e : Event} {out : Out Binder Told} (hcall : e.isCall = false) (hanswers : u.answers e = true)
    (h : (watch d).Keeps (Follows d (u.left - 1)) w out) : (watch d).Keeps (Follows d (u.bound e)) w out := by
  rw [Binder.bound, hcall, hanswers]
  exact h

/-- **Every event keeps the binder as it is watched.** -/
theorem step_keeps {e : Event} {out : Out Binder Told} (h : Follows d u.left u w) (hstep : u.step d e = some out) :
    (watch d).Keeps (Follows d (u.bound e)) w out := by
  cases e with
  | call call =>
    cases hstep
    cases call with
    | bind =>
      have hbind {owed : Owed} (hfree : owed ≠ .due) (hnothing : owed = .nothing → w.owed = .nothing) :
          (watch d).Keeps (Follows d 4) { w with owed := owed } (u.bind d) :=
        bind_keeps ⟨{ h.linked with }, h.unregistered, h.removed, h.setUp, left_le_four u,
          fun howed => h.nothing (hnothing howed), fun hdue => absurd hdue hfree⟩ hfree
      refine Keeps.told ⟨trivial, trivial⟩ ?_
      change (watch d).Keeps (Follows d 4) { w with owed := if w.owed = .nothing then .nothing else .maybe } (u.bind d)
      split_ifs with howed
      · exact hbind (fun hdue => by cases hdue) fun _ => howed
      · exact hbind (fun hdue => by cases hdue) fun hnothing => by cases hnothing
    | registerShortcut => exact Keeps.told ⟨trivial, trivial⟩ (registerShortcut_keeps h)
    | removeRegistration => exact Keeps.told ⟨trivial, trivial⟩ (removeRegistration_keeps h)
  | supportAnswered ok =>
    obtain ⟨hknown, rfl⟩ : ¬ u.supportKnown = true ∧ u.supportAnswered d ok = out := by
      simpa [Binder.step] using hstep
    exact Keeps.bounded rfl rfl (supportAnswered_keeps h (Bool.eq_false_iff.mpr hknown) ok)
  | identityAnswered error =>
    obtain ⟨hpending, rfl⟩ : u.identityPending = true ∧ u.identityAnswered d error = out := by
      simpa [Binder.step] using hstep
    exact Keeps.bounded rfl rfl (identityAnswered_keeps h hpending error)
  | replied i reply =>
    obtain ⟨r, hr, hmoved⟩ := Option.bind_eq_some_iff.mp hstep
    split_ifs at hmoved with hcalling
    cases hmoved
    obtain ⟨hgoes, hends⟩ := handleReply_goes r reply hcalling
    have hbound : u.bound (.replied i reply) = if (r.handleReply reply).2.isSome then u.left - 1 else u.left := by
      rw [Binder.bound, Binder.answers, hr]
      rfl
    rw [hbound]
    exact requestMoved_keeps h hr _ hgoes hends
  | response i path response =>
    obtain ⟨r, hr, rfl⟩ := Option.map_eq_some_iff.mp hstep
    obtain ⟨hgoes, hends⟩ := handleResponse_goes r path response
    have hbound : u.bound (.response i path response) =
        if (r.handleResponse path response).2.isSome then u.left - 1 else u.left := by
      rw [Binder.bound, Binder.answers, hr]
      rfl
    rw [hbound]
    exact requestMoved_keeps h hr _ hgoes hends
  | timedOut i =>
    obtain ⟨r, hr, hmoved⟩ := Option.bind_eq_some_iff.mp hstep
    split_ifs at hmoved with hfinished
    cases hmoved
    obtain ⟨hallows, hw⟩ := cancel_told (d := d) r w
    refine Keeps.told hallows ?_
    rw [hw]
    exact requestMoved_keeps h hr (r.cancel.1, some .timedOut) (fun hnone => by cases hnone)
      fun _ => ⟨decide_eq_false hfinished, cancel_finished r⟩
  | repliedLate i reply =>
    obtain ⟨r, hr, hmoved⟩ := Option.bind_eq_some_iff.mp hstep
    split_ifs at hmoved
    cases hmoved
    have hset : Follows d u.left { u with requests := u.requests.set i { r with closesLater := false } } w :=
      h.set hr rfl rfl
    cases reply with
    | ok path => exact Keeps.single trivial hset
    | error error => exact Keeps.silent hset
  | activated session id timestamp =>
    change (if session = [] then none else some (u.handleActivated d session id timestamp)) = some out at hstep
    split_ifs at hstep with hsession
    cases hstep
    exact handleActivated_keeps h hsession id timestamp
  | deactivated session id timestamp =>
    change (if session = [] then none else some (u.handleDeactivated d session id timestamp)) = some out at hstep
    split_ifs at hstep with hsession
    cases hstep
    exact handleDeactivated_keeps h hsession id timestamp

/-! ## Whole runs -/

/-- How a binder starts. -/
structure Starts (u : Binder) : Prop where
  supported : u.supported = false
  register : u.registerWhenSupported = false
  pending : u.identityPending = false
  cancelled : u.identityContinuationCancelled = false
  session : u.sessionPath = []
  pendingSession : u.pendingSessionPath = []
  requests : u.requests = []

theorem Starts.follows (h : Starts u) : Follows d 4 u {} := by
  have hfinished : ∀ r ∈ u.requests, r.finished = true := by
    rw [h.requests]
    exact fun _ hr => absurd hr List.not_mem_nil
  have hidle := underWay_none hfinished
  have hleft : u.left = 0 := by
    unfold Binder.left
    rw [h.register, h.pending, hidle]
    split_ifs <;> first | rfl | contradiction
  refine ⟨⟨fun i r hr hunfinished => ?_, h.session.symm, fun _ hs => absurd hs List.not_mem_nil,
    fun hfalse => (by cases hfalse), fun _ => ⟨hidle, h.pending⟩, fun _ => h.supported, fun _ => h.register,
    fun _ => hidle, fun _ => h.pending, fun htrue => ?_⟩, fun hfalse => (by cases hfalse),
    fun hfalse => (by cases hfalse), fun hne => absurd h.pendingSession hne, left_le_four u, fun _ => hleft,
    fun hdue => by cases hdue⟩
  · rw [hfinished r (List.mem_of_getElem? hr)] at hunfinished
    cases hunfinished
  · rw [h.cancelled] at htrue
    cases htrue

/-- The binder after a run, with what it wrote down. -/
abbrev Run (d : Desktop) (init : Binder) (s : Out Binder Told) : Prop :=
  Reaches (traced (Binder.step d)) (fun _ _ => True) (init, []) s

variable {init : Binder} {s : Out Binder Told} {log : List Told}

theorem Run.follows (hinit : Starts init) (h : Run d init s) :
    (watch d).Accepts s.2 ∧ Follows d s.1.left s.1 ((watch d).read s.2) := by
  obtain ⟨haccepts, hfollows⟩ := accepts_of_reaches (m := watch d) (R := Follows d 4) hinit.follows
    (fun u w e out _ _ hfollows hstep => (step_keeps { hfollows with left := le_rfl } hstep).mono fun _ _ hnext =>
      { hnext with left := left_le_four _ }) h
  exact ⟨haccepts, { hfollows with left := le_rfl }⟩

/-! ### What the log says -/

/-- It brings the shortcut back, or reports its keys. -/
def Told.revives : Told → Bool
  | .sent kind _ => kind.creates
  | .current session => session ≠ []
  | .activated _ _ | .deactivated _ _ _ => true
  | _ => false

def Told.finishesRegistration : Told → Bool
  | .registrationFinished _ _ => true
  | _ => false

def Told.newCurrent : Told → Option Text
  | .current session => some session
  | _ => none

/-- The current session after a log. -/
def currentSession (log : List Told) : Text := (log.filterMap Told.newCurrent).getLast?.getD []

theorem after_current (w : Watch) (a : Told) : (w.after a).current = a.newCurrent.getD w.current := by
  cases a with
  | asked call => cases call <;> rfl
  | _ => rfl

theorem read_current (log : List Told) : ((watch d).read log).current = currentSession log := by
  induction log using List.reverseRecOn with
  | nil => rfl
  | append_singleton log a ih =>
    rw [read_append]
    refine (after_current _ a).trans ?_
    rw [ih, currentSession, currentSession, List.filterMap_append]
    cases ha : a.newCurrent with
    | none => rw [List.filterMap_cons_none ha, List.filterMap_nil, List.append_nil]; rfl
    | some session => rw [List.filterMap_cons_some ha, List.filterMap_nil, List.getLast?_concat]; rfl

theorem read_from (before after : List Told) (a : Told) :
    (watch d).read (before ++ a :: after) = after.foldl Watch.after (((watch d).read before).after a) := by
  rw [read_append]
  rfl

/-- Since a removal nothing but a registration asked for. -/
theorem read_removed {before after : List Told} (h : .asked .registerShortcut ∉ after) :
    ((watch d).read (before ++ .asked .removeRegistration :: after)).removed = true := by
  rw [read_from]
  refine List.foldlRecOn (motive := fun w => w.removed = true) after Watch.after ?_ fun w hw a ha => ?_
  · rfl
  cases a with
  | asked call =>
    cases call with
    | bind => exact hw
    | registerShortcut => exact absurd ha h
    | removeRegistration => rfl
  | _ => exact hw

/-- Since a removal no registration succeeded. -/
theorem read_unregistered {before after : List Told} (h : ∀ text, .registrationFinished true text ∉ after) :
    ((watch d).read (before ++ .asked .removeRegistration :: after)).unregistered = true := by
  rw [read_from]
  refine List.foldlRecOn (motive := fun w => w.unregistered = true) after Watch.after ?_ fun w hw a ha => ?_
  · rfl
  cases a with
  | asked call =>
    cases call with
    | bind => exact hw
    | registerShortcut => exact hw
    | removeRegistration => rfl
  | registrationFinished ok text =>
    cases ok with
    | true => exact absurd ha (h text)
    | false => exact Bool.and_eq_true_iff.mpr ⟨hw, rfl⟩
  | _ => exact hw

/-- A session that was not closed since it was received. -/
theorem read_opened {before after : List Told} {session : Text} (h : .closedSession session ∉ after) :
    session ∈ ((watch d).read (before ++ .received session :: after)).opened := by
  rw [read_from]
  refine List.foldlRecOn (motive := fun w => session ∈ w.opened) after Watch.after ?_ fun w hw a ha => ?_
  · exact List.mem_append_right _ (List.mem_singleton_self _)
  cases a with
  | asked call => cases call <;> exact hw
  | received other => exact List.mem_append_left _ hw
  | closedSession other =>
    refine List.mem_filter.mpr ⟨hw, decide_eq_true ?_⟩
    rintro rfl
    exact h ha
  | _ => exact hw

/-- A registration asked for is owed its answer until it comes, and is answered once. -/
theorem read_owed {before after : List Told} (h : ∀ call, .asked call ∉ after)
    (haccepts : (watch d).Accepts (before ++ .asked .registerShortcut :: after)) :
    ((watch d).read (before ++ .asked .registerShortcut :: after)).owed =
      (if after.countP Told.finishesRegistration = 0 then .due else .nothing) ∧
      after.countP Told.finishesRegistration ≤ 1 := by
  induction after using List.reverseRecOn with
  | nil =>
    rw [read_append]
    exact ⟨rfl, Nat.zero_le 1⟩
  | append_singleton after a ih =>
    have hsplit : before ++ .asked .registerShortcut :: (after ++ [a]) =
        (before ++ .asked .registerShortcut :: after) ++ [a] := by
      rw [List.append_assoc, List.cons_append]
    rw [hsplit] at haccepts
    obtain ⟨howed, hcount⟩ := ih (fun call hmem => h call (List.mem_append_left _ hmem))
      fun first b rest heq => haccepts first b (rest ++ [a]) (by rw [heq, List.append_assoc, List.cons_append])
    have hallows : Watch.Allows d _ a := haccepts _ a [] rfl
    rw [hsplit, read_append, List.countP_append, List.countP_singleton]
    cases a with
    | asked call => exact absurd (List.mem_append_right _ (List.mem_singleton_self _)) (h call)
    | registrationFinished ok text =>
      have hzero : after.countP Told.finishesRegistration = 0 := by
        by_contra hne
        rw [if_neg hne] at howed
        exact hallows howed
      rw [hzero]
      exact ⟨rfl, le_rfl⟩
    | _ => exact ⟨howed, hcount⟩

/-! ### What holds in every run -/

theorem Follows.open_sessions (hfollows : Follows d k u ((watch d).read log)) {session : Text}
    (hopen : Unanswered (.received session) (.closedSession session) log) :
    session = u.sessionPath ∨
      session = u.pendingSessionPath ∧ ∃ kind, u.underWay = some kind ∧ kind.creates = false := by
  obtain ⟨before, after, rfl, hclosed⟩ := hopen
  obtain ⟨hne, heq⟩ := hfollows.linked.opened session (read_opened hclosed)
  refine heq.imp_right fun heq => ⟨heq, hfollows.setUp fun hempty => hne (heq.trans hempty)⟩

/-- At most two sessions are open. -/
theorem Follows.two_sessions (hfollows : Follows d k u ((watch d).read log)) {sessions : List Text}
    (hnodup : sessions.Nodup)
    (hopen : ∀ session ∈ sessions, Unanswered (.received session) (.closedSession session) log) :
    sessions.length ≤ 2 := by
  have hsubset : sessions ⊆ [u.sessionPath, u.pendingSessionPath] := by
    intro session hmem
    rcases hfollows.open_sessions (hopen session hmem) with rfl | ⟨rfl, -⟩
    · exact List.mem_cons_self
    · exact List.mem_cons_of_mem _ List.mem_cons_self
  exact hnodup.length_le_of_subset hsubset

/-- The answer a registration waits for can always come. -/
theorem Binder.can_answer (hleft : 0 < u.left) :
    ∃ e out, e.isCall = false ∧ u.answers e = true ∧ u.step d e = some out := by
  by_cases hknown : u.supportKnown = true
  · by_cases hpending : u.identityPending = true
    · exact ⟨.identityAnswered none, _, rfl, rfl, if_pos hpending⟩
    · cases hunder : u.underWay with
      | none =>
        rw [left_eq_zero hknown (Bool.eq_false_iff.mpr hpending) hunder] at hleft
        exact absurd hleft (lt_irrefl 0)
      | some kind =>
        obtain ⟨r, hr, hkind⟩ := Option.bind_eq_some_iff.mp hunder
        obtain ⟨i, -, hi⟩ := Option.bind_eq_some_iff.mp hr
        split_ifs at hkind with hfinished
        have hphase : ¬ r.phase = .finished := fun hphase => hfinished (decide_eq_true hphase)
        have hstep : u.step d (.timedOut i) =
            some (Out.andThen (u, r.cancel.2) (Binder.requestMoved d i r (r.cancel.1, some .timedOut))) := by
          rw [Binder.step, hi]
          exact if_neg hphase
        exact ⟨.timedOut i, _, rfl, rfl, hstep⟩
  · exact ⟨.supportAnswered false, _, rfl, rfl, if_neg hknown⟩

/-- **A removed shortcut stays removed**, in every run: until a registration is asked for nothing brings it back, and
until one succeeds nothing is restored, by bind or by itself; one request at most is under way; the shortcut is reported
only for the current session and its own id; a session that was received and not closed is the current one or being set
up, so two at most are open; and a registration is answered exactly once, unless another call comes before: not while an
answer is awaited that can come, and of those four at most are. -/
theorem removed_stays_removed (hinit : Starts init) (h : Run d init s) :
    (∀ before after, s.2 = before ++ .asked .removeRegistration :: after → .asked .registerShortcut ∉ after →
      ∀ entry ∈ after, entry.revives = false) ∧
    (∀ before after, s.2 = before ++ .asked .removeRegistration :: after →
      (∀ text, .registrationFinished true text ∉ after) →
        (∀ call, .sent .createForRestore call ∉ after) ∧
          ∀ out, s.1.step d (.call .bind) = some out → out.2 = [.asked .bind]) ∧
    (∀ (i j : ℕ) (r r' : PortalRequest), s.1.requests[i]? = some r → s.1.requests[j]? = some r' →
      r.finished = false → r'.finished = false → i = j) ∧
    Each (fun before entry => ∀ session id,
      (entry = .activated session id ∨ ∃ held, entry = .deactivated session id held) →
      session = currentSession before ∧ session ≠ [] ∧ id = d.action.id) s.2 ∧
    (∀ session, Unanswered (.received session) (.closedSession session) s.2 →
      session = s.1.sessionPath ∨
        session = s.1.pendingSessionPath ∧ ∃ kind, s.1.underWay = some kind ∧ kind.creates = false) ∧
    (∀ sessions : List Text, sessions.Nodup →
      (∀ session ∈ sessions, Unanswered (.received session) (.closedSession session) s.2) → sessions.length ≤ 2) ∧
    (∀ before after, s.2 = before ++ .asked .registerShortcut :: after → (∀ call, .asked call ∉ after) →
      after.countP Told.finishesRegistration = if s.1.left = 0 then 1 else 0) ∧
    s.1.left ≤ 4 ∧
    (0 < s.1.left → ∃ e out, e.isCall = false ∧ s.1.answers e = true ∧ s.1.step d e = some out) ∧
    ∀ e out, e.isCall = false → s.1.step d e = some out →
      out.1.left ≤ if s.1.answers e then s.1.left - 1 else s.1.left := by
  obtain ⟨haccepts, hfollows⟩ := h.follows hinit
  refine ⟨fun before after hlog hafter entry hentry => ?_, fun before after hlog hafter => ⟨fun call hmem => ?_,
    fun out hstep => ?_⟩, fun i j r r' hr hr' hunfinished hunfinished' => ?_, ?_,
    fun session => hfollows.open_sessions, fun sessions => hfollows.two_sessions, fun before after hlog hafter => ?_,
    left_le_four s.1, Binder.can_answer, fun e out hcall hstep => ?_⟩
  · obtain ⟨middle, rest, rfl⟩ := List.append_of_mem hentry
    have hremoved : ((watch d).read (before ++ .asked .removeRegistration :: middle)).removed = true :=
      read_removed fun hmem => hafter (List.mem_append_left _ hmem)
    have hallows : Watch.Allows d _ entry :=
      haccepts (before ++ .asked .removeRegistration :: middle) entry rest
        (by rw [hlog, List.append_assoc, List.cons_append])
    generalize (watch d).read (before ++ .asked .removeRegistration :: middle) = w at hremoved hallows
    cases entry with
    | sent kind call =>
      refine Bool.eq_false_iff.mpr fun hcreates => ?_
      rw [(hallows hcreates).1] at hremoved
      cases hremoved
    | current session =>
      refine decide_eq_false fun hne => ?_
      rw [hallows hne] at hremoved
      cases hremoved
    | activated session id =>
      rw [hallows.1] at hremoved
      cases hremoved
    | deactivated session id held =>
      rw [hallows.1] at hremoved
      cases hremoved
    | _ => rfl
  · obtain ⟨middle, rest, rfl⟩ := List.append_of_mem hmem
    have hunregistered : ((watch d).read (before ++ .asked .removeRegistration :: middle)).unregistered = true :=
      read_unregistered fun text htext => hafter text (List.mem_append_left _ htext)
    have hallows := haccepts (before ++ .asked .removeRegistration :: middle) (.sent .createForRestore call) rest
      (by rw [hlog, List.append_assoc, List.cons_append])
    rw [(hallows rfl).2 rfl] at hunregistered
    cases hunregistered
  · have hcleared : s.1.cleared = true := hfollows.unregistered (by rw [hlog]; exact read_unregistered hafter)
    cases hstep
    have hbind : (s.1.bind d).2 = [] := by
      unfold Binder.bind
      split_ifs
      · rfl
      · rfl
      · rw [Binder.createSession, Binder.createWith, hcleared]
        rfl
    rw [Out.andThen]
    exact congrArg (.asked .bind :: ·) hbind
  · have hfirst := hfollows.linked.only i r hr hunfinished
    rw [hfollows.linked.only j r' hr' hunfinished'] at hfirst
    exact (Option.some.inj hfirst).symm
  · refine haccepts.mono fun before entry hallows session id hentry => ?_
    have hentry' : (watch d).Allows ((watch d).read before) (.activated session id) := by
      rcases hentry with rfl | ⟨held, rfl⟩
      · exact hallows
      · exact hallows
    obtain ⟨-, hcurrent, hne, hid⟩ := hentry'
    exact ⟨hcurrent.trans (read_current before), hne, hid⟩
  · rw [hlog] at haccepts hfollows
    obtain ⟨howed, hcount⟩ := read_owed hafter haccepts
    split_ifs with hleft
    · by_contra hne
      have hzero : after.countP Told.finishesRegistration = 0 := by omega
      rw [if_pos hzero] at howed
      exact (hfollows.due howed).ne' hleft
    · by_contra hne
      rw [if_neg hne] at howed
      exact hleft (hfollows.nothing howed)
  · have hbound := (step_keeps hfollows hstep).related.left
    rwa [Binder.bound, hcall] at hbound

/-- A desktop that knows who asks and always answers. -/
def knownDesktop : Desktop where
  action := ⟨['t'], [], []⟩
  sandboxed := true
  baseService := []
  requestUuid _ := []
  sessionUuid _ := []
  watches _ := true
  toLower := id

/-- The shortcut is chosen, used and removed, and then bound again. -/
def chosenAndRemoved : List Event :=
  [.call .registerShortcut, .supportAnswered true, .replied 0 (.ok ['p']),
    .response 0 ['p'] ⟨0, { sessionText := ['s'] }⟩, .replied 1 (.ok ['q']),
    .response 1 ['q'] ⟨0, { shortcuts := [⟨['t'], ['F']⟩] }⟩, .activated ['s'] ['t'] 7, .call .removeRegistration,
    .activated ['s'] ['t'] 9, .call .bind]

theorem chosen_and_removed :
    ∃ s, Reaches.runs (traced (Binder.step knownDesktop)) (fun _ _ => True) ({ supportKnown := false }, [])
      chosenAndRemoved = some s ∧ .activated ['s'] ['t'] ∈ s.2 ∧ s.1.cleared = true ∧
      ∀ before after, s.2 = before ++ .asked .removeRegistration :: after → .asked .registerShortcut ∉ after →
        ∀ entry ∈ after, entry.revives = false := by
  obtain ⟨s, hrun, hactivated, hcleared⟩ : ∃ s, Reaches.runs (traced (Binder.step knownDesktop)) (fun _ _ => True)
      ({ supportKnown := false }, []) chosenAndRemoved = some s ∧ .activated ['s'] ['t'] ∈ s.2 ∧ s.1.cleared = true :=
    ⟨_, rfl, by decide, rfl⟩
  have hinit : Starts { supportKnown := false } := ⟨rfl, rfl, rfl, rfl, rfl, rfl, rfl⟩
  exact ⟨s, hrun, hactivated, hcleared, (removed_stays_removed hinit (.of_runs .start hrun)).1⟩

end Speecher.PortalShortcuts
