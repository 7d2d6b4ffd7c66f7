import Tailgate.Ipv4Packets
import Tailgate.PingTracker

/-!
# The requests of a ping tracker

Every request that is started comes to one result at most, and to one if
requests are expired after its timeout (`requests_accounted`). A disco request
is sent again every second, and only the answer to the latest probe is one
(`completeDisco_latest`). Lookups in the network map and what builds probes are
parameters.
-/

namespace Tailgate

open List

/-- Why a request is not started. -/
inductive StartStatus
  | ready
  | duplicateRequest
  | noMatchingPeer
  | noNodeKey
  | noDiscoKey
  | invalidAddress

/-- What is sent for a request. -/
structure PingProbe where
  requestId : ℕ
  peer : Bytes
  payload : Bytes
  disco : Bool

structure DiscoProbe where
  transaction : Bytes
  payload : Bytes

/-- What a tracker asks of the network map. -/
structure PingNetwork where
  selfAddress : String
  findPeer : String → Option PeerConfig
  nodeKey : String → Option Bytes
  discoKey : String → Option Bytes
  address : String → Option ℕ

/-- What builds a probe for a peer and its disco key; the number tells calls apart. -/
abbrev CreateDiscoProbe := ℕ → Bytes → Bytes → Option DiscoProbe

namespace PendingPing

variable (ping : PendingPing)

def requestId : ℕ := ping.requestState.id

def isDisco : Bool := ping.requestState.pingMode == .disco

def deadline : ℕ := ping.started + ping.requestState.timeout

def expired (now : ℕ) (ping : PendingPing) : Bool := decide (ping.deadline ≤ now)

/-- What an answer has to carry. -/
def mark : Bytes :=
  if ping.isDisco then ping.discoTransaction else ping.tsmpToken

end PendingPing

namespace PingTracker

open PendingPing

def retryInterval : ℕ := nanoseconds

def relayLabel (peer : PeerConfig) (requested : String) : String :=
  if requested ≠ "" then requested
  else if peer.derpCode = "" then "derp-" ++ toString peer.derpRegion
  else peer.derpCode

variable (network : PingNetwork) (createDisco : CreateDiscoProbe)

/-- The request as it will be outstanding, and its first probe. -/
def prepare (random : Bytes)
    (request : PingRequest) (now : ℕ) : Except StartStatus (PendingPing × PingProbe) := do
  let some peer := network.findPeer request.target | throw .noMatchingPeer
  let some nodeKey := network.nodeKey peer.key | throw .noNodeKey
  let ping : PendingPing := {
    requestState := request
    peer := nodeKey
    started := now
    lastSent := now
    peerName := peer.name
    peerAddress := peer.address
    relay := relayLabel peer request.relay }
  match request.pingMode with
  | .disco =>
    let some discoKey := network.discoKey peer.discoKey | throw .noDiscoKey
    let some built := createDisco 0 nodeKey discoKey | throw .noDiscoKey
    return ({ ping with discoKey, discoTransaction := built.transaction },
      ⟨request.id, nodeKey, built.payload, true⟩)
  | .tsmp =>
    let some source := network.address network.selfAddress | throw .invalidAddress
    let some destination := network.address peer.address | throw .invalidAddress
    let tsmpToken := random.take TsmpPacket.tokenSize
    return ({ ping with tsmpToken },
      ⟨request.id, nodeKey, TsmpPacket.buildPing source destination tsmpToken, false⟩)

/-- **Start a request.** -/
def start (random : Bytes) (request : PingRequest) (now : ℕ) (s : PingTracker) :
    Except StartStatus (PendingPing × PingProbe) × PingTracker :=
  if s.pending.any fun ping => ping.requestId == request.id then (.error .duplicateRequest, s)
  else
    match prepare network createDisco random request now with
    | .error status => (.error status, s)
    | .ok (ping, probe) => (.ok (ping, probe), { pending := s.pending ++ [ping] })

def answersDisco (peer transaction : Bytes) (ping : PendingPing) : Bool :=
  ping.isDisco && ping.peer == peer && ping.discoTransaction == transaction

def completeDisco (peer transaction : Bytes) (peerApiPort now : ℕ) (s : PingTracker) :
    Option PingResult × PingTracker :=
  match s.pending.find? (answersDisco peer transaction) with
  | none => (none, s)
  | some ping => (some (complete ping true peerApiPort now),
      { pending := s.pending.eraseP (answersDisco peer transaction) })

def expire (now : ℕ) (s : PingTracker) : List PingResult × PingTracker :=
  ((s.pending.filter (expired now)).map fun ping => complete ping false 0 now,
    { pending := s.pending.filter fun ping => !ping.expired now })

def retry (now index : ℕ) (ping : PendingPing) : PendingPing × Option PingProbe :=
  if ping.isDisco = false ∨ ping.expired now = true ∨ now < ping.lastSent + retryInterval then
    (ping, none)
  else
    match createDisco index ping.peer ping.discoKey with
    | none => ({ ping with lastSent := now }, none)
    | some built => ({ ping with lastSent := now, discoTransaction := built.transaction },
        some ⟨ping.requestId, ping.peer, built.payload, true⟩)

/-- **Send disco requests again.** -/
def retryDisco (now : ℕ) (s : PingTracker) : List PingProbe × PingTracker :=
  let retried := s.pending.mapIdx (retry createDisco now)
  (retried.filterMap Prod.snd, { pending := retried.map Prod.fst })

def wakes (ping : PendingPing) : ℕ :=
  if ping.isDisco then min ping.deadline (ping.lastSent + retryInterval) else ping.deadline

def nextDeadline (s : PingTracker) : Option ℕ :=
  s.pending.foldl (fun next ping => some (next.elim (wakes ping) fun n => min n (wakes ping))) none

/-! ## Runs -/

inductive Call
  | start (network : PingNetwork) (createDisco : CreateDiscoProbe) (random : Bytes)
    (request : PingRequest) (now : ℕ)
  | completeDisco (peer transaction : Bytes) (peerApiPort now : ℕ)
  | completeTsmp (token : Bytes) (peerApiPort now : ℕ)
  | expire (now : ℕ)
  | retryDisco (createDisco : CreateDiscoProbe) (now : ℕ)

/-- A tracker with the requests that were started and when, the results there have been, and
what the probes for each request carried, the latest first. -/
structure Trace where
  tracker : PingTracker := {}
  begun : List (PingRequest × ℕ) := []
  results : List PingResult := []
  sent : List (ℕ × Bytes) := []

def carried : PendingPing × Option PingProbe → Option (ℕ × Bytes)
  | (ping, probe) => probe.map fun _ => (ping.requestId, ping.mark)

def Trace.step (t : Trace) : Call → Trace
  | .start network createDisco random request now =>
    let (answer, tracker) := t.tracker.start network createDisco random request now
    match answer with
    | .error _ => { t with tracker }
    | .ok (ping, _) => { t with
        tracker
        begun := t.begun ++ [(request, now)]
        sent := (ping.requestId, ping.mark) :: t.sent }
  | .completeDisco peer transaction peerApiPort now =>
    let (result, tracker) := t.tracker.completeDisco peer transaction peerApiPort now
    { t with tracker, results := t.results ++ result.toList }
  | .completeTsmp token peerApiPort now =>
    let (result, tracker) := t.tracker.completeTsmp token peerApiPort now
    { t with tracker, results := t.results ++ result.toList }
  | .expire now =>
    let (results, tracker) := t.tracker.expire now
    { t with tracker, results := t.results ++ results }
  | .retryDisco createDisco now =>
    { t with
      tracker := (t.tracker.retryDisco createDisco now).2
      sent := (t.tracker.pending.mapIdx (retry createDisco now)).filterMap carried ++ t.sent }

def run (calls : List Call) : Trace := calls.foldl Trace.step {}

/-- **The outstanding requests are accounted for.** -/
structure Accounted (t : Trace) : Prop where
  nodup : (t.tracker.pending.map requestId).Nodup
  perm : (t.begun.map fun b => b.1.id).Perm
    (t.results.map PingResult.requestId ++ t.tracker.pending.map requestId)
  begun : ∀ ping ∈ t.tracker.pending, (ping.requestState, ping.started) ∈ t.begun
  sent : ∀ ping ∈ t.tracker.pending, t.sent.lookup ping.requestId = some ping.mark

variable {t : Trace} {s : PingTracker} {p : PendingPing → Bool} {ping : PendingPing}

theorem Accounted.remove (h : Accounted t) {kept : List PendingPing} {new : List PingResult}
    (hkp : kept.Sublist t.tracker.pending)
    (hpm : (t.tracker.pending.map requestId).Perm
      (new.map PingResult.requestId ++ kept.map requestId)) :
    Accounted { t with tracker := { pending := kept }, results := t.results ++ new } where
  nodup := h.nodup.sublist (hkp.map requestId)
  perm := by
    rw [map_append, append_assoc]
    exact h.perm.trans (hpm.append_left _)
  begun ping hpn := h.begun ping (hkp.subset hpn)
  sent ping hpn := h.sent ping (hkp.subset hpn)

/-- The first request that fits is answered, or none does. -/
theorem Accounted.answer (h : Accounted t) (p : PendingPing → Bool) (port now : ℕ) :
    Accounted { t with
      tracker := { pending := t.tracker.pending.eraseP p }
      results := t.results
        ++ ((t.tracker.pending.find? p).map (complete · true port now)).toList } := by
  refine h.remove eraseP_sublist ?_
  cases hfd : t.tracker.pending.find? p with
  | none => rw [eraseP_of_forall_not (by simpa using hfd)]; rfl
  | some =>
    obtain ⟨hp, _, _, hsp, hno⟩ := find?_eq_some_iff_append.mp hfd
    rw [hsp, eraseP_append_right _ (by simpa using hno), eraseP_cons_of_pos hp, map_append,
      map_append, map_cons]
    exact perm_middle

/-- Nothing is removed when no request fits. -/
theorem find_eraseP (p : PendingPing → Bool) (port now : ℕ) : (match s.pending.find? p with
    | none => (none, s)
    | some ping => (some (complete ping true port now), { pending := s.pending.eraseP p }))
      = ((s.pending.find? p).map (complete · true port now),
        ({ pending := s.pending.eraseP p } : PingTracker)) := by
  cases hfd : s.pending.find? p with
  | none => rw [eraseP_of_forall_not (by simpa using hfd)]; rfl
  | some => rfl

theorem completeTsmp_eq (token : Bytes) (port now : ℕ) : s.completeTsmp token port now
      = ((s.pending.find? (isTsmp token)).map (complete · true port now),
        { pending := s.pending.eraseP (isTsmp token) }) :=
  find_eraseP (isTsmp token) port now

/-- A request that is sent again stays what it is. -/
theorem state_retry (mk : CreateDiscoProbe) (now idx : ℕ) (ping : PendingPing) :
    (retry mk now idx ping).1.requestState = ping.requestState
      ∧ (retry mk now idx ping).1.started = ping.started := by
  unfold retry
  split
  · exact ⟨rfl, rfl⟩
  · split <;> exact ⟨rfl, rfl⟩

theorem requestId_retry (mk : CreateDiscoProbe) (now idx : ℕ) (ping : PendingPing) :
    (retry mk now idx ping).1.requestId = ping.requestId :=
  congrArg PingRequest.id (state_retry mk now idx ping).1

theorem map_requestId_retryDisco (mk : CreateDiscoProbe) (now : ℕ) :
    (s.retryDisco mk now).2.pending.map requestId = s.pending.map requestId := by
  show (map Prod.fst (mapIdx _ _)).map requestId = _
  rw [map_map]
  refine ext_getElem (by simp) fun idx _ _ => ?_
  rw [getElem_map, getElem_map, getElem_mapIdx]
  exact requestId_retry ..

variable {mk : CreateDiscoProbe}

theorem mark_retry {now idx : ℕ} (h : (retry mk now idx ping).2 = none) :
    (retry mk now idx ping).1.mark = ping.mark := by
  unfold retry at h ⊢
  split
  · rfl
  · next hsk =>
    rw [if_neg hsk] at h
    split
    · rfl
    · next hbl => rw [hbl] at h; cases h

/-- What was carried for a request is found among what was carried for several. -/
theorem lookup_carried {retried : List (PendingPing × Option PingProbe)}
    (hnd : ((retried.map Prod.fst).map requestId).Nodup) :
    ∀ x ∈ retried,
      (retried.filterMap carried).lookup x.1.requestId = x.2.map fun _ => x.1.mark := by
  induction retried with
  | nil => exact nofun
  | cons first retried ih =>
    obtain ⟨ping, probe⟩ := first
    obtain ⟨hfi, hrs⟩ := nodup_cons.mp hnd
    have hne (x) (hx : x ∈ retried) : ping.requestId ≠ x.1.requestId := fun heq =>
      hfi (mem_map.mpr ⟨x.1, mem_map_of_mem hx, heq.symm⟩)
    intro x hx
    rcases mem_cons.mp hx with rfl | hrx
    · cases probe with
      | none =>
        refine lookup_eq_none_iff.mpr fun y hy => ?_
        obtain ⟨z, hz, hzy⟩ := mem_filterMap.mp (show y ∈ filterMap carried retried from hy)
        obtain ⟨_, _, rfl⟩ := Option.map_eq_some_iff.mp hzy
        exact bne_iff_ne.mpr (hne z hz)
      | some => exact lookup_cons_self
    · cases probe with
      | none => exact ih hrs x hrx
      | some =>
        show lookup _ (_ :: filterMap carried retried) = _
        rw [lookup_cons, beq_false_of_ne (hne x hrx).symm]
        exact ih hrs x hrx

theorem state_prepare {net : PingNetwork} {rnd : Bytes}
    {req : PingRequest} {now : ℕ} {probe : PingProbe}
    (h : prepare net mk rnd req now = .ok (ping, probe)) :
    ping.requestState = req ∧ ping.started = now := by
  unfold prepare at h
  cases hpr : net.findPeer req.target with
  | none => rw [hpr] at h; cases h
  | some peer =>
    cases hkey : net.nodeKey peer.key with
    | none => rw [hpr] at h; simp only [hkey] at h; cases h
    | some =>
      rw [hpr] at h
      simp only [hkey] at h
      split at h
      all_goals
        split at h
        · split at h
          · cases h; exact ⟨rfl, rfl⟩
          · cases h
        · cases h

/-- A request that is not started leaves the tracker as it is. -/
theorem start_cases (random : Bytes) (request : PingRequest) (now : ℕ) (s : PingTracker) :
    (∃ status, s.start network createDisco random request now = (.error status, s))
      ∨ ∃ ping probe, s.start network createDisco random request now
          = (.ok (ping, probe), { pending := s.pending ++ [ping] })
        ∧ ping.requestId ∉ s.pending.map requestId
        ∧ ping.requestState = request ∧ ping.started = now := by
  unfold start
  split
  · exact .inl ⟨_, rfl⟩
  · next hnew =>
    cases hpr : prepare network createDisco random request now with
    | error => exact .inl ⟨_, rfl⟩
    | ok =>
      obtain ⟨hrq, hst⟩ := state_prepare hpr
      exact .inr ⟨_, _, rfl, by simpa [requestId, hrq] using hnew, hrq, hst⟩

theorem Accounted.step (h : Accounted t) (call : Call) : Accounted (t.step call) := by
  cases call with
  | start net mk rnd req now =>
    rcases start_cases net mk rnd req now t.tracker with
      ⟨st, heq⟩ | ⟨ping, probe, heq, hnew, hrq, hst⟩
    · simpa only [Trace.step, heq] using h
    · simp only [Trace.step, heq]
      refine ⟨?_, ?_, fun other hot => ?_, fun other hot => ?_⟩
      · rw [map_append, nodup_append]
        exact ⟨h.nodup, nodup_singleton _, fun a ha b hb =>
          (mem_singleton.mp hb) ▸ fun heq => hnew (heq ▸ ha)⟩
      · rw [map_append, map_append, ← append_assoc]
        subst hrq
        exact h.perm.append_right _
      · rcases mem_append.mp hot with hot | hot
        · exact mem_append_left _ (h.begun other hot)
        · rw [mem_singleton.mp hot, hrq, hst]
          exact mem_append_right _ (mem_singleton_self _)
      · rcases mem_append.mp hot with hot | hot
        · have hne : other.requestId ≠ ping.requestId :=
            fun heq => hnew (heq ▸ mem_map_of_mem hot)
          rw [lookup_cons, beq_false_of_ne hne]
          exact h.sent other hot
        · rw [mem_singleton.mp hot]
          exact lookup_cons_self
  | completeDisco _ _ port now =>
    dsimp only [Trace.step, PingTracker.completeDisco]
    rw [find_eraseP]
    exact h.answer _ port now
  | completeTsmp _ port now =>
    dsimp only [Trace.step]
    rw [completeTsmp_eq]
    exact h.answer _ port now
  | expire now =>
    refine h.remove filter_sublist ?_
    rw [map_map]
    exact (map_append ▸ (filter_append_perm (expired now) t.tracker.pending).map requestId).symm
  | retryDisco mk now =>
    have hids := map_requestId_retryDisco (s := t.tracker) mk now
    have hnd := h.nodup
    rw [← hids] at hnd
    refine ⟨hnd, ?_, fun ping hpn => ?_, fun ping hpn => ?_⟩
    · show (t.begun.map _).Perm (_ ++ (t.tracker.retryDisco mk now).2.pending.map requestId)
      rw [hids]
      exact h.perm
    · obtain ⟨_, hx, rfl⟩ := mem_map.mp hpn
      obtain ⟨idx, hlt, rfl⟩ := mem_mapIdx.mp hx
      obtain ⟨hrq, hst⟩ := state_retry mk now idx t.tracker.pending[idx]
      rw [hrq, hst]
      exact h.begun _ (getElem_mem hlt)
    · obtain ⟨_, hx, rfl⟩ := mem_map.mp hpn
      obtain ⟨idx, hlt, rfl⟩ := mem_mapIdx.mp hx
      simp only [Trace.step]
      rw [lookup_append, lookup_carried hnd _ hx]
      cases hpr : (retry mk now idx t.tracker.pending[idx]).2 with
      | some => rfl
      | none =>
        rw [requestId_retry, mark_retry hpr]
        exact h.sent _ (getElem_mem hlt)

theorem accounted (cs : List Call) : Accounted (run cs) :=
  foldlRecOn cs Trace.step ⟨nodup_nil, .refl _, nofun, nofun⟩
    fun _ ht call _ => ht.step call

/-! ## Deadlines and answers -/

theorem lt_wakes {now idx : ℕ} (h : ping.expired now = false) :
    now < wakes (retry mk now idx ping).1 := by
  have hdl : now < ping.deadline := by simpa [expired] using h
  have hpos : 0 < retryInterval := by decide
  unfold retry
  split
  case isTrue hsy =>
    unfold wakes
    split
    · next hds =>
      rw [hds, h] at hsy
      simp only [Bool.true_eq_false, Bool.false_eq_true, false_or] at hsy
      exact lt_min hdl hsy
    · exact hdl
  case isFalse =>
    have hsn : now < min ping.deadline (now + retryInterval) := lt_min hdl (by omega)
    split
    all_goals
      unfold wakes
      split
      · exact hsn
      · exact hdl

theorem lt_foldl_wakes {now : ℕ} (pend : List PendingPing) {next : Option ℕ}
    (hnx : ∀ n ∈ next, now < n) (h : ∀ ping ∈ pend, now < wakes ping) :
    ∀ n ∈ pend.foldl (fun next ping =>
      some (next.elim (wakes ping) fun n => min n (wakes ping))) next, now < n := by
  refine foldlRecOn (motive := fun next => ∀ n ∈ next, now < n) pend _ hnx
    fun next hnx ping hpn n hn => ?_
  obtain rfl := Option.mem_some.mp hn
  cases next with
  | none => exact h ping hpn
  | some n => exact lt_min (hnx n rfl) (h ping hpn)

theorem answered_of_find {s : PingTracker} {res : PingResult} {port now : ℕ}
    (h : (s.pending.find? p).map (complete · true port now) = some res) :
    ∃ ping ∈ s.pending, p ping = true ∧ res = complete ping true port now := by
  obtain ⟨ping, hfd, rfl⟩ := Option.map_eq_some_iff.mp h
  exact ⟨ping, mem_of_find?_eq_some hfd, find?_some hfd, rfl⟩

/-- **Every request is accounted for.** However a tracker is used, outstanding requests have
distinct identifiers, and the requests that were started are those with a result and those
that are outstanding. An answer is one for an outstanding request and carries what was sent
last for it. Once requests have been expired, the timeout of none that is outstanding has
passed since its start, and once they have also been sent again the next deadline is yet to
come. -/
theorem requests_accounted (calls : List Call) : let t := run calls
    (t.tracker.pending.map requestId).Nodup
      ∧ (t.begun.map fun b => b.1.id).Perm
        (t.results.map PingResult.requestId ++ t.tracker.pending.map requestId)
      ∧ (∀ peer transaction peerApiPort now, ∀ result ∈
          (t.tracker.completeDisco peer transaction peerApiPort now).1,
        ∃ ping ∈ t.tracker.pending, result = complete ping true peerApiPort now
          ∧ ping.isDisco = true ∧ ping.peer = peer
          ∧ t.sent.lookup ping.requestId = some transaction)
      ∧ (∀ token peerApiPort now, ∀ result ∈ (t.tracker.completeTsmp token peerApiPort now).1,
        ∃ ping ∈ t.tracker.pending, result = complete ping true peerApiPort now
          ∧ ping.isDisco = false ∧ t.sent.lookup ping.requestId = some token)
      ∧ ∀ now, (∀ ping ∈ (t.tracker.expire now).2.pending, ∃ start,
          (ping.requestState, start) ∈ t.begun ∧ now < start + ping.requestState.timeout)
        ∧ ∀ createDisco, ∀ deadline ∈
          ((t.tracker.expire now).2.retryDisco createDisco now).2.nextDeadline, now < deadline := by
  intro _
  have h := accounted calls
  refine ⟨h.nodup, h.perm, fun peer transaction peerApiPort now result hrt => ?_,
    fun token peerApiPort now result hrt => ?_, fun now => ⟨fun ping hpn => ?_, ?_⟩⟩
  · rw [completeDisco, find_eraseP] at hrt
    obtain ⟨ping, hpn, han, rfl⟩ := answered_of_find hrt
    simp only [answersDisco, Bool.and_eq_true, beq_iff_eq] at han
    obtain ⟨⟨hds, hpr⟩, rfl⟩ := han
    refine ⟨ping, hpn, rfl, hds, hpr, ?_⟩
    rw [h.sent ping hpn, mark, if_pos hds]
  · rw [completeTsmp_eq] at hrt
    obtain ⟨ping, hpn, han, rfl⟩ := answered_of_find hrt
    simp only [isTsmp, Bool.and_eq_true, beq_iff_eq] at han
    have hds : ping.isDisco = false := by simp [isDisco, han.1]
    refine ⟨ping, hpn, rfl, hds, ?_⟩
    rw [h.sent ping hpn, mark, hds, ← han.2]
    rfl
  · obtain ⟨hpn, hkp⟩ := mem_filter.mp hpn
    have hlt : now < ping.deadline := by simpa [expired] using hkp
    exact ⟨ping.started, h.begun ping hpn, hlt⟩
  · intro _
    refine lt_foldl_wakes _ nofun fun ping hpn => ?_
    obtain ⟨_, hre, rfl⟩ := mem_map.mp hpn
    obtain ⟨_, hlt, rfl⟩ := mem_mapIdx.mp hre
    have hkp := (mem_filter.mp (getElem_mem hlt)).2
    exact lt_wakes (by simpa using hkp)

/-- **An answer to the latest probe**, and no other, completes the request, if it is the first
outstanding disco request to the peer that waits for the transaction. -/
theorem completeDisco_latest (calls : List Call) (ping : PendingPing)
    (hpn : ping ∈ (run calls).tracker.pending) (hds : ping.isDisco = true)
    (transaction : Bytes) (peerApiPort now : ℕ) :
    ((run calls).tracker.completeDisco ping.peer transaction peerApiPort now).1
        = some (complete ping true peerApiPort now) ↔
      (run calls).sent.lookup ping.requestId = some transaction
        ∧ ∃ earlier later, (run calls).tracker.pending = earlier ++ ping :: later
          ∧ ∀ other ∈ earlier, answersDisco ping.peer transaction other = false := by
  have han : answersDisco ping.peer transaction ping = true ↔
      (run calls).sent.lookup ping.requestId = some transaction := by
    rw [(accounted calls).sent ping hpn, mark, if_pos hds, Option.some_inj]
    simp [answersDisco, hds]
  have hfirst : (run calls).tracker.pending.find? (answersDisco ping.peer transaction) = some ping ↔
      answersDisco ping.peer transaction ping = true
        ∧ ∃ earlier later, (run calls).tracker.pending = earlier ++ ping :: later
          ∧ ∀ other ∈ earlier, answersDisco ping.peer transaction other = false := by
    simpa using find?_eq_some_iff_append
  rw [completeDisco, find_eraseP, ← han, ← hfirst]
  refine ⟨fun h => ?_, fun h => by rw [h]; rfl⟩
  -- identifiers are distinct, so no other request has the same result
  obtain ⟨other, hfd, heq⟩ := Option.map_eq_some_iff.mp h
  rw [hfd, inj_on_of_nodup_map (accounted calls).nodup (mem_of_find?_eq_some hfd) hpn
    (congrArg PingResult.requestId heq)]

def loneNetwork : PingNetwork where
  selfAddress := ""
  findPeer _ := some {}
  nodeKey _ := some [7]
  discoKey _ := some [8]
  address _ := none

/-- A request that is sent twice, with the transactions 1 and 2. -/
def sentTwice : List Call :=
  [.start loneNetwork (fun _ _ _ => some ⟨[1], []⟩) [] {} 0,
    .retryDisco (fun _ _ _ => some ⟨[2], []⟩) retryInterval]

theorem completeDisco_latest_sentTwice : ∃ ping ∈ (run sentTwice).tracker.pending,
    ((run sentTwice).tracker.completeDisco ping.peer [2] 0 (retryInterval + 1)).1
      = some (complete ping true 0 (retryInterval + 1)) :=
  ⟨_, mem_cons_self, (completeDisco_latest sentTwice _ mem_cons_self rfl [2] 0 _).mpr
    ⟨rfl, [], _, rfl, nofun⟩⟩

/-- **The answer to the first probe is no answer** once the request has been sent again. -/
theorem answer_to_first_probe : ∃ ping ∈ (run sentTwice).tracker.pending,
    ping.isDisco = true ∧ (ping.requestId, [1]) ∈ (run sentTwice).sent
      ∧ retryInterval + 1 < ping.deadline
      ∧ ((run sentTwice).tracker.completeDisco ping.peer [1] 0 (retryInterval + 1)).1 = none :=
  ⟨_, mem_cons_self, by decide, by decide, by decide, by decide⟩

end PingTracker

end Tailgate
