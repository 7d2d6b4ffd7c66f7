import Tailgate.KeyRotation
import Tailgate.WireGuardTunnel

/-!
# Replays across sessions

The tunnel keeps a window for each session of a peer, three at most; the one
that was added first makes room. How keypairs come and go is the rotation of
keys, and the windows are its cache (`rotation`): a session that can still be
received on has its window. The highest number of 64 bits is left out, as the
window does not get done with it.
-/

namespace Tailgate

open Procedure WireGuard List ReplayWindow

namespace SessionReplay

def id (s : SessionReplay) : SessionId := (s.localIndex, s.startedAt)

variable {keypair : Keypair} {sessions : List SessionReplay} {s : SessionReplay}

theorem isFor_iff : s.isFor keypair = true ↔ s.id = keypair.id := by
  unfold isFor id Keypair.id
  rw [Bool.and_eq_true, beq_iff_eq, beq_iff_eq, Prod.mk.injEq]

def recent (sessions : List SessionReplay) : List SessionId := (sessions.map id).reverse

theorem mem_recent {x : SessionId} : x ∈ recent sessions ↔ ∃ s ∈ sessions, s.id = x := by
  unfold recent
  rw [mem_reverse, mem_map]

/-- **Seeing to a window is an insertion into the cache.** -/
theorem recent_replayFor (keypair : Keypair) (h : sessions.length ≤ 3) :
    recent (replayFor keypair sessions) = if keypair.id ∈ recent sessions then recent sessions
      else (keypair.id :: recent sessions).take 3 := by
  have hany : sessions.any (isFor keypair) = true ↔ keypair.id ∈ recent sessions := by
    rw [any_eq_true, mem_recent]
    exact exists_congr fun s => and_congr_right fun _ => isFor_iff
  unfold replayFor
  by_cases hmem : keypair.id ∈ recent sessions
  · rw [if_pos (hany.mpr hmem), if_pos hmem]
  · have hadd (l : List SessionReplay) : recent (l ++ [fresh keypair]) =
        keypair.id :: recent l := by
      unfold recent
      rw [map_append, reverse_append]
      rfl
    have hlen : (recent sessions).length = sessions.length := by
      unfold recent
      rw [length_reverse, length_map]
    rw [if_neg (mt hany.mp hmem), if_neg hmem, hadd, take_succ_cons]
    unfold maximumRetainedSessions
    split_ifs with hfl
    · unfold recent
      rw [take_reverse, length_map, hfl, map_drop]
    · rw [take_of_length_le (by omega)]

theorem length_replayFor (keypair : Keypair)
    (h : sessions.length ≤ 3) : (replayFor keypair sessions).length ≤ 3 := by
  unfold replayFor maximumRetainedSessions
  split_ifs
  · exact h
  · rw [length_append, length_drop, length_singleton]
    omega
  · rw [length_append, length_singleton]
    omega

theorem mem_recent_replayFor (keypair : Keypair)
    (h : sessions.length ≤ 3) : keypair.id ∈ recent (replayFor keypair sessions) := by
  rw [recent_replayFor keypair h]
  split_ifs with hmem
  · exact hmem
  · exact mem_cons_self

theorem nodup_replayFor (keypair : Keypair)
    (h : sessions.length ≤ 3) (hnd : (sessions.map id).Nodup) :
    ((replayFor keypair sessions).map id).Nodup := by
  have hrc : (recent sessions).Nodup := nodup_reverse.mpr hnd
  rw [← nodup_reverse]
  show (recent (replayFor keypair sessions)).Nodup
  rw [recent_replayFor keypair h]
  split_ifs with hmem
  · exact hrc
  · exact (nodup_cons.mpr ⟨hmem, hrc⟩).sublist (take_sublist 3 _)

/-- Windows that were there keep what they hold, and a new one holds
nothing. -/
theorem forall_replayFor {P : SessionId → ReplayWindow → Prop} (h : ∀ s ∈ sessions, P s.id s.window)
    (hnew : keypair.id ∉ recent sessions → P keypair.id {}) :
    ∀ s ∈ replayFor keypair sessions, P s.id s.window := by
  have hany : ¬sessions.any (isFor keypair) = true → keypair.id ∉ recent sessions := by
    intro hno hmem
    obtain ⟨s, hs, hid⟩ := mem_recent.mp hmem
    exact hno (any_eq_true.mpr ⟨s, hs, isFor_iff.mpr hid⟩)
  intro s hs
  unfold replayFor at hs
  split_ifs at hs with hfo hfl
  · exact h s hs
  · obtain hs | hs := mem_append.mp hs
    · exact h s (mem_of_mem_drop hs)
    · obtain rfl := mem_singleton.mp hs
      exact hnew (hany hfo)
  · obtain hs | hs := mem_append.mp hs
    · exact h s hs
    · obtain rfl := mem_singleton.mp hs
      exact hnew (hany hfo)

variable {turns counter : ℕ}

/-- If a counter overruns the window of its session, it is neither accepted nor
refused. -/
theorem acceptIn_eq_none
    (hs : sessions.find? (isFor keypair) = some s) (h : s.window.Overruns counter) :
    acceptIn turns keypair counter sessions = none := by
  induction sessions with
  | nil => cases hs
  | cons s' _ ih =>
    unfold acceptIn
    by_cases hfor : isFor keypair s' = true
    · rw [find?_cons_of_pos hfor] at hs
      rw [if_pos hfor, Option.some.inj hs, h.accept_eq_none]
      rfl
    · rw [find?_cons_of_neg hfor] at hs
      rw [if_neg hfor, ih hs]
      rfl

/-- **The window of a session accepts what is fresh in the session**, and the
others stay as they are. -/
theorem exists_acceptIn (keypair : Keypair) (C : SessionId → List ℕ)
    (hcr : counter + 1 < counterLimit) (htu : windowSize ≤ turns)
    (hmem : keypair.id ∈ sessions.map id) (hnd : (sessions.map id).Nodup)
    (hhl : ∀ s ∈ sessions, s.window.Holds (C s.id)) :
    ∃ sessions', acceptIn turns keypair counter sessions =
        some (decide (ReplayWindow.Fresh (C keypair.id) counter), sessions') ∧
      sessions'.map id = sessions.map id ∧
      ∀ s ∈ sessions', s.window.Holds
        (if s.id = keypair.id ∧ ReplayWindow.Fresh (C keypair.id) counter then
          C s.id ++ [counter] else C s.id) := by
  induction sessions with
  | nil => exact absurd hmem not_mem_nil
  | cons s sessions ih =>
    rw [map_cons, nodup_cons] at hnd
    unfold acceptIn
    by_cases hfor : s.id = keypair.id
    · rw [if_pos (isFor_iff.mpr hfor)]
      obtain ⟨window, hac, hwi⟩ :=
        (hhl s mem_cons_self).accept hcr htu
      rw [hfor] at hac hwi
      rw [hac]
      refine ⟨{ s with window } :: sessions, rfl, rfl, fun s' hs' => ?_⟩
      obtain rfl | hs' := mem_cons.mp hs'
      · have hid : ({ s with window } : SessionReplay).id = keypair.id := hfor
        rw [hid]
        simpa only [true_and] using hwi
      · have hot : s'.id ≠ keypair.id := fun heq =>
          hnd.1 (mem_map.mpr ⟨s', hs', heq.trans hfor.symm⟩)
        rw [if_neg fun h => hot h.1]
        exact hhl s' (mem_cons_of_mem s hs')
    · have hmem : keypair.id ∈ sessions.map id := by
        obtain heq | hmem := mem_cons.mp hmem
        · exact absurd heq.symm hfor
        · exact hmem
      obtain ⟨sessions', hac, hids, hwn⟩ :=
        ih hmem hnd.2 fun s' hs' => hhl s' (mem_cons_of_mem s hs')
      rw [if_neg (mt isFor_iff.mp hfor), hac]
      refine ⟨s :: sessions', rfl, by rw [map_cons, map_cons, hids], fun s' hs' => ?_⟩
      obtain rfl | hs' := mem_cons.mp hs'
      · rw [if_neg fun h => hfor h.1]
        exact hhl s' mem_cons_self
      · exact hwn s' hs'

end SessionReplay

namespace PeerReference

open SessionReplay

/-! ## A peer as a rotation of keys -/

def keyOf (k : Keypair) : Option SessionId := if k.valid then some k.id else none

/-- **A peer as a rotation of keys**, with the windows as the cache. -/
def rotation (r : PeerReference) : KeyRotation SessionId where
  prev := keyOf r.peer.prevKeypair
  curr := keyOf r.peer.currKeypair
  next := keyOf r.peer.nextKeypair
  recent := recent r.replaySessions

def placeOf : Slot → KeyRotation.Place
  | .prev => .prev
  | .curr => .curr
  | .next => .next

theorem key_rotation (r : PeerReference) (slot : Slot) :
    r.rotation.key (placeOf slot) = keyOf (r.peer.keypair slot) := by
  cases slot <;> rfl

variable {slot : Slot} {session : Session} {packet : Bytes}

theorem valid_of_getKeypairForIdx {p : Peer} {idx : UInt32}
    (h : p.getKeypairForIdx idx = some slot) : (p.keypair slot).valid = true := by
  unfold Peer.getKeypairForIdx at h
  split_ifs at h with hcr hnx hpr
  · cases h
    exact hcr.1
  · cases h
    exact hnx.1
  · cases h
    exact hpr.1

def countersOf (r : PeerReference) (x : SessionId) : List ℕ :=
  (r.accepted.filter fun a => a.1 = x).map Prod.snd

variable {counter : ℕ} {E : TunnelError → PeerReference → Prop} {response : Bytes}

theorem mem_countersOf {r : PeerReference} {x : SessionId} :
    counter ∈ r.countersOf x ↔ (x, counter) ∈ r.accepted := by
  unfold countersOf
  simp

/-- **What protects a peer from replays.** -/
structure Protected (r : PeerReference) : Prop where
  /-- No counter has been accepted twice in a session. -/
  nodup : r.accepted.Nodup
  sound : r.rotation.Sound
  length_le : r.replaySessions.length ≤ 3
  /-- They are of different sessions. -/
  nodup_ids : (r.replaySessions.map SessionReplay.id).Nodup
  /-- They hold what has been accepted in their sessions. -/
  holds : ∀ s ∈ r.replaySessions, s.window.Holds (r.countersOf s.id)
  /-- A session that can be received on has a window, if it has accepted
  anything. -/
  has_window : ∀ x, r.rotation.Live x → r.countersOf x ≠ [] → x ∈ r.rotation.recent
  /-- Sessions that can be received on have started. -/
  live_started : ∀ x, r.rotation.Live x → x ∈ r.started
  recent_started : ∀ x ∈ r.rotation.recent, x ∈ r.started
  /-- So have those that have accepted anything. -/
  accepted_started : ∀ a ∈ r.accepted, a.1 ∈ r.started

namespace Protected

variable {r r' : PeerReference}

theorem new : Protected {} := by
  have hno {x : SessionId} (h : (rotation {}).Live x) : False := by
    obtain h | h | h := h <;> cases h
  exact ⟨nodup_nil, ⟨nofun, nofun, nofun, nofun, nofun⟩, by simp, nodup_nil, nofun,
    fun x hx => (hno hx).elim, fun x hx => (hno hx).elim, nofun, nofun⟩

theorem rotate (h : Protected r) (hsn : r'.replaySessions = r.replaySessions)
    (hac : r'.accepted = r.accepted) (hsnd : r'.rotation.Sound)
    (hsd : ∀ x ∈ r.started, x ∈ r'.started)
    (hlive : ∀ x, r'.rotation.Live x →
      r.rotation.Live x ∨ (x ∈ r'.started ∧ x ∉ r.started)) : Protected r' := by
  have hrc : r'.rotation.recent = r.rotation.recent :=
    congrArg recent hsn
  have hcn (x : SessionId) : r'.countersOf x = r.countersOf x := by
    unfold countersOf
    rw [hac]
  refine ⟨hac ▸ h.nodup, hsnd, hsn ▸ h.length_le, hsn ▸ h.nodup_ids, ?_, ?_, ?_, ?_, ?_⟩
  · intro s hs
    rw [hcn]
    exact h.holds s (hsn ▸ hs)
  · intro x hx hso
    rw [hcn] at hso
    rw [hrc]
    obtain hold | ⟨-, hnew⟩ := hlive x hx
    · exact h.has_window x hold hso
    · obtain ⟨_, hcr⟩ := exists_mem_of_ne_nil _ hso
      exact absurd (h.accepted_started _ (mem_countersOf.mp hcr)) hnew
  · intro x hx
    obtain hold | ⟨hnew, -⟩ := hlive x hx
    · exact hsd x (h.live_started x hold)
    · exact hnew
  · intro x hx
    exact hsd x (h.recent_started x (hrc ▸ hx))
  · intro a ha
    exact hsd a.1 (h.accepted_started a (hac ▸ ha))

theorem use (h : Protected r) (slot : Slot) {counter : ℕ} (hvd : (r.peer.keypair slot).valid = true)
    (hrt : r'.rotation = r.rotation.use 3 (placeOf slot) (r.peer.keypair slot).id)
    (hids : r'.replaySessions.map SessionReplay.id =
      (SessionReplay.replayFor (r.peer.keypair slot) r.replaySessions).map SessionReplay.id)
    (hhl : ∀ s ∈ r'.replaySessions, s.window.Holds (if s.id = (r.peer.keypair slot).id ∧
          ReplayWindow.Fresh (r.countersOf (r.peer.keypair slot).id) counter then
        r.countersOf s.id ++ [counter] else r.countersOf s.id))
    (hac : r'.accepted = if ReplayWindow.Fresh (r.countersOf (r.peer.keypair slot).id) counter then
        r.accepted ++ [((r.peer.keypair slot).id, counter)] else r.accepted)
    (hsd : r'.started = r.started) : Protected r' := by
  set x := (r.peer.keypair slot).id with hx
  have hkey : r.rotation.key (placeOf slot) = some x := by
    rw [key_rotation, keyOf, if_pos hvd]
  have hlive : r.rotation.Live x := .of_key hkey
  have hcn (y : SessionId) : r'.countersOf y =
      if y = x ∧ ReplayWindow.Fresh (r.countersOf x) counter then r.countersOf y ++ [counter]
      else r.countersOf y := by
    unfold countersOf
    rw [hac]
    by_cases hfh : ReplayWindow.Fresh (r.countersOf x) counter
    · rw [if_pos hfh, filter_append, map_append]
      by_cases hy : y = x
      · rw [if_pos ⟨hy, hfh⟩, hy]
        simp
      · rw [if_neg fun h => hy h.1, filter_cons_of_neg (by simpa using Ne.symm hy)]
        simp
    · rw [if_neg hfh, if_neg fun h => hfh h.2]
  refine ⟨?_, hrt ▸ h.sound.use le_rfl hkey, ?_, ?_, ?_, ?_, ?_, ?_, ?_⟩
  · rw [hac]
    split_ifs with hfh
    · rw [nodup_append]
      refine ⟨h.nodup, nodup_singleton _, fun a ha b hb heq => ?_⟩
      rw [heq, mem_singleton.mp hb] at ha
      exact hfh.1 (mem_countersOf.mpr ha)
    · exact h.nodup
  · have hlen := congrArg length hids
    rw [length_map, length_map] at hlen
    rw [hlen]
    exact length_replayFor _ h.length_le
  · rw [hids]
    exact nodup_replayFor _ h.length_le h.nodup_ids
  · intro s hs
    rw [hcn]
    exact hhl s hs
  · intro y hy hso
    rw [hrt] at hy ⊢
    by_cases hyx : y = x
    · rw [hyx, KeyRotation.recent_use]
      exact KeyRotation.mem_insert (by omega)
    · rw [hcn, if_neg fun hy => hyx hy.1] at hso
      exact h.sound.mem_use le_rfl hkey hy.of_use (h.has_window y hy.of_use hso)
  · intro y hy
    rw [hrt] at hy
    exact hsd ▸ h.live_started y hy.of_use
  · intro y hy
    rw [hrt, KeyRotation.recent_use] at hy
    rw [hsd]
    obtain rfl | hold := KeyRotation.eq_or_mem_of_mem_insert hy
    · exact h.live_started _ hlive
    · exact h.recent_started y hold
  · intro a ha
    rw [hsd]
    rw [hac] at ha
    split_ifs at ha with hfh
    · obtain hold | hnew := mem_append.mp ha
      · exact h.accepted_started a hold
      · rw [mem_singleton.mp hnew]
        exact h.live_started x hlive
    · exact h.accepted_started a ha

end Protected

/-! ## What the methods do to the rotation -/

variable {turns : ℕ} {now : UInt32} {lib : Library} {id : ℕ}

def view (r : PeerReference) :
    KeyRotation SessionId × List SessionReplay × List SessionId × List (SessionId × ℕ) :=
  (r.rotation, r.replaySessions, r.started, r.accepted)

theorem keeps_of_leaves {α : Type} {x : Peering α} (h : Leaves view x) : Preserves Protected x := by
  intro r hr
  have hsm {r' : PeerReference} (hvw : view r' = view r) : Protected r' := by
    obtain ⟨hrt, hrs⟩ := Prod.mk.inj hvw
    obtain ⟨hsn, hrs⟩ := Prod.mk.inj hrs
    obtain ⟨hsd, hac⟩ := Prod.mk.inj hrs
    refine hr.rotate hsn hac (hrt ▸ hr.sound) (fun x hx => hsd ▸ hx) fun x hx => .inl (hrt ▸ hx)
  exact (h _).mono (fun _ hs => hsm hs) r rfl

theorem keeps_modifyPeer {f : Peer → Peer} (h : ∀ r : PeerReference,
    view { r with peer := f r.peer } = view r) :
    Preserves Protected (modifyPeer f) :=
  keeps_of_leaves (.modify h)

theorem leaves_encrypt (pt : Bytes) : Leaves view (encrypt lib now pt) := by
  refine .bind .get fun r => ?_
  cases findSendingKeypair now r.peer with
  | none => exact .throw _
  | some slot =>
    refine .bind (.modify fun r => ?_) fun _ => .pure _
    cases slot <;> rfl

theorem leaves_createHandshake : Leaves view (createHandshake lib now id) := by
  unfold createHandshake
  cases lib.createInitiation id with
  | none => exact .throw _
  | some =>
    exact .bind (.modify fun r => rfl) fun _ => .pure _

theorem keeps_updateTimers : Preserves Protected (updateTimers now) := by
  refine .bind (.modify fun r hr => ?_) fun _ =>
    Keeps.bind Keeps.get fun _ => .pure _
  unfold dropUsedUp
  split_ifs with hdr
  · exact hr.rotate rfl rfl hr.sound.giveUp (fun _ hx => hx)
      fun x (hx : r.rotation.giveUp.Live x) => .inl hx.of_giveUp
  · exact hr

theorem rotation_startSession (now : UInt32) (initiator : Bool) (session : Session)
    (r : PeerReference) :
    ({ r with
      peer := r.peer.startSession now initiator session
      started := r.started ++ [(session.localIndex, now)] } : PeerReference).rotation =
      if initiator then r.rotation.initiate (session.localIndex, now)
      else r.rotation.respond (session.localIndex, now) := by
  cases initiator with
  | false => rfl
  | true =>
    have hpr : keyOf (if r.peer.nextKeypair.valid then r.peer.nextKeypair
        else r.peer.currKeypair) = (keyOf r.peer.nextKeypair).or (keyOf r.peer.currKeypair) := by
      unfold keyOf
      cases hvd : r.peer.nextKeypair.valid <;> simp [hvd]
    have hnx : keyOf (if r.peer.nextKeypair.valid then {} else r.peer.nextKeypair) = none := by
      unfold keyOf
      cases hvd : r.peer.nextKeypair.valid <;> simp [hvd]
    unfold rotation Peer.startSession Peer.addNewKeypair KeyRotation.initiate
    simp only [if_true, hpr, hnx]
    rfl

/-- **A session that has not been seen before starts.** -/
theorem meets_startSession {initiator : Bool} :
    Meets (fun r => Protected r ∧ (session.localIndex, now) ∉ r.started)
      (startSession now initiator session) (fun _ => Protected) E := by
  refine .modify fun r ⟨hr, hnew⟩ => ?_
  have hrt := rotation_startSession now initiator session r
  have hrc : (session.localIndex, now) ∉ r.rotation.recent :=
    fun hmem => hnew (hr.recent_started _ hmem)
  have hcr : r.rotation.curr ≠ some (session.localIndex, now) :=
    fun hcr => hnew (hr.live_started _ (.inr (.inl hcr)))
  refine hr.rotate rfl rfl ?_ (fun x hx => mem_append_left _ hx) fun x hx => ?_
  · rw [hrt]
    cases initiator with
    | false => exact hr.sound.respond hrc hcr
    | true => exact hr.sound.initiate hrc
  · rw [hrt] at hx
    have hx : x = (session.localIndex, now) ∨ r.rotation.Live x := by
      cases initiator with
      | false => exact hx.of_respond
      | true => exact hx.of_initiate
    obtain rfl | hold := hx
    · exact .inr ⟨mem_append_right _ (mem_singleton_self _), hnew⟩
    · exact .inl hold

/-! ## Receiving -/

/-- A keypair that is received on keeps its place, or takes that of the
current one. -/
theorem rotation_received (slot : Slot) (r : PeerReference) :
    ({ r with peer := received now slot r.peer } : PeerReference).rotation = match slot with
      | .next => r.rotation.promote
      | _ => r.rotation := by
  cases slot <;> rfl

theorem rotation_replayFor {r : PeerReference} (h : r.replaySessions.length ≤ 3)
    (keypair : Keypair) {sessions : List SessionReplay} (accepted : List (SessionId × ℕ))
    (hids : sessions.map SessionReplay.id =
      (SessionReplay.replayFor keypair r.replaySessions).map SessionReplay.id) :
    ({ r with replaySessions := sessions, accepted } : PeerReference).rotation =
      r.rotation.insert 3 keypair.id := by
  have hrc : recent sessions = recent (SessionReplay.replayFor keypair r.replaySessions) :=
    congrArg reverse hids
  rw [recent_replayFor keypair h] at hrc
  unfold rotation KeyRotation.insert
  rw [hrc]
  split_ifs <;> rfl

/-- Nothing has been accepted in a session without a window, while it can be
received on. -/
theorem Protected.countersOf_eq_nil {r : PeerReference} (h : Protected r)
    (hvd : (r.peer.keypair slot).valid = true)
    (hno : (r.peer.keypair slot).id ∉ r.rotation.recent) :
    r.countersOf (r.peer.keypair slot).id = [] := by
  have hkey : r.rotation.key (placeOf slot) = some (r.peer.keypair slot).id := by
    rw [key_rotation, keyOf, if_pos hvd]
  by_contra hso
  exact hno (h.has_window _ (.of_key hkey) hso)

/-- **What a counter does to the windows.** -/
theorem exists_acceptCounter (now : UInt32) {r : PeerReference} (h : Protected r)
    (hcr : counter + 1 < counterLimit)
    (htu : windowSize ≤ turns) (hvd : (r.peer.keypair slot).valid = true) :
    ∃ accepted r', acceptCounter turns (r.peer.keypair slot) counter r = .ok accepted r' ∧
      (accepted = false → Protected r') ∧
      (accepted = true → Protected { r' with peer := received now slot r'.peer }) := by
  set keypair := r.peer.keypair slot with hky
  obtain ⟨sessions, hac, hids, hwn⟩ := SessionReplay.exists_acceptIn keypair r.countersOf hcr htu
    (mem_reverse.mp (mem_recent_replayFor keypair h.length_le))
    (nodup_replayFor keypair h.length_le h.nodup_ids)
    (SessionReplay.forall_replayFor (P := fun x w => w.Holds (r.countersOf x)) h.holds
      fun hnon => by rw [h.countersOf_eq_nil hvd hnon]; exact holds_nil)
  have hrt := rotation_replayFor h.length_le keypair
    (if ReplayWindow.Fresh (r.countersOf keypair.id) counter then
      r.accepted ++ [(keypair.id, counter)] else r.accepted) hids
  refine ⟨decide (ReplayWindow.Fresh (r.countersOf keypair.id) counter), { r with
    replaySessions := sessions
    accepted := if ReplayWindow.Fresh (r.countersOf keypair.id) counter then
      r.accepted ++ [(keypair.id, counter)] else r.accepted }, ?_, fun hno => ?_, fun hyes => ?_⟩
  · unfold acceptCounter
    rw [hac]
    simp only [decide_eq_true_eq]
  · refine h.use slot hvd ?_ hids hwn rfl rfl
    rw [hrt]
    cases slot with
    | curr | prev => rfl
    | next =>
      -- The first counter of a session is fresh, so it is not refused.
      have hkey : r.rotation.next = some keypair.id := if_pos hvd
      have hem := h.countersOf_eq_nil hvd (h.sound.next_unused hkey).2
      refine absurd ?_ (of_decide_eq_false hno)
      rw [hem]
      exact ⟨not_mem_nil, nofun⟩
  · refine h.use slot hvd ?_ hids hwn rfl rfl
    rw [rotation_received, hrt]
    cases slot <;> rfl

/-- **Receiving an encrypted packet** keeps a peer protected. -/
theorem keeps_receiveTransport (hcr : readCounter packet + 1 < counterLimit)
    (htu : windowSize ≤ turns) :
    Preserves Protected (receiveTransport lib turns now id packet) := by
  refine .look fun r hr => ?_
  have hnon : Leads (· = r) (pure none : Peering (Option ReceivedPacket)) Protected :=
    .pure fun _ hs => hs ▸ hr
  cases hsl : r.peer.getKeypairForIdx (receiver packet) with
  | none => exact hnon
  | some slot =>
    refine .ite (fun _ => hnon) fun _ => ?_
    cases decryptTransport lib (r.peer.keypair slot) packet with
    | none => exact hnon
    | some =>
      obtain ⟨acc, _, hrun, hno, hyes⟩ := exists_acceptCounter now hr hcr htu
        (valid_of_getKeypairForIdx hsl)
      refine .bind (Q := fun acc s => (acc = false → Protected s) ∧
        (acc = true → Protected { s with peer := received now slot s.peer })) ?_ fun a => ?_
      · rintro s rfl
        rw [hrun]
        exact ⟨hno, hyes⟩
      · refine .ite (fun ha => ?_) fun ha => ?_
        · exact .bind (.modify fun s hs => hs.2 ha) fun _ => .pure fun _ hs => hs
        · exact .pure fun s hs => hs.1 (Bool.not_eq_true _ ▸ ha)

def startedBy (lib : Library) (id : ℕ) (packet : Bytes) : Option Session :=
  match getMessageType packet with
  | .handshakeInitiation => (lib.initiation id packet).join.map Prod.fst
  | .handshakeResponse => lib.response id packet
  | _ => none

/-- **What is assumed of a packet**: its counter is not the highest number of
64 bits, and a session it starts is told apart from those there have been. -/
def Assumed (lib : Library) (now : UInt32) (id : ℕ) (packet : Bytes)
    (r : PeerReference) : Prop :=
  (getMessageType packet = .transportData → readCounter packet < 2 ^ 64 - 1) ∧
    ∀ session ∈ startedBy lib id packet, (session.localIndex, now) ∉ r.started

instance (lib : Library) (now : UInt32) (id : ℕ) (packet : Bytes) (r : PeerReference) :
    Decidable (Assumed lib now id packet r) :=
  inferInstanceAs (Decidable (_ ∧ _))

theorem mem_startedBy_of_initiation (hty : getMessageType packet = .handshakeInitiation)
    (han : lib.initiation id packet = some (some (session, response))) :
    session ∈ startedBy lib id packet := by
  unfold startedBy
  rw [hty, han]
  rfl

theorem mem_startedBy_of_response (hty : getMessageType packet = .handshakeResponse)
    (han : lib.response id packet = some session) : session ∈ startedBy lib id packet := by
  unfold startedBy
  rw [hty]
  exact han

theorem meets_respond : Meets (fun r => Protected r ∧ (session.localIndex, now) ∉ r.started)
      (respond now id session response) (fun _ => Protected) E :=
  Meets.bind meets_startSession fun _ => Keeps.pure _

/-- **Receiving a packet** keeps a peer protected. -/
theorem meets_processPacket (htu : windowSize ≤ turns) :
    Leads (fun r => Protected r ∧ Assumed lib now id packet r)
      (processPacket lib turns now id packet) Protected := by
  refine .each fun r hr => ?_
  obtain ⟨hr, has⟩ := hr
  have hno : Leads (· = r) (pure none : Peering (Option ReceivedPacket)) Protected :=
    (Keeps.pure none).starting hr
  unfold processPacket
  cases hty : getMessageType packet with
  | invalid => exact hno
  | handshakeInitiation =>
    cases han : lib.initiation id packet with
    | none => exact hno
    | some ans =>
      cases ans with
      | none => exact hno
      | some res =>
        exact meets_respond.starting ⟨hr, has.2 res.1 (mem_startedBy_of_initiation hty han)⟩
  | handshakeResponse =>
    cases han : lib.response id packet with
    | none => exact hno
    | some session =>
      refine .bind (meets_startSession.starting
        ⟨hr, has.2 session (mem_startedBy_of_response hty han)⟩) fun _ => ?_
      exact Keeps.bind (keeps_of_leaves (leaves_encrypt [])) fun _ => Keeps.pure _
  | cookieReply =>
    exact (Keeps.bind (keeps_modifyPeer fun _ => rfl) fun _ => Keeps.pure none).starting hr
  | transportData =>
    have hlt := has.1 hty
    refine (keeps_receiveTransport ?_ htu).starting hr
    unfold counterLimit
    omega

end PeerReference

/-! ## Runs of a tunnel -/

namespace WireGuardTunnel

open PeerReference

inductive Call
  | addPeer (lib : Library) (publicKey : Bytes)
  | activatePeer (id : ℕ)
  | createHandshake (lib : Library) (now : UInt32) (id : ℕ)
  | processPacket (lib : Library) (now : UInt32) (id : ℕ) (packet : Bytes)
  | processAny (lib : Library) (now : UInt32) (packet : Bytes)
  | encrypt (lib : Library) (now : UInt32) (id : ℕ) (plaintext : Bytes)
  | updateTimers (now : UInt32) (id : ℕ)

def Call.run (turns : ℕ) : Call → Tunneling Unit
  | addPeer lib publicKey => discard (WireGuardTunnel.addPeer lib publicKey)
  | activatePeer id => WireGuardTunnel.activatePeer id
  | createHandshake lib now id => discard (atPeer id (PeerReference.createHandshake lib now id))
  | processPacket lib now id packet =>
    discard (atPeer id (PeerReference.processPacket lib turns now id packet))
  | processAny lib now packet => discard (WireGuardTunnel.processAny lib turns now packet)
  | encrypt lib now id plaintext => discard (atPeer id (PeerReference.encrypt lib now plaintext))
  | updateTimers now id => discard (atPeer id (PeerReference.updateTimers now))

/-- **A tunnel and the calls of its methods.** -/
def calls (turns : ℕ) : TransitionSystem WireGuardTunnel Call where
  init t := t = {}
  step t call t' := t' = after (call.run turns) t

def Assumed (t : WireGuardTunnel) : Call → Prop
  | .processPacket lib now id packet =>
    ∀ r ∈ t.peers[id]?, PeerReference.Assumed lib now id packet r
  | .processAny lib now packet =>
    ∀ id < t.peers.length, ∀ r ∈ t.peers[id]?, PeerReference.Assumed lib now id packet r
  | _ => True

instance (t : WireGuardTunnel) (call : Call) : Decidable (Assumed t call) :=
  match call with
  | .processPacket lib now id packet =>
    inferInstanceAs (Decidable (∀ r ∈ t.peers[id]?, PeerReference.Assumed lib now id packet r))
  | .processAny lib now packet =>
    inferInstanceAs (Decidable (∀ id < t.peers.length, ∀ r ∈ t.peers[id]?,
      PeerReference.Assumed lib now id packet r))
  | .addPeer .. | .activatePeer .. | .createHandshake .. | .encrypt .. | .updateTimers .. =>
    inferInstanceAs (Decidable True)

def Protected (t : WireGuardTunnel) : Prop :=
  ∀ (id : ℕ) r, t.peers[id]? = some r → PeerReference.Protected r

def AssumedAt (lib : Library) (now : UInt32) (packet : Bytes) (ids : List ℕ)
    (t : WireGuardTunnel) : Prop :=
  ∀ id ∈ ids, ∀ r ∈ t.peers[id]?, PeerReference.Assumed lib now id packet r

variable {turns : ℕ} {lib : Library} {now : UInt32} {packet : Bytes} {t : WireGuardTunnel}

theorem Protected.touch {t' : WireGuardTunnel} {id : ℕ} (h : Protected t)
    (htc : Touches id PeerReference.Protected t t') : Protected t' :=
  htc.forall (R := fun _ => PeerReference.Protected) h fun _ hr => hr

theorem keeps_atPeer {α : Type} {id : ℕ} {x : Peering α} (h : Preserves PeerReference.Protected x) :
    Preserves Protected (atPeer id x) := by
  exact .each fun t ht => (meets_atPeer h (ht id)).mono fun _ hs => ht.touch hs

theorem keeps_findSource (htu : windowSize ≤ turns) (ids : List ℕ) (hnd : ids.Nodup) :
    Leads (fun t => Protected t ∧ AssumedAt lib now packet ids t)
      (findSource lib turns now packet ids) Protected := by
  induction ids with
  | nil => exact .pure fun t ht => ht.1
  | cons id _ ih =>
    obtain ⟨hid, hnd⟩ := nodup_cons.mp hnd
    intro t ht
    obtain ⟨ht, has⟩ := ht
    refine Meets.bind ((meets_atPeer (meets_processPacket htu) fun r hr =>
      ⟨ht id r hr, has id mem_cons_self r hr⟩).post (fun _ _ hs => hs)
      fun _ _ hs => ht.touch hs) (fun res => ?_) t rfl
    cases res with
    | some => exact .pure fun t' ht' => ht.touch ht'
    | none =>
      refine (ih hnd).pre fun t' ht' => ⟨ht.touch ht', fun id' hid' => ?_⟩
      rw [ht'.others id' fun heq => hid (heq ▸ hid')]
      exact has id' (mem_cons_of_mem id hid')

theorem keeps_findInitiator (hty : getMessageType packet = .handshakeInitiation) (ids : List ℕ) :
    Leads (fun t => Protected t ∧ AssumedAt lib now packet ids t)
      (findInitiator lib now packet ids) Protected := by
  induction ids with
  | nil => exact .pure fun t ht => ht.1
  | cons id _ ih =>
    unfold findInitiator
    split
    · exact ih.pre fun t ht => ⟨ht.1, fun id' hid' => ht.2 id' (mem_cons_of_mem id hid')⟩
    · exact .pure fun t ht => ht.1
    · rename_i session response han
      refine .each fun t ht => ?_
      obtain ⟨ht, has⟩ := ht
      refine (meets_atPeer meets_respond fun r hr => ⟨ht id r hr, ?_⟩).mono fun _ hs => ht.touch hs
      exact (has id mem_cons_self r hr).2 session (mem_startedBy_of_initiation hty han)

/-- **A call keeps every peer protected.** -/
theorem Protected.call (h : Protected t) {call : Call}
    (htu : windowSize ≤ turns) (hcl : Assumed t call) :
    Protected (after (call.run turns) t) := by
  have hkp {α : Type} {id : ℕ} {x : Peering α} (hx : Preserves PeerReference.Protected x) :
      Protected (after (discard (atPeer id x)) t) :=
    ((keeps_atPeer hx).bind fun _ => .pure ()).after h
  cases call with
  | addPeer =>
    refine (Meets.bind (meets_addPeer.post (fun _ s hs => ?_)
      fun _ s hs => hs ▸ h) fun _ => Keeps.pure ()).after rfl
    rw [hs.2]
    intro id r hr
    obtain hr | hr := mem_append.mp (mem_of_getElem? hr)
    · obtain ⟨id, hid⟩ := mem_iff_getElem?.mp hr
      exact h id r hid
    · rw [mem_singleton.mp hr]
      exact PeerReference.Protected.new
  | activatePeer =>
    have hpr : Preserves PeerReference.Protected
        (modifyPeer fun peer => { peer with active := true }) := keeps_modifyPeer fun _ => rfl
    exact (keeps_atPeer hpr).after h
  | processPacket _ _ id =>
    have hsp := meets_atPeer (meets_processPacket htu) fun r hr => ⟨h id r hr, hcl r hr⟩
    exact (Meets.bind (hsp.mono fun _ hs => h.touch hs) fun _ => Keeps.pure ()).after rfl
  | processAny =>
    refine (Meets.bind (Meets.look fun s hs => ?_) fun _ => Keeps.pure ()).after (P := (· = t)) rfl
    obtain rfl := hs
    refine .ite (fun hty => ?_) fun _ => ?_
    · exact (keeps_findInitiator hty _).starting ⟨h, fun id hid => hcl id (mem_range.mp hid)⟩
    · exact (keeps_findSource htu _ nodup_range).starting
        ⟨h, fun id hid => hcl id (mem_range.mp hid)⟩
  | encrypt _ _ _ pt => exact hkp (keeps_of_leaves (leaves_encrypt pt))
  | createHandshake => exact hkp (keeps_of_leaves leaves_createHandshake)
  | updateTimers => exact hkp keeps_updateTimers

/-- **No counter is accepted twice in a session**, whatever sessions come and
go. -/
theorem accepted_once {turns : ℕ} (hturns : windowSize ≤ turns)
    {t : WireGuardTunnel} (h : ((calls turns).restrict Assumed).Reachable t) :
    ∀ r ∈ t.peers, r.accepted.Nodup := by
  have hpr : Protected t := by
    refine TransitionSystem.invariant ?_ ?_ h
    · rintro t rfl id r hr
      cases hr
    · rintro _ _ _ ht ⟨hcl, rfl⟩
      exact ht.call hturns hcl
  intro r hr
  obtain ⟨id, hid⟩ := mem_iff_getElem?.mp hr
  exact (hpr id r hid).nodup

/-- Four handshakes, so that the window of the first is given up, and packets
that come a second time. -/
def replayed : List Call :=
  [.addPeer plain [], .processPacket plain 1000 0 (plainInitiation 7),
    .processPacket plain 2000 0 (plainTransport 7 5 []),
    .processPacket plain 3000 0 (plainTransport 7 5 []),
    .processPacket plain 4000 0 (plainInitiation 8),
    .processPacket plain 5000 0 (plainTransport 8 5 []),
    .processPacket plain 5500 0 (plainTransport 7 6 []),
    .processPacket plain 6000 0 (plainInitiation 9),
    .processPacket plain 7000 0 (plainTransport 9 0 []),
    .processPacket plain 8000 0 (plainInitiation 10),
    .processPacket plain 9000 0 (plainTransport 10 5 []),
    .processPacket plain 9500 0 (plainTransport 7 5 []),
    .processPacket plain 9600 0 (plainTransport 10 5 [])]

def callIf (turns : ℕ) (t : WireGuardTunnel) (call : Call) : Option WireGuardTunnel :=
  if Assumed t call then some (after (call.run turns) t) else none

theorem replayed_accepted_once :
    ∃ t r, ((calls 8192).restrict Assumed).Reachable t ∧ t.peers = [r] ∧
      r.accepted = [((7, 1000), 5), ((8, 4000), 5), ((7, 1000), 6), ((9, 6000), 0),
        ((10, 8000), 5)] ∧ r.replaySessions.length = 3 ∧ ∀ r ∈ t.peers, r.accepted.Nodup := by
  have hsp (t : WireGuardTunnel) (call : Call) (t' : WireGuardTunnel)
      (h : callIf 8192 t call = some t') : ((calls 8192).restrict Assumed).step t call t' := by
    unfold callIf at h
    split_ifs at h with hcl
    exact ⟨hcl, (Option.some.inj h).symm⟩
  have hrun : (replayed.foldlM (callIf 8192) {}).map
      (fun t => t.peers.map fun r => (r.accepted, r.replaySessions.length)) =
      some [([((7, 1000), 5), ((8, 4000), 5), ((7, 1000), 6), ((9, 6000), 0),
        ((10, 8000), 5)], 3)] := by
    decide +kernel
  obtain ⟨t, ht, hps⟩ := Option.map_eq_some_iff.mp hrun
  obtain ⟨r, hr, hr'⟩ := map_eq_singleton_iff.mp hps
  obtain ⟨hac, hln⟩ := Prod.mk.inj hr'
  have hre : ((calls 8192).restrict Assumed).Reachable t := .of_foldlM hsp (.init rfl) ht
  exact ⟨t, r, hre, hr, hac, hln, accepted_once le_rfl hre⟩

end WireGuardTunnel

/-! ## The highest counter -/

/-- **The window gets done with a counter unless the counter overruns it**, and
if it does, then in no more turns of the loop than there are bits. -/
theorem ReplayWindow.accept_ends_iff {w : ReplayWindow} {counter : ℕ}
    (hcounter : counter < 2 ^ 64) :
    ((∃ result, w.accept windowSize counter = some result) ↔ ¬w.Overruns counter) ∧
      (w.Overruns counter → ∀ turns, w.accept turns counter = none) := by
  refine ⟨⟨fun ⟨result, hrt⟩ hov => ?_, fun h => exists_accept hcounter h⟩,
    fun h turns => h.accept_eq_none turns⟩
  rw [hov.accept_eq_none] at hrt
  cases hrt

theorem ReplayWindow.accept_ends_iff_begun :
    ∃ w, ({} : ReplayWindow).accept windowSize 5 = some (true, w) ∧ ¬w.Overruns 100 ∧
      ((∃ result, w.accept windowSize 100 = some result) ↔ ¬w.Overruns 100) :=
  ⟨_, rfl, by decide +kernel, (accept_ends_iff (by decide)).1⟩

namespace PeerReference

/-- A packet is authentic, and its counter overruns the window of its
session. -/
def Stalls (lib : Library) (now : UInt32) (packet : Bytes) (r : PeerReference) : Prop :=
  getMessageType packet = .transportData ∧ ∃ slot ∈ r.peer.getKeypairForIdx (receiver packet),
      ((r.peer.keypair slot).receivingValid = true ∧
        expired now (r.peer.keypair slot).keypairMillis rejectAfterTime = false) ∧
      (decryptTransport lib (r.peer.keypair slot) packet).isSome ∧
      ∃ s ∈ (SessionReplay.replayFor (r.peer.keypair slot) r.replaySessions).find?
        (SessionReplay.isFor (r.peer.keypair slot)), s.window.Overruns (readCounter packet)

instance (lib : Library) (now : UInt32) (packet : Bytes) (r : PeerReference) :
    Decidable (Stalls lib now packet r) :=
  inferInstanceAs (Decidable (_ ∧ _))

/-- **Such a packet is never done with**: nothing in front of the window keeps
it away. -/
theorem Stalls.processPacket_eq {lib : Library} {now : UInt32} {packet : Bytes}
    {r : PeerReference} (h : Stalls lib now packet r) (turns id : ℕ) :
    processPacket lib turns now id packet r = .error .unending r := by
  obtain ⟨hty, slot, hsl, ⟨hvd, hlive⟩, hdc, _, hs, hov⟩ := h
  obtain ⟨_, hpl⟩ := Option.isSome_iff_exists.mp hdc
  have hac : acceptCounter turns (r.peer.keypair slot) (readCounter packet) r =
      .error .unending r := by
    unfold acceptCounter
    rw [SessionReplay.acceptIn_eq_none hs hov]
  have hget : (get : Peering PeerReference) r = .ok r r := rfl
  unfold processPacket
  rw [hty]
  dsimp only
  unfold receiveTransport
  rw [bind_ok hget, Option.mem_def.mp hsl]
  dsimp only
  rw [if_neg (by simp [hvd, hlive]), hpl]
  exact bind_error hac

end PeerReference

namespace WireGuardTunnel

open PeerReference

/-- A peer responds to a handshake, and the highest counter but one arrives. -/
def almostHighest : List Call :=
  [.addPeer plain [], .processPacket plain 1000 0 (plainInitiation 7),
    .processPacket plain 2000 0 (plainTransport 7 (2 ^ 64 - 2) [])]

theorem highest_counter_unending : ∃ t, (calls 8192).Reachable t ∧ ∀ turns, ∃ t',
      atPeer 0 (processPacket plain turns 3000 0 (plainTransport 7 (2 ^ 64 - 1) [])) t =
        .error .unending t' := by
  have hss : ∃ r ∈ (almostHighest.foldl (fun t (call : Call) =>
      after (call.run 8192) t) {}).peers[0]?,
      Stalls plain 3000 (plainTransport 7 (2 ^ 64 - 1) []) r := by
    decide +kernel
  obtain ⟨_, hr, hss⟩ := hss
  refine ⟨_, .of_foldl (fun _ _ => rfl) (.init rfl) almostHighest, fun turns => ?_⟩
  unfold atPeer
  rw [Option.mem_def.mp hr]
  dsimp only
  rw [hss.processPacket_eq turns 0]
  exact ⟨_, rfl⟩

end WireGuardTunnel

end Tailgate
