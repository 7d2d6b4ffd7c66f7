import Tailgate.WireGuardRouter

/-!
# Packets that wait for a session

A packet for a peer without a session waits until there is one, and no later
packet should be encrypted before it. `Ready` is what is true of a session when
the tunnel says nothing. All that the tunnel does keeps it, but for a packet that
confirms a session of the peer's (`Confirms`) and a response that completes a
handshake (`Completes`), which is reported.
-/

namespace Tailgate

open Procedure WireGuard List Option

namespace PeerReference

variable {now : UInt32} {B : Prop} {r r' : PeerReference} {lib : Library} {turns id : ℕ}

/-! ## Sessions -/

def usable (now : UInt32) (k : Keypair) : Bool :=
  k.valid && !expired now k.keypairMillis rejectAfterTime &&
    decide (k.sendingCounter < rejectAfterMessages)

/-- The current keypair is one that this side has initiated or that the peer
has used. -/
def Confirmed (r : PeerReference) : Prop :=
  r.peer.currKeypair.valid = true →
    r.peer.currKeypair.initiator = true ∨ r.peer.currKeypair.lastRx ≠ 0

/-- **The current keypair is sent with**, if it has not been used up. -/
theorem findSendingKeypair_eq (h : Confirmed r) : findSendingKeypair now r.peer =
      if usable now r.peer.currKeypair then some .curr else none := by
  have hsl : ¬(r.peer.currKeypair.valid && !r.peer.currKeypair.initiator &&
      r.peer.currKeypair.lastRx == 0) = true := by
    intro hun
    rw [Bool.and_eq_true, Bool.and_eq_true, Bool.not_eq_true', beq_iff_eq] at hun
    obtain hin | hrx := h hun.1.1
    · rw [hin] at hun
      exact nomatch hun.1.2
    · exact hrx hun.2
  have hrf : (!r.peer.currKeypair.valid ||
      (!r.peer.currKeypair.initiator && r.peer.currKeypair.lastRx == 0) ||
      expired now r.peer.currKeypair.keypairMillis rejectAfterTime ||
      decide (rejectAfterMessages ≤ r.peer.currKeypair.sendingCounter)) =
      !usable now r.peer.currKeypair := by
    have hlm : decide (rejectAfterMessages ≤ r.peer.currKeypair.sendingCounter) =
        !decide (r.peer.currKeypair.sendingCounter < rejectAfterMessages) := by
      rw [← decide_not]
      exact decide_eq_decide.mpr not_lt.symm
    unfold usable
    rw [hlm]
    cases hvd : r.peer.currKeypair.valid with
    | false => simp
    | true =>
      have hus : (!r.peer.currKeypair.initiator && r.peer.currKeypair.lastRx == 0) = false := by
        rwa [hvd, Bool.true_and, Bool.not_eq_true] at hsl
      simp only [hus, Bool.not_true, Bool.false_or, Bool.true_and, Bool.not_and, Bool.not_not]
  unfold findSendingKeypair
  rw [if_neg hsl]
  show (if _ then none else some Slot.curr) = _
  rw [show r.peer.keypair .curr = r.peer.currKeypair from rfl, hrf]
  cases usable now r.peer.currKeypair <;> rfl

theorem hasSession_eq (h : Confirmed r) : r.hasSession now = usable now r.peer.currKeypair := by
  unfold hasSession
  rw [findSendingKeypair_eq h]
  cases usable now r.peer.currKeypair <;> rfl

/-- **If there is a session then `B`.** -/
structure Ready (now : UInt32) (B : Prop) (r : PeerReference) : Prop where
  /-- The current keypair may be used. -/
  confirmed : Confirmed r
  /-- If there is a session then `B`. -/
  imp : r.hasSession now = true → B

theorem Ready.of_usable (h : Ready now B r) (hcn : Confirmed r')
    (hus : usable now r'.peer.currKeypair = true → usable now r.peer.currKeypair = true) :
    Ready now B r' := by
  refine ⟨hcn, fun hss => h.imp ?_⟩
  rw [hasSession_eq hcn] at hss
  rw [hasSession_eq h.confirmed]
  exact hus hss

theorem Ready.congr (h : Ready now B r) (hcr : r'.peer.currKeypair = r.peer.currKeypair) :
    Ready now B r' :=
  h.of_usable (by unfold Confirmed; rw [hcr]; exact h.confirmed) (by rw [hcr]; exact fun h => h)

theorem Ready.mono {C : Prop} (h : Ready now B r) (hBC : B → C) : Ready now C r :=
  ⟨h.confirmed, fun hss => hBC (h.imp hss)⟩

theorem ready_new : Ready now B {} := ⟨fun h => (nomatch h), fun h => (nomatch h)⟩

/-! ## What the tunnel does -/

theorem keeps_ready_modifyPeer {f : Peer → Peer} (h : ∀ p, (f p).currKeypair = p.currKeypair) :
    Preserves (Ready now B) (modifyPeer f) :=
  .modify fun r hr => hr.congr (h r.peer)

/-- **Encrypting** uses a keypair up; if it throws there is no session. -/
theorem meets_encrypt (pt : Bytes) :
    Meets (Ready now B) (encrypt lib now pt) (fun _ => Ready now B) (fun _ => Ready now False) := by
  refine .look fun r hr => ?_
  rw [findSendingKeypair_eq hr.confirmed]
  cases hus : usable now r.peer.currKeypair with
  | false =>
    refine .throw fun s hs => ?_
    obtain rfl := hs
    refine ⟨hr.confirmed, fun hss => ?_⟩
    rw [hasSession_eq hr.confirmed, hus] at hss
    cases hss
  | true =>
    refine Meets.bind (Meets.modify fun s hs => ?_) fun _ => Keeps.pure _
    obtain rfl := hs
    exact hr.of_usable hr.confirmed fun _ => hus

theorem keeps_ready_createHandshake : Preserves (Ready now B) (createHandshake lib now id) := by
  unfold createHandshake
  cases lib.createInitiation id with
  | none => exact .throw fun _ hr => hr
  | some => exact .bind (keeps_ready_modifyPeer fun _ => rfl) fun _ => .pure _

theorem keeps_ready_updateTimers : Preserves (Ready now B) (updateTimers now) := by
  refine .bind (.modify fun r hr => ?_) fun _ =>
    .bind .get fun _ => .pure _
  unfold dropUsedUp
  split_ifs
  · exact hr.of_usable nofun nofun
  · exact hr

def Confirms (lib : Library) (now : UInt32) (packet : Bytes) (r : PeerReference) : Prop :=
  getMessageType packet = .transportData ∧ r.peer.getKeypairForIdx (receiver packet) = some .next ∧
    r.peer.nextKeypair.receivingValid = true ∧
    expired now r.peer.nextKeypair.keypairMillis rejectAfterTime = false ∧
    (decryptTransport lib r.peer.nextKeypair packet).isSome = true

instance (lib : Library) (now : UInt32) (packet : Bytes) (r : PeerReference) :
    Decidable (Confirms lib now packet r) :=
  inferInstanceAs (Decidable (_ ∧ _))

def Completes (lib : Library) (id : ℕ) (packet : Bytes) : Prop :=
  getMessageType packet = .handshakeResponse ∧ (lib.response id packet).isSome = true

instance (lib : Library) (id : ℕ) (packet : Bytes) : Decidable (Completes lib id packet) :=
  inferInstanceAs (Decidable (_ ∧ _))

def Reports (id : ℕ) (result : Option ReceivedPacket) : Prop :=
  ∃ received ∈ result, received.peer = id ∧ received.sessionEstablished = true

/-- A packet has arrived on a keypair: the next one is the current one now, and
otherwise nothing changes for what is sent. -/
theorem Ready.received {slot : Slot} (h : Ready now B r) (hnow : now ≠ 0) (hnx : slot = .next → B) :
    Ready now B { r with peer := PeerReference.received now slot r.peer } := by
  cases slot with
  | prev => exact h.congr rfl
  | curr => exact h.of_usable (fun _ => .inr hnow) fun hus => hus
  | next => exact ⟨fun _ => .inr hnow, fun _ => hnx rfl⟩

theorem leaves_acceptCounter {kp : Keypair} {ctr : ℕ} :
    Leaves peer (acceptCounter turns kp ctr) := by
  intro _ r hr
  unfold acceptCounter
  cases SessionReplay.acceptIn turns kp ctr (SessionReplay.replayFor kp r.replaySessions) with
  | none | some => exact hr

variable {packet : Bytes}

/-- **Receiving an encrypted packet**: only one that confirms a session makes a
difference. -/
theorem meets_receiveTransport (hnow : now ≠ 0) (hty : getMessageType packet = .transportData) :
    Leads (fun r => Ready now B r ∧ (Confirms lib now packet r → B))
      (receiveTransport lib turns now id packet) (Ready now B) := by
  refine .look fun r hr => ?_
  obtain ⟨hr, hcn⟩ := hr
  have hno : Leads (· = r) (pure none : Peering (Option ReceivedPacket)) (Ready now B) :=
    (Keeps.pure none).starting hr
  cases hsl : r.peer.getKeypairForIdx (receiver packet) with
  | none => exact hno
  | some slot =>
    refine .ite (fun _ => hno) fun hlive => ?_
    cases hdc : decryptTransport lib (r.peer.keypair slot) packet with
    | none => exact hno
    | some =>
      have hnx : slot = .next → B := by
        rintro rfl
        rw [not_or, Bool.not_eq_false, Bool.not_eq_true] at hlive
        exact hcn ⟨hty, hsl, hlive.1, hlive.2, isSome_of_eq_some hdc⟩
      have hkp : Leads (· = r) (acceptCounter turns (r.peer.keypair slot) (readCounter packet))
          (Ready now B) :=
        ((leaves_acceptCounter r.peer).starting rfl).mono
          fun _ hs => hr.congr (congrArg Peer.currKeypair hs)
      refine Meets.bind hkp fun acc => Meets.ite (fun _ => ?_) fun _ => Keeps.pure _
      exact Meets.bind (Meets.modify fun s hs => hs.received hnow hnx) fun _ => Keeps.pure _

theorem keeps_ready_respond {sess : Session} {resp : Bytes} :
    Preserves (Ready now B) (respond now id sess resp) :=
  .bind (.modify fun _ hr => hr.congr rfl) fun _ => .pure _

/-- **What a packet does to a session**: it comes to be sent with only if the
packet confirms it, or if it is reported. -/
theorem meets_processPacket_ready (hnow : now ≠ 0) :
    Meets (fun r => Ready now B r ∧ (Confirms lib now packet r → B))
      (processPacket lib turns now id packet)
      (fun res => Ready now (B ∨ Completes lib id packet ∧ Reports id res))
      (fun _ => Ready now B) := by
  refine .each fun r hr => ?_
  have hwk {x : Peering (Option ReceivedPacket)}
      (hx : Leads (· = r) x (Ready now B)) :
      Meets (· = r) x (fun res => Ready now (B ∨ Completes lib id packet ∧ Reports id res))
        (fun _ => Ready now B) :=
    hx.post (fun _ _ hs => hs.mono .inl) fun _ _ hs => hs
  have hno := hwk ((Keeps.pure none).starting hr.1)
  unfold processPacket
  cases hty : getMessageType packet with
  | invalid => exact hno
  | handshakeInitiation =>
    cases lib.initiation id packet with
    | none => exact hno
    | some ans =>
      cases ans with
      | none => exact hno
      | some => exact hwk (keeps_ready_respond.starting hr.1)
  | handshakeResponse =>
    cases han : lib.response id packet with
    | none => exact hno
    | some =>
      have hcm : Completes lib id packet := ⟨hty, by rw [han]; rfl⟩
      refine Meets.bind (Meets.modify (Q := fun _ => Ready now True) fun s hs =>
        ⟨fun _ => .inl rfl, fun _ => trivial⟩) fun _ => ?_
      refine Meets.bind ((meets_encrypt []).post (fun _ _ hs => hs)
        fun _ _ hs => hs.mono False.elim) fun _ => Meets.pure fun s hs => ?_
      exact hs.mono fun _ => .inr ⟨hcm, _, rfl, rfl, rfl⟩
  | cookieReply =>
    refine hwk (Meets.starting (Keeps.bind (keeps_ready_modifyPeer ?_) fun _ =>
      Keeps.pure none) hr.1)
    exact fun _ => rfl
  | transportData => exact hwk ((meets_receiveTransport hnow hty).starting hr)

end PeerReference

namespace WireGuardTunnel

open PeerReference

variable {now : UInt32} {B : ℕ → Prop} {lib : Library} {turns n : ℕ} {packet : Bytes}

/-- For every peer, if there is a session then `B`; and there are `n`
peers. -/
structure AllReady (now : UInt32) (B : ℕ → Prop) (n : ℕ) (t : WireGuardTunnel) : Prop where
  length_eq : t.peers.length = n
  /-- If there is a session then `B`. -/
  ready : ∀ (i : ℕ) r, t.peers[i]? = some r → r.Ready now (B i)

variable {C : ℕ → Prop} {t : WireGuardTunnel}

theorem AllReady.mono (h : AllReady now B n t) (hBC : ∀ i, B i → C i) : AllReady now C n t :=
  ⟨h.length_eq, fun i r hr => (h.ready i r hr).mono (hBC i)⟩

theorem AllReady.touch {t' : WireGuardTunnel} {id : ℕ} (h : AllReady now B n t)
    (htc : Touches id (Ready now (C id)) t t') (hBC : ∀ i, B i → C i) : AllReady now C n t' :=
  ⟨htc.length_eq.trans h.length_eq, htc.forall (R := fun i => Ready now (C i))
    (h.mono hBC).ready fun _ hr => hr⟩

/-- **Looking for the peer a packet is from**: all it does to the others is
what a packet does that is reported by none. -/
theorem meets_findSource (hnow : now ≠ 0) (ids : List ℕ) (hnd : ids.Nodup) :
    Meets (fun t => AllReady now B n t ∧
        ∀ i ∈ ids, ∀ r, t.peers[i]? = some r → r.Confirms lib now packet → B i)
      (findSource lib turns now packet ids)
      (fun res => AllReady now (fun i => B i ∨ Completes lib i packet ∧ Reports i res) n)
      (fun _ => AllReady now B n) := by
  induction ids with
  | nil => exact .pure fun t ht => ht.1.mono fun _ => .inl
  | cons id _ ih =>
    obtain ⟨hid, hnd⟩ := nodup_cons.mp hnd
    intro t ht
    obtain ⟨ht, hcn⟩ := ht
    refine Meets.bind ((meets_atPeer (meets_processPacket_ready hnow) fun r hr =>
      ⟨ht.ready id r hr, hcn id mem_cons_self r hr⟩).post
      (fun _ _ hs => hs) fun _ _ hs => ht.touch hs fun _ hB => hB) (fun res => ?_) t rfl
    cases res with
    | some =>
      exact .pure fun t' ht' => ht.touch (C := fun i => B i ∨ _) ht' fun _ => .inl
    | none =>
      refine (ih hnd).pre fun t' ht' => ⟨?_, fun i hi => ?_⟩
      · refine (ht.touch (C := fun i => B i ∨ Completes lib i packet ∧ Reports i none) ht'
          fun _ => .inl).mono fun i hB => ?_
        obtain hB | ⟨-, received, hrc, -⟩ := hB
        · exact hB
        · cases hrc
      · rw [ht'.others i fun heq => hid (heq ▸ hi)]
        exact hcn i (mem_cons_of_mem id hi)

theorem keeps_ready_findInitiator (ids : List ℕ) :
    Preserves (AllReady now B n) (findInitiator lib now packet ids) := by
  induction ids with
  | nil => exact .pure none
  | cons id _ ih =>
    unfold findInitiator
    split
    · exact ih
    · exact .pure none
    · exact .each fun t ht => (meets_atPeer keeps_ready_respond (ht.ready id)).mono
        fun _ hs => ht.touch hs fun _ hB => hB

/-- **What a packet from anyone does to the sessions.** -/
theorem meets_processAny (hnow : now ≠ 0) : Meets (fun t => AllReady now B n t ∧
        ∀ i r, t.peers[i]? = some r → r.Confirms lib now packet → B i)
      (processAny lib turns now packet)
      (fun res => AllReady now (fun i => B i ∨ Completes lib i packet ∧ Reports i res) n)
      (fun _ => AllReady now B n) := by
  refine .look fun t ht => .ite (fun _ => ?_) fun _ => ?_
  · exact ((keeps_ready_findInitiator _).post
      (fun _ _ hs => hs.mono fun _ => .inl) fun _ _ hs => hs).starting ht.1
  · exact (meets_findSource hnow _ nodup_range).starting ⟨ht.1, fun i _ => ht.2 i⟩

end WireGuardTunnel

/-! ## One peer of the router -/

namespace RouterPeer

variable {id : ℕ} {peer : RouterPeer}

/-- The packets that have been encrypted, and then those that wait, are among
those that were to be sent, in that order. -/
structure Ordered (id : ℕ) (peer : RouterPeer) : Prop where
  /-- The number of the peer in the tunnel. -/
  number : peer.tunnelPeer = id
  sublist : (peer.encrypted ++ peer.pending).Sublist peer.submitted

theorem makeRoom_suffix (size : ℕ) (pending : List Bytes) (bytes : ℕ) :
    (makeRoom size pending bytes).1 <:+ pending := by
  induction pending generalizing bytes with
  | nil => exact suffix_refl []
  | cons oldest rest ih =>
    unfold makeRoom
    split_ifs
    · exact (ih _).trans (suffix_cons oldest rest)
    · exact suffix_refl _

/-- **A packet that is to be sent waits** behind those that wait already. -/
theorem Ordered.queue (h : Ordered id peer) (pt : Bytes) :
    Ordered id (queue pt { peer with submitted := peer.submitted ++ [pt] }) := by
  have hrm := (makeRoom_suffix pt.length peer.pending peer.pendingBytes).sublist
  have hkp : (peer.encrypted ++ (makeRoom pt.length peer.pending peer.pendingBytes).1).Sublist
      peer.submitted := (hrm.append_left peer.encrypted).trans h.sublist
  unfold RouterPeer.queue
  split_ifs
  · refine ⟨h.number, ?_⟩
    rw [← append_assoc]
    exact hkp.append_right [pt]
  · exact ⟨h.number, hkp.trans (sublist_append_left _ _)⟩

end RouterPeer

namespace Link

open PeerReference

variable {now : UInt32} {id : ℕ} {lib : Library} {turns : ℕ}

/-- **The packets of a peer are in order, and none waits that could be
sent.** -/
structure Orderly (id : ℕ) (now : UInt32) (l : Link) : Prop where
  ordered : l.peer.Ordered id
  /-- If there is a session, no packet waits. -/
  ready : l.reference.Ready now (l.peer.pending = [])

/-- What the tunnel does keeps the packets in order if it keeps whatever is so
while there is a session. -/
theorem keeps_tunnel {α : Type} {x : Peering α} (h : ∀ B, Preserves (Ready now B) x) :
    Preserves (Orderly id now) (tunnel x) :=
  Meets.within fun l hl => (h (l.peer.pending = [])).mono
    (fun _ hs => ⟨hl.ordered, hs⟩) l.reference hl.ready

theorem meets_hasSession {I : Link → Prop} {E : TunnelError → Link → Prop} :
    Meets I (hasSession now) (fun sess l => I l ∧ sess = l.reference.hasSession now) E :=
  .look fun l hl => .pure fun s (hs : s = l) => hs.symm ▸ ⟨hl, rfl⟩

/-- **A packet is encrypted** in front of those that wait. -/
theorem meets_encryptSubmitted {pt : Bytes} {rest : List Bytes} :
    Meets (fun l => l.peer.tunnelPeer = id ∧ l.peer.pending = rest ∧
        (l.peer.encrypted ++ pt :: rest).Sublist l.peer.submitted ∧ l.reference.Confirmed)
      (encryptSubmitted lib now pt)
      (fun _ l => l.peer.pending = rest ∧ l.peer.Ordered id ∧ l.reference.Confirmed)
      (fun _ => Orderly id now) := by
  refine Meets.bind (Q := fun _ l => l.peer.tunnelPeer = id ∧ l.peer.pending = rest ∧
    (l.peer.encrypted ++ pt :: rest).Sublist l.peer.submitted ∧ l.reference.Confirmed)
    (.within fun l hl => ?_) fun pl => .bind (.modify fun l hl => ?_) fun _ =>
      Meets.bind Keeps.get fun _ => Keeps.pure _
  · obtain ⟨hnm, hpd, hsb, hcn⟩ := hl
    have hry : Ready now True l.reference := ⟨hcn, fun _ => trivial⟩
    refine ((meets_encrypt pt).post (fun _ _ hs => ⟨hnm, hpd, hsb, hs.confirmed⟩)
      fun _ _ hs => ⟨⟨hnm, ?_⟩, hs.mono False.elim⟩) l.reference hry
    rw [hpd]
    exact ((sublist_cons_self pt rest).append_left _).trans hsb
  · obtain ⟨hnm, hpd, hsb, hcn⟩ := hl
    refine ⟨hpd, ⟨hnm, ?_⟩, hcn⟩
    rw [hpd, append_assoc]
    exact hsb

/-- **No packet waits any longer** while there is a session. -/
theorem meets_flushPending (rest : List Bytes) :
    Leads (fun l => l.peer.pending = rest ∧ l.peer.Ordered id ∧ l.reference.Confirmed)
      (flushPending lib now rest) (Orderly id now) := by
  induction rest with
  | nil =>
    exact .pure fun l hl => ⟨hl.2.1, hl.2.2, fun _ => hl.1⟩
  | cons _ rest ih =>
    refine .bind meets_hasSession fun sess =>
      .ite (fun _ => ?_) fun hss => .pure fun l hl => ?_
    · refine .bind (.modify fun l hl => ?_) fun _ =>
        Meets.bind meets_encryptSubmitted fun _ => Meets.bind ih fun _ => Keeps.pure _
      obtain ⟨⟨hpd, hor, hcn⟩, -⟩ := hl
      refine ⟨hor.number, ?_, ?_, hcn⟩
      · show l.peer.pending.drop 1 = rest
        rw [hpd]
        rfl
      · exact hpd ▸ hor.sublist
    · obtain ⟨⟨-, hor, hcn⟩, heq⟩ := hl
      exact ⟨hor, hcn, fun h => absurd (heq.trans h) hss⟩

theorem meets_flush : Leads (fun l => l.peer.Ordered id ∧ l.reference.Confirmed) (flush lib now)
    (Orderly id now) :=
  .look fun l hl => (meets_flushPending l.peer.pending).starting ⟨rfl, hl⟩

theorem keeps_initiate (handshake : Bool) :
    Preserves (Orderly id now) (initiate lib now handshake) :=
  .bind .get fun _ =>
    .bind (keeps_tunnel fun _ => keeps_ready_createHandshake) fun _ => .pure _

theorem keeps_start : Preserves (Orderly id now) (start lib now) := by
  refine .bind (keeps_tunnel fun _ => keeps_ready_modifyPeer fun _ => rfl) fun _ =>
    .bind (.bind .get fun _ => .pure _) fun sess => ?_
  refine .ite (.pure _) (.bind (keeps_tunnel fun _ => keeps_ready_updateTimers) fun act => ?_)
  cases act with
  | sendHandshake => exact keeps_initiate true
  | sendKeepalive | none => exact .pure _

theorem keeps_updateTimers : Preserves (Orderly id now) (updateTimers lib now) := by
  refine .bind (keeps_tunnel fun _ => keeps_ready_updateTimers) fun act => ?_
  cases act with
  | sendHandshake => exact keeps_initiate false
  | none => exact .pure _
  | sendKeepalive =>
    refine .bind (keeps_tunnel fun B => ?_) fun _ => .bind .get fun _ => .pure _
    exact (meets_encrypt []).post (fun _ _ hs => hs) fun _ _ hs => hs.mono False.elim

/-- **Sending**: a packet is encrypted at once only if none waits. -/
theorem keeps_send (pt : Bytes) : Preserves (Orderly id now) (send lib now pt) := by
  refine Meets.bind (Q := fun _ l => l.reference.Ready now (l.peer.pending = []) ∧
    ∃ peer : RouterPeer, peer.Ordered id ∧
      l.peer = { peer with submitted := peer.submitted ++ [pt] })
    (Meets.modify fun l hl => ⟨hl.ready, l.peer, hl.ordered, rfl⟩) fun _ =>
      Meets.bind meets_hasSession fun sess => Meets.ite (fun hss => ?_) fun hss => ?_
  · refine .bind (meets_encryptSubmitted.pre fun l hl => ?_) fun _ =>
      .pure fun l hl => ⟨hl.2.1, hl.2.2, fun _ => hl.1⟩
    obtain ⟨⟨hry, peer, hor, hpr⟩, heq⟩ := hl
    have hpd := hry.imp (heq.symm.trans hss)
    have hsb := hor.sublist.append_right [pt]
    rw [hpr] at hpd ⊢
    rw [show peer.pending = [] from hpd, append_nil] at hsb
    exact ⟨hor.number, hpd, hsb, hry.confirmed⟩
  · refine .bind (.modify fun l hl => ?_) fun _ => keeps_start
    obtain ⟨⟨hry, _, hor, hpr⟩, heq⟩ := hl
    refine ⟨?_, hry.confirmed, fun h => absurd (heq.trans h) hss⟩
    rw [hpr]
    exact hor.queue pt

/-- **What a packet has brought**: if a session is said to have been
established, no packet waits any longer. -/
theorem meets_receive {received : ReceivedPacket} :
    Leads (fun l => l.peer.Ordered id ∧ l.reference.Ready now
        (l.peer.pending = [] ∨ received.sessionEstablished = true))
      (receive lib now received) (Orderly id now) := by
  refine Meets.bind Keeps.get fun _ => Meets.ite (fun _ => ?_) fun hsl => ?_
  · exact .bind (meets_flush.pre (fun l hl => ⟨hl.1, hl.2.confirmed⟩)) fun _ => Keeps.pure _
  · exact .bind (.pure fun l hl =>
      ⟨hl.1, hl.2.mono fun h => h.resolve_right hsl⟩) fun _ => Keeps.pure _

theorem meets_receiveFrom {packet : Bytes} (hnow : now ≠ 0) :
    Leads (fun l => Orderly id now l ∧ (l.reference.Confirms lib now packet → l.peer.pending = []))
      (receiveFrom lib turns now packet) (Orderly id now) := by
  refine .look fun l hl => .bind (Q := fun res l => l.peer.Ordered id ∧
    l.reference.Ready now (l.peer.pending = [] ∨ Reports id res))
    (.within fun s hs => ?_) fun res => ?_
  · obtain rfl := hs
    obtain ⟨hl, hcn⟩ := hl
    rw [hl.ordered.number]
    exact ((meets_processPacket_ready hnow).post
      (fun _ _ hs => ⟨hl.ordered, hs.mono fun h => h.imp_right And.right⟩)
      fun _ _ hs => ⟨hl.ordered, hs⟩) s.reference ⟨hl.ready, hcn⟩
  · cases res with
    | none =>
      refine .pure fun s hs => ⟨hs.1, hs.2.mono fun h => h.resolve_right fun hrp => ?_⟩
      obtain ⟨_, hrc, -⟩ := hrp
      cases hrc
    | some =>
      refine meets_receive.pre fun s hs => ⟨hs.1, hs.2.mono fun h => h.imp_right ?_⟩
      rintro ⟨_, hrc, -, hes⟩
      exact some.inj hrc ▸ hes

end Link

/-! ## All peers -/

namespace WireGuardRouter

open PeerReference

variable {now : UInt32} {lib : Library} {turns i : ℕ} {R R' : ℕ → Link → Prop} {r : WireGuardRouter}

/-- What is true of every peer, by its index; there are as many peers as the
tunnel has. -/
structure Linked (R : ℕ → Link → Prop) (r : WireGuardRouter) : Prop where
  /-- There are as many peers as the tunnel has. -/
  length_eq : r.tunnel.peers.length = r.peers.length
  links : ∀ (i : ℕ) peer reference, r.peers[i]? = some peer →
    r.tunnel.peers[i]? = some reference → R i { peer, reference }

def Numbered (R : ℕ → Link → Prop) : Prop := ∀ i l, R i l → l.peer.tunnelPeer = i

theorem numbered_orderly : Numbered fun i => Link.Orderly i now := fun _ _ h => h.ordered.number

variable {peer : RouterPeer} {x : Link.Linking α} {s : WireGuardRouter × UInt32}

theorem Linked.exists_reference (h : Linked R r) (hpr : r.peers[i]? = some peer) :
    ∃ reference, r.tunnel.peers[i]? = some reference ∧ R i { peer, reference } := by
  have hlt : i < r.tunnel.peers.length := h.length_eq ▸ (List.getElem?_eq_some_iff.mp hpr).1
  exact ⟨_, List.getElem?_eq_getElem hlt, h.links i peer _ hpr (List.getElem?_eq_getElem hlt)⟩

theorem Linked.exists_peer (h : Linked R r) {reference : PeerReference}
    (hrf : r.tunnel.peers[i]? = some reference) :
    ∃ peer, r.peers[i]? = some peer ∧ R i { peer, reference } := by
  have hlt : i < r.peers.length := h.length_eq ▸ (List.getElem?_eq_some_iff.mp hrf).1
  exact ⟨_, List.getElem?_eq_getElem hlt, h.links i _ reference (List.getElem?_eq_getElem hlt) hrf⟩

variable {l : Link} {α : Type} {packet : Bytes}

theorem Linked.link?_eq_some (h : Linked R r) (hR : Numbered R) :
    r.link? i = some l ↔ r.peers[i]? = some l.peer ∧ r.tunnel.peers[i]? = some l.reference := by
  have hnm {peer : RouterPeer} (hpr : r.peers[i]? = some peer) : peer.tunnelPeer = i := by
    obtain ⟨_, -, hln⟩ := h.exists_reference hpr
    exact hR i _ hln
  constructor
  · intro hln
    obtain ⟨_, hpr, hrs⟩ := bind_eq_some_iff.mp hln
    obtain ⟨_, hrf, heq⟩ := bind_eq_some_iff.mp hrs
    rw [hnm hpr] at hrf
    cases heq
    exact ⟨hpr, hrf⟩
  · rintro ⟨hpr, hrf⟩
    refine bind_eq_some_iff.mpr ⟨l.peer, hpr, bind_eq_some_iff.mpr ⟨l.reference, ?_, rfl⟩⟩
    rw [hnm hpr]
    exact hrf

theorem Linked.put (h : Linked R r) (hR' : Numbered R') (hl : R' i l)
    (hot : ∀ j l, j ≠ i → R j l → R' j l) : Linked R' (r.put i l) := by
  unfold WireGuardRouter.put
  rw [hR' i l hl]
  refine ⟨by rw [length_set, length_set, h.length_eq], fun j peer ref hp ht => ?_⟩
  by_cases hj : j = i
  · subst hj
    have hlt := (List.getElem?_eq_some_iff.mp hp).1
    rw [length_set] at hlt
    rw [List.getElem?_set_self hlt] at hp
    rw [List.getElem?_set_self (h.length_eq ▸ hlt)] at ht
    cases hp
    cases ht
    exact hl
  · rw [List.getElem?_set_ne (Ne.symm hj)] at hp ht
    exact hot j _ hj (h.links j peer ref hp ht)

/-- **What is done to one peer** is done to no other. -/
theorem meets_atLink (hR : Numbered R) (hR' : Numbered R')
    (hx : Leads (R i) x (R' i)) (hot : ∀ j l, j ≠ i → R j l → R' j l) :
    Leads (Linked R) (atLink i x) (Linked R') := by
  intro r hr
  unfold atLink
  cases hln : r.link? i with
  | none =>
    refine ⟨hr.length_eq, fun j peer reference hp ht => ?_⟩
    refine hot j _ (fun hj => ?_) (hr.links j peer reference hp ht)
    subst hj
    have hso : r.link? j = some { peer, reference } := (hr.link?_eq_some hR).mpr ⟨hp, ht⟩
    exact nomatch hln.symm.trans hso
  | some l =>
    obtain ⟨hp, ht⟩ := (hr.link?_eq_some hR).mp hln
    have hrun := hx l (hr.links i l.peer l.reference hp ht)
    dsimp only
    cases hxl : x l with
    | ok | error =>
      rw [hxl] at hrun
      exact hr.put hR' hrun hot

/-- **The packets of all peers are in order, and none waits that could be
sent.** -/
abbrev Orderly (now : UInt32) : WireGuardRouter → Prop := Linked fun i => Link.Orderly i now

theorem keeps_atLink (hx : Preserves (Link.Orderly i now) x) :
    Preserves (Orderly now) (atLink i x) :=
  meets_atLink numbered_orderly numbered_orderly hx fun _ _ _ h => h

/-! ### Configurations -/

/-- What a configuration says about a peer has nothing to do with its
packets. -/
theorem Orderly.configure (h : Orderly now r) {peers : List RouterPeer}
    (hlen : peers.length = r.peers.length)
    (hps : ∀ (i : ℕ) peer, peers[i]? = some peer → ∃ old config active,
      r.peers[i]? = some old ∧ peer = { old with config, active })
    (routes : List ℕ) (exitNode : String) :
    Orderly now { r with peers, routes, exitNode } := by
  refine ⟨h.length_eq.trans hlen.symm, fun i peer reference hp ht => ?_⟩
  obtain ⟨old, _, _, hold, rfl⟩ := hps i peer hp
  have hln := h.links i old reference hold ht
  exact ⟨⟨hln.ordered.number, hln.ordered.sublist⟩, hln.ready⟩

theorem Orderly.add (h : Orderly now r) (config : PeerConfig) (publicKey : Bytes)
    (routes : List ℕ) :
    Orderly now { r with
      tunnel := { peers := r.tunnel.peers ++ [{}] }
      peers := r.peers ++ [{ config, publicKey, tunnelPeer := r.tunnel.peers.length }]
      routes } := by
  refine ⟨by simp [h.length_eq], fun i peer reference hp ht => ?_⟩
  by_cases hi : i < r.peers.length
  · rw [List.getElem?_append_left hi] at hp
    rw [List.getElem?_append_left (h.length_eq ▸ hi)] at ht
    exact h.links i peer reference hp ht
  · rw [List.getElem?_append_right (not_lt.mp hi), List.getElem?_singleton] at hp
    rw [List.getElem?_append_right (h.length_eq ▸ not_lt.mp hi), List.getElem?_singleton] at ht
    split_ifs at hp ht with hla
    cases hp
    cases ht
    refine ⟨⟨?_, nil_sublist _⟩, ready_new⟩
    show r.tunnel.peers.length = i
    have hlen := h.length_eq
    omega

theorem keeps_updatePeer (config : PeerConfig) :
    Preserves (Orderly now) (updatePeer lib config) := by
  unfold updatePeer
  cases parseNodeKey config.key with
  | none => exact .pure _
  | some publicKey =>
    refine .look fun r hr => ?_
    cases r.peers.findIdx? fun peer => peer.publicKey = publicKey with
    | none =>
      refine .bind (Q := fun id r' => id = r.tunnel.peers.length ∧
        r' = { r with tunnel := { peers := r.tunnel.peers ++ [{}] } })
        (.within fun s hs => ?_) fun id => .modify fun s hs => ?_
      · obtain rfl := hs
        exact (WireGuardTunnel.meets_addPeer.post
          (fun _ _ hs => ⟨hs.1, hs.2 ▸ rfl⟩) fun _ _ hs => hs ▸ hr) s.tunnel rfl
      · obtain ⟨rfl, rfl⟩ := hs
        exact hr.add config publicKey _
    | some =>
      refine .modify fun s hs => ?_
      obtain rfl := hs
      refine hr.configure (length_modify ..) (fun j peer hpr => ?_) _ _
      rw [List.getElem?_modify] at hpr
      obtain ⟨old, hold, heq⟩ := map_eq_some_iff.mp hpr
      split_ifs at heq
      · exact ⟨old, config, true, hold, heq.symm⟩
      · exact ⟨old, old.config, old.active, hold, heq.symm⟩

theorem keeps_updatePeers (configs : List PeerConfig) (exitNode : String) :
    Preserves (Orderly now) (updatePeers lib configs exitNode) := by
  refine .bind (.modify fun r hr => ?_) fun _ => .forM keeps_updatePeer
  refine hr.configure (length_map ..) (fun i peer hpr => ?_) _ _
  rw [List.getElem?_map] at hpr
  obtain ⟨old, hold, heq⟩ := map_eq_some_iff.mp hpr
  exact ⟨old, old.config, false, hold, heq.symm⟩

/-! ### Packets -/

theorem keeps_updateTimersOf (rts : List ℕ) :
    Preserves (Orderly now) (updateTimersOf lib now rts) := by
  induction rts with
  | nil => exact .pure _
  | cons _ _ ih =>
    exact .bind (keeps_atLink Link.keeps_updateTimers) fun _ =>
      .bind ih fun _ => .pure _

theorem of_findTunnelPeer {tunnelPeer : ℕ} (h : r.findTunnelPeer tunnelPeer = some i) :
    ∃ peer, r.peers[i]? = some peer ∧ peer.tunnelPeer = tunnelPeer := by
  obtain ⟨hlt, hfo, -⟩ := findIdx?_eq_some_iff_getElem.mp h
  rw [Bool.and_eq_true, beq_iff_eq] at hfo
  exact ⟨r.peers[i], List.getElem?_eq_getElem hlt, hfo.2⟩

theorem inactive_of_findTunnelPeer (hpr : r.peers[i]? = some peer)
    (h : r.findTunnelPeer peer.tunnelPeer = none) : peer.active = false := by
  have hnot := findIdx?_eq_none_iff.mp h peer (mem_of_getElem? hpr)
  simpa using hnot

/-- What may be asked of a packet from anyone: if it confirms a session, or
completes a handshake with a peer that is not active, no packet waits for
that. -/
def Unawaited (lib : Library) (now : UInt32) (packet : Bytes) (i : ℕ) (l : Link) : Prop :=
  l.reference.Confirms lib now packet ∨ l.peer.active = false ∧ Completes lib i packet →
    l.peer.pending = []

instance (lib : Library) (now : UInt32) (packet : Bytes) (i : ℕ) (l : Link) :
    Decidable (Unawaited lib now packet i l) :=
  inferInstanceAs (Decidable (_ → _))

structure Received (lib : Library) (now : UInt32) (packet : Bytes)
    (result : Option ReceivedPacket) (i : ℕ) (l : Link) : Prop where
  ordered : l.peer.Ordered i
  /-- If there is a session, no packet waits or it is reported. -/
  ready : l.reference.Ready now (l.peer.pending = [] ∨ Completes lib i packet ∧ Reports i result)
  /-- No packet waits if the peer is not active. -/
  inactive : l.peer.active = false → Completes lib i packet → l.peer.pending = []

theorem Received.orderly {res : Option ReceivedPacket} (h : Received lib now packet res i l)
    (hpd : Completes lib i packet → Reports i res → l.peer.pending = []) :
    l.Orderly i now :=
  ⟨h.ordered, h.ready.mono fun hry => hry.elim (fun h => h) fun h => hpd h.1 h.2⟩

theorem meets_atTunnel_processAny (hnow : now ≠ 0) :
    Meets (Linked fun i l => Link.Orderly i now l ∧ Unawaited lib now packet i l)
      (atTunnel (WireGuardTunnel.processAny lib turns now packet))
      (fun res => Linked (Received lib now packet res)) (fun _ => Orderly now) := by
  refine .within fun r hr => ?_
  -- No packet waits for the peer at an index.
  let B (i : ℕ) : Prop := ∀ peer, r.peers[i]? = some peer → peer.pending = []
  have hB {i : ℕ} {peer : RouterPeer} (hp : r.peers[i]? = some peer) (h : peer.pending = []) :
      B i := fun peer' hp' => some.inj (hp'.symm.trans hp) ▸ h
  have hry : WireGuardTunnel.AllReady now B r.peers.length r.tunnel := by
    refine ⟨hr.length_eq, fun i ref ht => ?_⟩
    obtain ⟨_, hp, hln, -⟩ := hr.exists_peer ht
    exact hln.ready.mono (hB hp)
  have hcn (i : ℕ) (ref : PeerReference) (ht : r.tunnel.peers[i]? = some ref)
      (h : ref.Confirms lib now packet) : B i := by
    obtain ⟨_, hp, -, hun⟩ := hr.exists_peer ht
    exact hB hp (hun (.inl h))
  refine ((WireGuardTunnel.meets_processAny hnow).post
    (fun res t ht => ⟨ht.length_eq, fun i peer ref hp ht' => ?_⟩)
    fun _ t ht => ⟨ht.length_eq, fun i peer ref hp ht' => ?_⟩) r.tunnel ⟨hry, hcn⟩
  · obtain ⟨_, -, hln, hun⟩ := hr.exists_reference hp
    exact ⟨hln.ordered, (ht.ready i ref ht').mono fun h => h.imp_left fun h => h peer hp,
      fun hin hcm => hun (.inr ⟨hin, hcm⟩)⟩
  · obtain ⟨_, -, hln, -⟩ := hr.exists_reference hp
    exact ⟨hln.ordered, (ht.ready i ref ht').mono fun h => h peer hp⟩

/-- **Receiving a packet from anyone**: what it has brought is seen to unless
the peer is not active. -/
theorem meets_receive (hnow : now ≠ 0) :
    Leads (Linked fun i l => Link.Orderly i now l ∧ Unawaited lib now packet i l)
      (receive lib turns now packet) (Orderly now) := by
  refine .bind (meets_atTunnel_processAny hnow) fun res => ?_
  cases res with
  | none =>
    refine .pure fun r hr => ⟨hr.length_eq, fun i peer ref hp ht =>
      (hr.links i peer ref hp ht).orderly fun _ hrp => ?_⟩
    obtain ⟨_, hrc, -⟩ := hrp
    cases hrc
  | some received =>
    have hrp {i : ℕ} (h : Reports i (some received)) :
        received.peer = i ∧ received.sessionEstablished = true := by
      obtain ⟨_, hrc, hpr, hes⟩ := h
      cases hrc
      exact ⟨hpr, hes⟩
    refine .look fun r hr => ?_
    cases hfd : r.findTunnelPeer received.peer with
    | none =>
      refine .pure fun s hs => ?_
      obtain rfl := hs
      refine ⟨hr.length_eq, fun i peer ref hp ht => ?_⟩
      have hln := hr.links i peer ref hp ht
      refine hln.orderly fun hcm h => hln.inactive ?_ hcm
      rw [(hrp h).1, ← hln.ordered.number] at hfd
      exact inactive_of_findTunnelPeer hp hfd
    | some j =>
      obtain ⟨_, hp, hpr⟩ := of_findTunnelPeer hfd
      obtain ⟨_, -, hln⟩ := hr.exists_reference hp
      have hj : received.peer = j := hpr.symm.trans hln.ordered.number
      refine (meets_atLink (fun _ _ h => h.ordered.number) numbered_orderly
        (Link.meets_receive.pre fun l hl => ⟨hl.ordered, hl.ready.mono fun h =>
          h.imp_right fun h => (hrp h.2).2⟩)
        fun i l hi hl => hl.orderly fun _ h => ?_).starting hr
      exact absurd (hj.symm.trans (hrp h).1) (Ne.symm hi)

/-! ## Runs -/

inductive Call
  | updatePeers (lib : Library) (configs : List PeerConfig) (exitNode : String)
  | send (aton : Aton) (lib : Library) (now : UInt32) (plaintext : Bytes)
  | sendTo (lib : Library) (now : UInt32) (peer plaintext : Bytes)
  | start (lib : Library) (now : UInt32) (peer : Bytes)
  | receiveFrom (lib : Library) (now : UInt32) (source packet : Bytes)
  | receive (lib : Library) (now : UInt32) (packet : Bytes)
  | updateTimers (lib : Library) (now : UInt32)

def Call.run (turns : ℕ) : Call → Routing Unit
  | updatePeers lib configs exitNode => WireGuardRouter.updatePeers lib configs exitNode
  | send aton lib now plaintext => discard (WireGuardRouter.send aton lib now plaintext)
  | sendTo lib now peer plaintext => discard (WireGuardRouter.sendTo lib now peer plaintext)
  | start lib now peer => discard (WireGuardRouter.start lib now peer)
  | receiveFrom lib now source packet =>
    discard (WireGuardRouter.receiveFrom lib turns now source packet)
  | receive lib now packet => discard (WireGuardRouter.receive lib turns now packet)
  | updateTimers lib now => discard (WireGuardRouter.updateTimers lib now)

/-- The time of a call, given that of the call before; a new configuration
does not look at the time. -/
def Call.time (clock : UInt32) : Call → UInt32
  | updatePeers .. => clock
  | send _ _ now _ => now
  | sendTo _ now _ _ => now
  | start _ now _ => now
  | receiveFrom _ now _ _ => now
  | receive _ now _ => now
  | updateTimers _ now => now

def Call.next (turns : ℕ) (s : WireGuardRouter × UInt32) (call : Call) : WireGuardRouter × UInt32 :=
  (after (call.run turns) s.1, call.time s.2)

/-- **A router and the calls of its methods**, with the time of the last
call. -/
def calls (turns : ℕ) : TransitionSystem (WireGuardRouter × UInt32) Call where
  init s := s.1 = {}
  step s call s' := s' = call.next turns s

/-- The clock does not read zero, and it does not make a keypair new again that
had expired. -/
def Timely (s : WireGuardRouter × UInt32) (now : UInt32) : Prop :=
  now ≠ 0 ∧ ∀ reference ∈ s.1.tunnel.peers,
    expired s.2 reference.peer.currKeypair.keypairMillis rejectAfterTime = true →
      expired now reference.peer.currKeypair.keypairMillis rejectAfterTime = true

instance (s : WireGuardRouter × UInt32) (now : UInt32) : Decidable (Timely s now) :=
  inferInstanceAs (Decidable (_ ∧ _))

/-- **What is asked of a call**: a packet that confirms a session, or that
completes a handshake with a peer that is not active, finds no packet
waiting. -/
def Admitted (s : WireGuardRouter × UInt32) (call : Call) : Prop :=
  match call with
  | .updatePeers .. => True
  | .receiveFrom lib now source packet => Timely s now ∧
    ∀ i ∈ s.1.findPeer source, ∀ l ∈ s.1.link? i,
      l.reference.Confirms lib now packet → l.peer.pending = []
  | .receive lib now packet => Timely s now ∧
    ∀ i < s.1.peers.length, ∀ l ∈ s.1.link? i, Unawaited lib now packet i l
  | .send _ _ now _ | .sendTo _ now _ _ | .start _ now _ | .updateTimers _ now => Timely s now

instance (s : WireGuardRouter × UInt32) (call : Call) : Decidable (Admitted s call) :=
  match call with
  | .updatePeers .. => inferInstanceAs (Decidable True)
  | .receiveFrom .. | .receive .. => inferInstanceAs (Decidable (_ ∧ _))
  | .send _ _ now _ | .sendTo _ now _ _ | .start _ now _ | .updateTimers _ now =>
    inferInstanceAs (Decidable (Timely s now))

theorem Orderly.later (h : Orderly s.2 s.1) (htm : Timely s now) : Orderly now s.1 := by
  refine ⟨h.length_eq, fun i peer ref hp ht => ?_⟩
  have hln := h.links i peer ref hp ht
  refine ⟨hln.ordered, hln.ready.confirmed, fun hss => hln.ready.imp ?_⟩
  have hex := htm.2 ref (mem_of_getElem? ht)
  rw [hasSession_eq hln.ready.confirmed] at hss ⊢
  unfold usable at hss ⊢
  rw [Bool.and_eq_true, Bool.and_eq_true, Bool.not_eq_true'] at hss ⊢
  refine ⟨⟨hss.1.1, ?_⟩, hss.2⟩
  rw [← Bool.not_eq_true]
  exact fun h => Bool.noConfusion (hss.1.2.symm.trans (hex h))

theorem meets_find {find : WireGuardRouter → Option ℕ} {none' : Routing α}
    {some' : ℕ → Routing α} {P : WireGuardRouter → Prop}
    (hno : Leads P none' (Orderly now))
    (hso : ∀ r i, P r → find r = some i →
      Leads (· = r) (some' i) (Orderly now)) :
    Leads P (do
      let r ← get
      match find r with
      | none => none' | some i => some' i) (Orderly now) := by
  refine .look fun r hr => ?_
  cases hfd : find r with
  | none => exact hno.starting hr
  | some i => exact hso r i hr hfd

/-- **A call keeps the packets in order.** -/
theorem Orderly.call (h : Orderly s.2 s.1) {call : Call}
    (hcl : Admitted s call) : Orderly (call.time s.2) (after (call.run turns) s.1) := by
  cases call with
  | updatePeers _ configs exitNode => exact (keeps_updatePeers configs exitNode).after h
  | send _ _ _ plaintext =>
    refine Keeps.after (Keeps.bind (meets_find ?_ fun r i hr _ => ?_) fun _ => Keeps.pure ())
      (h.later hcl)
    · refine Keeps.bind (Meets.modify fun r hr => ?_) fun _ => Keeps.pure _
      exact ⟨hr.length_eq, hr.links⟩
    · exact (keeps_atLink (Link.keeps_send plaintext)).starting hr
  | sendTo _ _ _ plaintext =>
    exact Keeps.after (Keeps.bind (meets_find (Keeps.pure _) fun r i hr _ =>
      (keeps_atLink (Link.keeps_send plaintext)).starting hr) fun _ => Keeps.pure ())
      (h.later hcl)
  | start =>
    exact Keeps.after (Keeps.bind (meets_find (Keeps.pure _) fun r i hr _ =>
      (keeps_atLink Link.keeps_start).starting hr) fun _ => Keeps.pure ()) (h.later hcl)
  | updateTimers =>
    refine Keeps.after (Keeps.bind (Meets.look fun r hr => ?_) fun _ => Keeps.pure ()) (h.later hcl)
    exact (keeps_updateTimersOf r.routes).starting hr
  | receiveFrom lib now _ packet =>
    obtain ⟨htm, hcn⟩ := hcl
    have hlt := h.later htm
    refine (Meets.bind (meets_find ((Keeps.pure _).starting hlt) fun r i hr hfd => ?_) fun _ =>
      Keeps.pure ()).after rfl
    obtain rfl := hr
    refine (meets_atLink (R := fun j l => Link.Orderly j now l ∧
        (j = i → l.reference.Confirms lib now packet → l.peer.pending = []))
      (fun _ _ h => h.1.ordered.number) numbered_orderly ?_ fun _ _ _ h => h.1).starting
      ⟨hlt.length_eq, fun j peer reference hp ht => ⟨hlt.links j peer reference hp ht, ?_⟩⟩
    · exact (Link.meets_receiveFrom htm.1).pre fun l hl => ⟨hl.1, hl.2 rfl⟩
    · rintro rfl
      exact hcn j hfd _ ((hlt.link?_eq_some numbered_orderly).mpr ⟨hp, ht⟩)
  | receive =>
    obtain ⟨htm, hun⟩ := hcl
    have hlt := h.later htm
    refine (Meets.bind (meets_receive htm.1) fun _ => Keeps.pure ()).after
      ⟨hlt.length_eq, fun i peer reference hp ht => ⟨hlt.links i peer reference hp ht, ?_⟩⟩
    exact hun i (List.getElem?_eq_some_iff.mp hp).1 _
      ((hlt.link?_eq_some numbered_orderly).mpr ⟨hp, ht⟩)

/-- **No packet is stranded or overtaken**: while there is a session with a peer
no packet waits for one, and the packets that have been encrypted are among
those that were to be sent, in that order. -/
theorem none_stranded {turns : ℕ} {s : WireGuardRouter × UInt32}
    (h : ((calls turns).restrict Admitted).Reachable s) (i : ℕ) :
    ∀ l ∈ s.1.link? i, (l.reference.hasSession s.2 = true → l.peer.pending = []) ∧
      l.peer.encrypted.Sublist l.peer.submitted := by
  have hor : Orderly s.2 s.1 := by
    refine TransitionSystem.invariant (P := fun s => Orderly s.2 s.1) ?_ ?_ h
    · intro s hs
      rw [show s.1 = {} from hs]
      exact ⟨rfl, fun i peer reference hp => nomatch hp⟩
    · rintro _ _ _ hs ⟨hcl, rfl⟩
      exact hs.call hcl
  intro l hl
  obtain ⟨hp, ht⟩ := (hor.link?_eq_some numbered_orderly).mp hl
  have hln := hor.links i l.peer l.reference hp ht
  exact ⟨hln.ready.imp, (sublist_append_left _ _).trans hln.ordered.sublist⟩

def someKey : Bytes := replicate 32 17

def somePeer : PeerConfig where
  key := "nodekey:1111111111111111111111111111111111111111111111111111111111111111"

def sentInOrder : List Call :=
  [.updatePeers plain [somePeer] "", .sendTo plain 1000 someKey [1],
    .receiveFrom plain 2000 someKey (plainResponse 7), .sendTo plain 3000 someKey [2]]

def callIf (turns : ℕ) (s : WireGuardRouter × UInt32) (call : Call) :
    Option (WireGuardRouter × UInt32) :=
  if Admitted s call then some (call.next turns s) else none

theorem sent_in_order_none_stranded :
    ∃ s l, ((calls 8192).restrict Admitted).Reachable s ∧ s.1.link? 0 = some l ∧
      l.reference.hasSession s.2 = true ∧ l.peer.encrypted = [[1], [2]] ∧
      (l.reference.hasSession s.2 = true → l.peer.pending = []) ∧
        l.peer.encrypted.Sublist l.peer.submitted := by
  have hsp (s : WireGuardRouter × UInt32) (call : Call) (s' : WireGuardRouter × UInt32)
      (h : callIf 8192 s call = some s') : ((calls 8192).restrict Admitted).step s call s' := by
    unfold callIf at h
    split_ifs at h with hcl
    exact ⟨hcl, (some.inj h).symm⟩
  have hrun : ∃ s ∈ sentInOrder.foldlM (callIf 8192) ({}, 0), ∃ l ∈ s.1.link? 0,
      l.reference.hasSession s.2 = true ∧ l.peer.encrypted = [[1], [2]] := by
    decide +kernel
  obtain ⟨s, hs, l, hl, hss, hed⟩ := hrun
  have hin : ((calls 8192).restrict Admitted).Reachable ({}, 0) := .init rfl
  have hre := hin.of_foldlM hsp hs
  exact ⟨s, l, hre, hl, hss, hed, none_stranded hre 0 l hl⟩

def stranding : List Call :=
  [.updatePeers plain [somePeer] "", .sendTo plain 1000 someKey [1],
    .receiveFrom plain 2000 someKey (plainInitiation 7),
    .receiveFrom plain 3000 someKey (plainTransport 7 0 [])]

def overtaking : List Call :=
  stranding ++ [.sendTo plain 4000 someKey [2], .receiveFrom plain 5000 someKey (plainResponse 8)]

/-- **The packet goes on waiting** while there is a session, and is encrypted
after one that was sent later. -/
theorem responder_strands : (∃ s, (calls 8192).Reachable s ∧ ∃ l ∈ s.1.link? 0,
      l.reference.hasSession s.2 = true ∧ l.peer.pending = [[1]]) ∧
    ∃ s, (calls 8192).Reachable s ∧ ∃ l ∈ s.1.link? 0,
      l.peer.encrypted = [[2], [1]] ∧ l.peer.submitted = [[1], [2]] ∧
        ¬l.peer.encrypted.Sublist l.peer.submitted := by
  have hre (evs : List Call) : (calls 8192).Reachable
      (evs.foldl (Call.next 8192) ({}, 0)) := .of_foldl (fun _ _ => rfl) (.init rfl) evs
  exact ⟨⟨_, hre stranding, by decide +kernel⟩, ⟨_, hre overtaking, by decide +kernel⟩⟩

end WireGuardRouter

end Tailgate
