import Tailgate.SessionPackets

/-!
# Who can send disco messages

It should take a private key to send a disco message: the peer's, or that of the
node. With an ideal library it does if the node and the sender share a secret
(`lowOrder_of_forged`). With a key of low order they share none, and everyone can
seal such a box (`exists_forged`). So the paths are safe exactly as long as no
peer is listed under a key of low order.
-/

namespace Tailgate

open Procedure WireGuard List SealedBoxes.Small Disco

variable {Secret : Type} {B : SealedBoxes Secret} {lowOrder : Bytes → Prop}
  {Computes : Set Bytes → Secret → Prop}

namespace Disco

def MadeBy (B : SealedBoxes Secret) (Computes : Set Bytes → Secret → Prop)
    (known : Set Bytes) (packet : Bytes) : Prop :=
  B.MadeBy Computes known (nonceOf packet) (boxOf packet)

/-- A packet was made by someone who knows neither the private key of the node
nor that of the sender the packet names. -/
def Forged (B : SealedBoxes Secret) (Computes : Set Bytes → Secret → Prop) (d : Disco)
    (packet : Bytes) : Prop :=
  ∃ known, MadeBy B Computes known packet ∧ ¬B.Knows known (B.publicKey d.privateKey) ∧
    ¬B.Knows known (senderOf packet)

/-- **A forged packet that is accepted is from a key of low order.** -/
theorem lowOrder_of_forged (hB : B.Ideal lowOrder Computes) {d : Disco} {packet : Bytes}
    {msg : Message} (hfr : Forged B Computes d packet)
    (hpa : d.parse B packet = some msg) : lowOrder msg.sender := by
  obtain ⟨_, hmd, hnd, hsn⟩ := hfr
  obtain ⟨hpk, hnm, _, hop⟩ := exists_of_parse hpa
  rw [← hnm] at hsn
  have hlen : msg.sender.length = 32 := hnm ▸ length_senderOf hpk
  rw [← hB.agree_eq_none d.privateKey msg.sender hlen]
  by_contra hag
  obtain ⟨secret, hag⟩ := Option.ne_none_iff_exists'.mp hag
  have hsh : sharedKey B d.privateKey msg.sender = secret := by
    unfold sharedKey
    rw [hag]
    rfl
  rw [hsh] at hop
  exact (hB.knows_of_openBox hmd hag hop).elim hnd hsn

def zeroPing (B : SealedBoxes Secret) (sender : Bytes) : Bytes :=
  packetOf sender (replicate 24 0) (B.sealBox B.zero (replicate 24 0) shortPing)

variable {sender : Bytes}

theorem madeBy_zeroPing (hB : B.Ideal lowOrder Computes)
    (hsn : sender.length = 32) (known : Set Bytes) :
    MadeBy B Computes known (zeroPing B sender) := by
  unfold MadeBy zeroPing
  rw [nonceOf_packetOf hsn (by simp), boxOf_packetOf hsn (by simp)]
  exact hB.madeBy_sealBox (hB.computes_zero known) _ _

theorem not_knows_empty (B : SealedBoxes Secret) (key : Bytes) : ¬B.Knows ∅ key := by
  rintro ⟨_, hkn, -⟩
  exact hkn

theorem forged_zeroPing (hB : B.Ideal lowOrder Computes)
    (hsn : sender.length = 32) (d : Disco) : Forged B Computes d (zeroPing B sender) :=
  ⟨∅, madeBy_zeroPing hB hsn ∅, not_knows_empty B _, not_knows_empty B _⟩

/-- **Whose key is of low order can be impersonated.** -/
theorem parse_zeroPing (hB : B.Ideal lowOrder Computes)
    (hsn : sender.length = 32) (hlow : lowOrder sender) (d : Disco) :
    d.parse B (zeroPing B sender) = some { type := .ping, sender } := by
  have hsh : sharedKey B d.privateKey sender = B.zero := by
    unfold sharedKey
    rw [(hB.agree_eq_none d.privateKey sender hsn).mpr hlow]
    rfl
  have hbox : 18 ≤ (B.sealBox B.zero (replicate 24 0) shortPing).length := by
    rw [hB.length_sealBox]
    simp [shortPing]
  have hop : B.openBox (sharedKey B d.privateKey sender) (replicate 24 0)
      (B.sealBox B.zero (replicate 24 0) shortPing) = some shortPing := by
    rw [hsh]
    exact hB.openBox_sealBox B.zero _ _
  exact parse_packetOf hsn (by simp) hbox hop

end Disco

namespace Session

def Exposed (lowOrder : Bytes → Prop) (s : Session) : Prop :=
  s.configured ∧ ∃ key : Bytes, key.length = 32 ∧ lowOrder key ∧
    ∃ i peer, s.findDiscoPeer key = some i ∧ s.peers[i]? = some peer ∧
      s.connection.hasPeer peer.publicKey

variable {s : Session} {i : ℕ} {peer : SessionPeer} {packet : Bytes}

theorem exists_of_modifyPeer {size : ℕ} (h : (s.modifyPeer i fun peer =>
      { peer with receivedBytes := peer.receivedBytes + size }).peers[i]? = some peer) :
    ∃ old, s.peers[i]? = some old ∧ old.publicKey = peer.publicKey := by
  simp only [modifyPeer, getElem?_modify, if_pos, Option.map_eq_map, Option.map_eq_some_iff] at h
  obtain ⟨old, hold, rfl⟩ := h
  exact ⟨old, hold, rfl⟩

/-- **A disco message leaves the direct paths alone** unless its sender is a
peer whose path is kept. -/
theorem directEndpoint_processDiscoPacket
    (h : ∀ msg i peer, s.configured → s.disco.parse B packet = some msg →
      s.findDiscoPeer msg.sender = some i → s.peers[i]? = some peer →
        ¬s.connection.hasPeer peer.publicKey)
    (io : Inputs) (dsrc : Option Bytes) (directSource : Option Endpoint)
    (dconn : Option ℕ) (other : Bytes) :
    (s.processDiscoPacket B io dsrc directSource dconn
      packet).2.connection.directEndpoint other = s.connection.directEndpoint other := by
  unfold processDiscoPacket
  split
  · rfl
  · rename_i hcn
    replace hcn : s.configured := by
      cases hs : s.configured with
      | true => rfl
      | false => simp [hs] at hcn
    split
    · rfl
    · rename_i msg hpa
      split
      · rfl
      · rename_i i hfd
        dsimp only
        split
        · rfl
        · rename_i peer hpr
          obtain ⟨old, hold, hkey⟩ := exists_of_modifyPeer hpr
          have hnot := h msg i old hcn hpa hfd hold
          rw [hkey] at hnot
          obtain hkp | ⟨ep, -, hmr⟩ := directEndpoint_processMessage B io peer
            msg.sender dsrc directSource dconn msg
            (s.modifyPeer i fun peer =>
              { peer with receivedBytes := peer.receivedBytes + packet.length })
          · exact hkp other
          · rw [hmr]
            show (s.connection.markDirect peer.publicKey ep).2.directEndpoint other = _
            rw [Connection.markDirect_eq hnot]

theorem directEndpoint_of_ping {message : Disco.Message} (hcn : s.configured)
    (hpa : s.disco.parse B packet = some message) (hpn : message.type = .ping)
    (hfd : s.findDiscoPeer message.sender = some i) (hpr : s.peers[i]? = some peer)
    (had : s.connection.hasPeer peer.publicKey) (io : Inputs) (endpoint : Endpoint) :
    (s.processDiscoPacket B io none (some endpoint) none
      packet).2.connection.directEndpoint peer.publicKey = some endpoint := by
  have hpk := (exists_of_parse hpa).1
  have hpr' : (s.modifyPeer i fun peer =>
      { peer with receivedBytes := peer.receivedBytes + packet.length }).peers[i]?
        = some { peer with receivedBytes := peer.receivedBytes + packet.length } := by
    simp [modifyPeer, hpr]
  unfold processDiscoPacket
  rw [if_neg (by simp [hcn, hpk]), hpa]
  dsimp only
  rw [hfd]
  dsimp only
  rw [hpr']
  unfold processMessage
  rw [hpn]
  exact Connection.directEndpoint_markDirect had endpoint

theorem mem_of_findDiscoPeer {key : Bytes}
    (h : s.findDiscoPeer key = some i) : some key ∈ s.peers.map SessionPeer.discoKey := by
  obtain ⟨hlt, hpr, -⟩ := findIdx?_eq_some_iff_getElem.mp h
  rw [Bool.and_eq_true, beq_iff_eq] at hpr
  exact mem_map.mpr ⟨_, getElem_mem hlt, hpr.2⟩

/-- **Disco messages are authentic except from keys of low order.** With an
ideal library, a key of 32 bytes is of another order exactly if every packet
that is accepted with it as its sender was made with one of the two private
keys. And a session exposes no peer exactly if no packet that was made without
them ever changes a direct path. -/
theorem disco_authentic_iff (hB : B.Ideal lowOrder Computes) :
    (∀ (d : Disco) (sender : Bytes), sender.length = 32 →
      ((∀ known packet message, Disco.MadeBy B Computes known packet →
          d.parse B packet = some message → message.sender = sender →
          B.Knows known (B.publicKey d.privateKey) ∨ B.Knows known sender) ↔
        ¬lowOrder sender)) ∧
    (∀ (s : Session) (io : Inputs) (lib : Library) (turns : ℕ) (now : UInt32),
      ((∀ packet derpSource directSource derpConnection peer, isDiscoPacket packet →
          Disco.Forged B Computes s.disco packet →
          (after (processPacket B io lib turns now derpSource directSource derpConnection packet)
            s).connection.directEndpoint peer = s.connection.directEndpoint peer) ↔
        ¬s.Exposed lowOrder)) := by
  refine ⟨fun d sender hsn => ⟨fun h hlow => ?_, fun hlow known packet message hmd hpa
    hnm => ?_⟩, fun s io lib turns now => ⟨fun h hex => ?_, fun hex packet derpSource
    directSource derpConnection peer hpk hfr => ?_⟩⟩
  · have hkn := h ∅ _ _ (madeBy_zeroPing hB hsn ∅) (parse_zeroPing hB hsn hlow d) rfl
    exact hkn.elim (not_knows_empty B _) (not_knows_empty B _)
  · by_contra hkn
    rw [not_or] at hkn
    obtain ⟨-, hso, -⟩ := exists_of_parse hpa
    have hfr : Disco.Forged B Computes d packet :=
      ⟨known, hmd, hkn.1, by rw [← hso, hnm]; exact hkn.2⟩
    exact hlow (hnm ▸ lowOrder_of_forged hB hfr hpa)
  · obtain ⟨hcn, _, hlen, hlow, _, peer, hfd, hpr, had⟩ := hex
    have hpa := parse_zeroPing hB hlen hlow s.disco
    have hpk := (exists_of_parse hpa).1
    -- An endpoint that is not in use.
    obtain ⟨endpoint, het⟩ : ∃ endpoint : Endpoint,
        s.connection.directEndpoint peer.publicKey ≠ some endpoint := by
      by_cases hzero : s.connection.directEndpoint peer.publicKey = some { port := 0 }
      · exact ⟨{ port := 1 }, by rw [hzero]; decide⟩
      · exact ⟨{ port := 0 }, hzero⟩
    have hkp := h _ none (some endpoint) none peer.publicKey hpk (forged_zeroPing hB hlen s.disco)
    rw [after_processPacket hpk, directEndpoint_of_ping hcn hpa rfl hfd hpr had] at hkp
    exact het hkp.symm
  · rw [after_processPacket hpk]
    refine directEndpoint_processDiscoPacket (fun message i peer hcn hpa hfd hpr
      had => hex ⟨hcn, message.sender, ?_, ?_, i, peer, hfd, hpr, had⟩)
      io derpSource directSource derpConnection peer
    · obtain ⟨-, hso, -⟩ := exists_of_parse hpa
      exact hso ▸ length_senderOf hpk
    · exact lowOrder_of_forged hB hfr hpa

def listed (discoKey : String) : PeerConfig where
  key := "nodekey:" ++ .ofList (replicate 64 '7')
  discoKey := "discokey:" ++ discoKey
  online := true

def sessionWith (discoKey : String) : Session :=
  after (updatePeers plain [listed discoKey] "")
    { configured := true, disco := make boxes [1] [] }

def safeSession : Session := sessionWith ("05" ++ String.join (replicate 31 "01"))

theorem safeSession_authentic : ¬safeSession.Exposed SealedBoxes.Small.LowOrder ∧
      ∀ packet directSource peer, isDiscoPacket packet →
        Disco.Forged boxes SealedBoxes.Small.Computes safeSession.disco packet →
        (after (processPacket boxes {} plain 1 0 none directSource none packet)
          safeSession).connection.directEndpoint peer
            = safeSession.connection.directEndpoint peer := by
  have hsf : ¬safeSession.Exposed SealedBoxes.Small.LowOrder := by
    rintro ⟨-, _, -, hlow, _, -, hfd, -⟩
    have hky : safeSession.peers.map SessionPeer.discoKey = [some (5 :: rest)] := by decide +kernel
    have hkey := mem_of_findDiscoPeer hfd
    rw [hky, mem_singleton, Option.some.injEq] at hkey
    exact hlow (hkey ▸ rfl)
  have hat := (disco_authentic_iff ideal).2 safeSession {} plain 1 0
  exact ⟨hsf, fun packet directSource peer hpk hfr =>
    hat.mpr hsf packet none directSource none peer hpk hfr⟩

/-- **A peer that is listed under a key of zeros**: a ping that nobody needs a
key for moves its path to wherever the ping came from. -/
theorem zeroPing_moves_path : let s := sessionWith (.ofList (replicate 64 '0'))
    let packet := zeroPing boxes (replicate 32 0)
    let source : Endpoint := { address := 1, port := 2 }
    boxes.Ideal SealedBoxes.Small.LowOrder SealedBoxes.Small.Computes ∧
      Disco.Forged boxes SealedBoxes.Small.Computes s.disco packet ∧
      s.disco.parse boxes packet = some { type := .ping, sender := replicate 32 0 } ∧
      s.connection.directEndpoint (replicate 32 0x77) = none ∧
      (after (processPacket boxes {} plain 1 0 none (some source) none packet)
        s).connection.directEndpoint (replicate 32 0x77) = some source :=
  ⟨ideal, forged_zeroPing ideal rfl _, by decide +kernel, by decide +kernel, by decide +kernel⟩

end Session

end Tailgate
