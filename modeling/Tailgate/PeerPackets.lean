import Tailgate.BigEndian

/-!
# Packets of peers on the hosted stream

A packet for a peer, or from one, is its key, a byte of flags, a route and the packet
itself. The encoder writes an endpoint only if neither its address nor its port is zero.
The decoder does not ask for that, so it reads packets that the encoder would not write
(`decodePeerPacket_flagged`). All others are read and written alike.
-/

namespace Tailgate

open BigEndian

structure DerpRoute where
  token : UInt64
  region : UInt16
  deriving DecidableEq

structure PeerPacket where
  peer : Bytes
  payload : Bytes
  control : Bool := false
  disco : Bool := false
  endpointAddress : UInt32 := 0
  endpointPort : UInt16 := 0
  derpIngressRoute : Option DerpRoute := none
  /-- A key has 32 bytes. -/
  peer_length : peer.length = 32
  deriving DecidableEq

namespace PeerPacket

def hasEndpoint (p : PeerPacket) : Bool := p.endpointAddress != 0 && p.endpointPort != 0

def flags (control disco endpoint derpRoute : Bool) : UInt8 :=
  (if control then 1 else 0) ||| (if disco then 2 else 0) ||| (if endpoint then 4 else 0)
    ||| (if derpRoute then 8 else 0)

def route (p : PeerPacket) : Bytes :=
  if p.hasEndpoint then
    BigEndian.bytes 4 p.endpointAddress.toNat ++ BigEndian.bytes 2 p.endpointPort.toNat
  else
    match p.derpIngressRoute with
    | some derp => BigEndian.bytes 8 derp.token.toNat ++ BigEndian.bytes 2 derp.region.toNat
    | none => []

end PeerPacket

namespace ProtocolCodec

open PeerPacket List

def encodePeerPacket (p : PeerPacket) : Except String Bytes :=
  if p.payload = [] then
    .error "Relay peer packet has no payload."
  else if p.hasEndpoint && p.derpIngressRoute.isSome then
    .error "Relay peer packet has conflicting routes."
  else if p.derpIngressRoute.any fun derp => derp.token == 0 || derp.region == 0 then
    .error "Relay peer packet has an invalid DERP route."
  else
    .ok (p.peer ++ flags p.control p.disco p.hasEndpoint p.derpIngressRoute.isSome
      :: (p.route ++ p.payload))

def decodeRoute (packet : PeerPacket) (flags : UInt8) (rest : Bytes) :
    Except String PeerPacket :=
  if flags &&& ~~~(1 ||| 2 ||| 4 ||| 8) ≠ 0 then
    .error "Relay peer packet has unknown flags."
  else if flags &&& 4 ≠ 0 ∧ flags &&& 8 ≠ 0 then
    .error "Relay peer packet has conflicting routes."
  else if flags &&& 4 ≠ 0 then
    if rest.length ≤ 4 + 2 then
      .error "Relay peer packet endpoint is truncated."
    else
      .ok { packet with
        payload := rest.drop 6
        endpointAddress := .ofNat (value (rest.take 4))
        endpointPort := .ofNat (value ((rest.drop 4).take 2)) }
  else if flags &&& 8 ≠ 0 then
    if rest.length ≤ 8 + 2 then
      .error "Relay peer packet DERP route is truncated."
    else
      let token : UInt64 := .ofNat (value (rest.take 8))
      let region : UInt16 := .ofNat (value ((rest.drop 8).take 2))
      if token = 0 ∨ region = 0 then
        .error "Relay peer packet has an invalid DERP route."
      else
        .ok { packet with payload := rest.drop 10, derpIngressRoute := some ⟨token, region⟩ }
  else
    .ok { packet with payload := rest }

def decodePeerPacket (bs : Bytes) : Except String PeerPacket :=
  if hlength : bs.length ≤ 32 + 1 then
    .error "Relay peer packet is truncated."
  else
    let flags := bs.getD 32 0
    decodeRoute {
      peer := bs.take 32
      payload := []
      control := flags &&& 1 != 0
      disco := flags &&& 2 != 0
      peer_length := by rw [length_take]; omega } flags (bs.drop 33)

/-! ## What is read -/

inductive PacketRoute where
  | direct
  | endpoint (address : UInt32) (port : UInt16)
  | derp (route : DerpRoute)

namespace PacketRoute

def Sound : PacketRoute → Prop
  | derp route => route.token ≠ 0 ∧ route.region ≠ 0
  | _ => True

def bytes : PacketRoute → Bytes
  | direct => []
  | endpoint address port => BigEndian.bytes 4 address.toNat ++ BigEndian.bytes 2 port.toNat
  | derp route => BigEndian.bytes 8 route.token.toNat ++ BigEndian.bytes 2 route.region.toNat

def flags (control disco : Bool) : PacketRoute → UInt8
  | direct => PeerPacket.flags control disco false false
  | endpoint _ _ => PeerPacket.flags control disco true false
  | derp _ => PeerPacket.flags control disco false true

def packet (p : PeerPacket) : PacketRoute → PeerPacket
  | direct => { p with endpointAddress := 0, endpointPort := 0, derpIngressRoute := none }
  | endpoint address port =>
    { p with endpointAddress := address, endpointPort := port, derpIngressRoute := none }
  | derp route =>
    { p with endpointAddress := 0, endpointPort := 0, derpIngressRoute := some route }

def text (p : PeerPacket) (r : PacketRoute) : Bytes :=
  p.peer ++ r.flags p.control p.disco :: (r.bytes ++ p.payload)

end PacketRoute

open PacketRoute

theorem bits_flags (c d e r : Bool) (x : UInt8) (h : x = PeerPacket.flags c d e r) :
    x &&& ~~~(1 ||| 2 ||| 4 ||| 8) = 0 ∧ (x &&& 4 ≠ 0 ↔ e = true) ∧ (x &&& 8 ≠ 0 ↔ r = true)
      ∧ (x &&& 1 != 0) = c ∧ (x &&& 2 != 0) = d := by
  subst h
  revert c d e r
  decide

variable {x : UInt8} {bs : Bytes}

theorem eq_flags (h : x &&& ~~~(1 ||| 2 ||| 4 ||| 8) = 0) :
    x = PeerPacket.flags (x &&& 1 != 0) (x &&& 2 != 0) (x &&& 4 != 0) (x &&& 8 != 0) := by
  have hall : ∀ n : Fin 256, UInt8.ofFin n &&& ~~~(1 ||| 2 ||| 4 ||| 8) = 0 → UInt8.ofFin n
      = PeerPacket.flags (UInt8.ofFin n &&& 1 != 0) (UInt8.ofFin n &&& 2 != 0)
        (UInt8.ofFin n &&& 4 != 0) (UInt8.ofFin n &&& 8 != 0) := by
    decide +kernel
  exact hall x.toFin h

theorem decodePeerPacket_parts {peer rest : Bytes} (hpr : peer.length = 32)
    (hrs : rest ≠ []) : decodePeerPacket (peer ++ x :: rest)
      = decodeRoute ⟨peer, [], x &&& 1 != 0, x &&& 2 != 0, 0, 0, none, hpr⟩ x rest := by
  have hpos := length_pos_of_ne_nil hrs
  have hlen : ¬(peer ++ x :: rest).length ≤ 32 + 1 := by
    rw [length_append, length_cons]
    omega
  have hx : (peer ++ x :: rest).getD 32 0 = x := by
    simp [getD_eq_getElem?_getD, hpr]
  have hdr : (peer ++ x :: rest).drop 33 = rest := by
    simp [drop_append, drop_of_length_le, hpr]
  simp only [decodePeerPacket, dif_neg hlen, hx, hdr, take_left' hpr]

theorem fields_append {a b : Bytes} (c : Bytes) {k l : ℕ} (ha : a.length = k)
    (hb : b.length = l) : (a ++ b ++ c).take k = a ∧ ((a ++ b ++ c).drop k).take l = b
      ∧ (a ++ b ++ c).drop (k + l) = c ∧ (a ++ b ++ c).length = k + l + c.length := by
  have hab : (a ++ b).length = k + l := by rw [length_append, ha, hb]
  refine ⟨?_, ?_, drop_left' hab, by rw [length_append, hab]⟩
  · rw [append_assoc, take_left' ha]
  · rw [append_assoc, drop_left' ha, take_left' hb]

variable {p : PeerPacket} {r : PacketRoute}

/-- **What is written of a packet and a route** is read, whatever the route is. -/
theorem decode_text (hpy : p.payload ≠ [])
    (hr : r.Sound) : decodePeerPacket (r.text p) = .ok (r.packet p) := by
  have hpos := length_pos_of_ne_nil hpy
  rw [text, decodePeerPacket_parts p.peer_length (append_ne_nil_of_right_ne_nil _ hpy)]
  cases r with
  | direct =>
    obtain ⟨hkn, he, hd, hc, hds⟩ := bits_flags p.control p.disco false false _ rfl
    simp only [decodeRoute, PacketRoute.flags, hkn, he, hd, hc, hds]
    rfl
  | endpoint address port =>
    obtain ⟨hkn, he, hd, hc, hds⟩ := bits_flags p.control p.disco true false _ rfl
    obtain ⟨had, hpr, hrs, _⟩ := fields_append p.payload
      (length_bytes 4 address.toNat) (length_bytes 2 port.toNat)
    rw [decodeRoute, PacketRoute.flags, if_neg (not_not.mpr hkn), if_neg (by simp [hd]),
      if_pos (he.mpr rfl), PacketRoute.bytes, if_neg (by omega), had, hpr, hrs,
      value_uint32, value_uint16, hc, hds]
    rfl
  | derp route =>
    obtain ⟨hkn, he, hd, hc, hds⟩ := bits_flags p.control p.disco false true _ rfl
    obtain ⟨htk, hrg, hrs, _⟩ := fields_append p.payload
      (length_bytes 8 route.token.toNat) (length_bytes 2 route.region.toNat)
    rw [decodeRoute, PacketRoute.flags, if_neg (not_not.mpr hkn), if_neg (by simp [he]),
      if_neg (by simp [he]), if_pos (hd.mpr rfl), PacketRoute.bytes, if_neg (by omega), htk,
      hrg, hrs, value_uint64, value_uint16, hc, hds]
    exact if_neg (not_or.mpr hr)

/-- **What is read** is written of the packet and a route. -/
theorem exists_text (h : decodePeerPacket bs = .ok p) :
    ∃ r : PacketRoute, r.Sound ∧ p.payload ≠ [] ∧ p = r.packet p ∧ bs = r.text p := by
  have hlen : 33 < bs.length := by
    by_contra hsh
    rw [decodePeerPacket, dif_pos (not_lt.mp hsh)] at h
    cases h
  obtain ⟨peer, _, rest, rfl, hpe, hrs⟩ : ∃ peer x rest, bs = peer ++ x :: rest
      ∧ peer.length = 32 ∧ rest ≠ [] := by
    refine ⟨bs.take 32, bs[32], bs.drop 33, ?_, ?_, ?_⟩
    · rw [← drop_eq_getElem_cons, take_append_drop]
    · rw [length_take]
      omega
    · rw [ne_nil_iff_length_pos, length_drop]
      omega
  rw [decodePeerPacket_parts hpe hrs] at h
  have hpr (k l : ℕ) (hln : ¬rest.length ≤ k + l) : (rest.take k).length = k
      ∧ ((rest.drop k).take l).length = l ∧ rest.drop (k + l) ≠ []
      ∧ rest.take k ++ (rest.drop k).take l ++ rest.drop (k + l) = rest := by
    rw [ne_nil_iff_length_pos, length_take, length_take, length_drop,
      length_drop, ← drop_drop, append_assoc, take_append_drop,
      take_append_drop]
    exact ⟨by omega, by omega, by omega, rfl⟩
  unfold decodeRoute at h
  dsimp only at h
  split_ifs at h with hun hbt het hsh hdr hsh hzero
  · have hx := eq_flags (not_not.mp hun)
    rw [bne_iff_ne.mpr het, not_not.mp (not_and.mp hbt het)] at hx
    obtain ⟨had, hpo, hpy, hall⟩ := hpr 4 2 hsh
    cases h
    refine ⟨.endpoint _ _, trivial, hpy, rfl, ?_⟩
    rw [text, PacketRoute.bytes, bytes_uint32 had, bytes_uint16 hpo, hall]
    exact congrArg (peer ++ · :: rest) hx
  · have hx := eq_flags (not_not.mp hun)
    rw [not_not.mp het, bne_iff_ne.mpr hdr] at hx
    obtain ⟨htk, hrg, hpy, hall⟩ := hpr 8 2 hsh
    cases h
    refine ⟨.derp _, not_or.mp hzero, hpy, rfl, ?_⟩
    rw [text, PacketRoute.bytes, bytes_uint64 htk, bytes_uint16 hrg, hall]
    exact congrArg (peer ++ · :: rest) hx
  · have hx := eq_flags (not_not.mp hun)
    rw [not_not.mp het, not_not.mp hdr] at hx
    cases h
    refine ⟨.direct, trivial, hrs, rfl, ?_⟩
    exact congrArg (peer ++ · :: rest) hx

/-! ## What is written -/

def routeOf (p : PeerPacket) : PacketRoute :=
  if p.hasEndpoint then
    .endpoint p.endpointAddress p.endpointPort
  else
    match p.derpIngressRoute with
    | some route => .derp route
    | none => .direct

theorem text_routeOf (h : ¬(p.hasEndpoint && p.derpIngressRoute.isSome) = true) :
    (routeOf p).text p = p.peer ++ PeerPacket.flags p.control p.disco p.hasEndpoint
        p.derpIngressRoute.isSome :: (p.route ++ p.payload)
      ∧ ((routeOf p).Sound ↔
        ¬p.derpIngressRoute.any (fun derp => derp.token == 0 || derp.region == 0) = true) := by
  unfold routeOf text PeerPacket.route
  cases het : p.hasEndpoint with
  | true =>
    rw [het, Bool.true_and, Option.not_isSome_iff_eq_none] at h
    rw [h]
    exact ⟨rfl, by simp [Sound]⟩
  | false =>
    cases hdr : p.derpIngressRoute with
    | none | some => exact ⟨rfl, by simp [Sound]⟩

theorem encodePeerPacket_eq_ok : encodePeerPacket p = .ok bs ↔ p.payload ≠ []
      ∧ ¬(p.hasEndpoint && p.derpIngressRoute.isSome) = true
      ∧ (routeOf p).Sound ∧ (routeOf p).text p = bs := by
  unfold encodePeerPacket
  split_ifs with hpy hcn hzero
  · exact iff_of_false nofun fun h => h.1 hpy
  · exact iff_of_false nofun fun h => h.2.1 hcn
  · exact iff_of_false nofun fun h => (text_routeOf hcn).2.mp h.2.2.1 hzero
  · obtain ⟨htx, hsn⟩ := text_routeOf hcn
    rw [← htx, Except.ok.injEq]
    exact ⟨fun h => ⟨hpy, hcn, hsn.mpr hzero, h⟩, fun h => h.2.2.2⟩

/-- A packet has the route that is written, unless it has half an endpoint. -/
theorem packet_routeOf (hcn : ¬(p.hasEndpoint && p.derpIngressRoute.isSome) = true)
    (hwh : p.endpointAddress = 0 ↔ p.endpointPort = 0) : (routeOf p).packet p = p := by
  unfold routeOf
  cases het : p.hasEndpoint with
  | true =>
    rw [het, Bool.true_and, Option.not_isSome_iff_eq_none] at hcn
    obtain ⟨⟩ := p
    obtain rfl := hcn
    rfl
  | false =>
    have had : p.endpointAddress = 0 := by
      by_contra hne
      rw [hasEndpoint, bne_iff_ne.mpr hne, Bool.true_and, bne_eq_false_iff_eq] at het
      exact hne (hwh.mpr het)
    obtain ⟨_, _, _, _, _, _, rt, _⟩ := p
    obtain rfl := had
    obtain rfl := hwh.mp rfl
    cases rt <;> rfl

theorem text_flag :
    (r.text p).getD 32 0 &&& 4 ≠ 0 ↔ ∃ address port, r = .endpoint address port := by
  have hx : (r.text p).getD 32 0 = r.flags p.control p.disco := by
    simp [text, getD_eq_getElem?_getD, p.peer_length]
  rw [hx]
  cases r with
  | direct | derp => exact iff_of_false (fun h => nomatch (bits_flags _ _ _ _ _ rfl).2.1.mp h) nofun
  | endpoint => exact iff_of_true ((bits_flags _ _ _ _ _ rfl).2.1.mpr rfl) ⟨_, _, rfl⟩

/-- Where the endpoint of a packet is written. -/
theorem text_endpoint (p : PeerPacket) (address : UInt32) (port : UInt16) :
    BigEndian.value ((((PacketRoute.endpoint address port).text p).drop 33).take 4)
        = address.toNat ∧
      BigEndian.value ((((PacketRoute.endpoint address port).text p).drop 37).take 2)
        = port.toNat := by
  have hx (n : ℕ) : ((PacketRoute.endpoint address port).text p).drop (33 + n)
      = (BigEndian.bytes 4 address.toNat ++ BigEndian.bytes 2 port.toNat ++ p.payload).drop n := by
    rw [text, show 33 + n = p.peer.length + (n + 1) by rw [p.peer_length]; omega,
      drop_length_add_append, append_assoc]
    rfl
  refine ⟨?_, ?_⟩
  · rw [hx 0, drop_zero, append_assoc, take_left' (BigEndian.length_bytes 4 _)]
    exact BigEndian.value_bytes address.toNat_lt
  · rw [hx 4, append_assoc, drop_left' (BigEndian.length_bytes 4 _),
      take_left' (BigEndian.length_bytes 2 _)]
    exact BigEndian.value_bytes port.toNat_lt

/-- The route of a packet is written, if neither the address nor the port of an endpoint is
zero. -/
theorem routeOf_packet (h : p = r.packet p)
    (hr : ∀ address port, r = .endpoint address port → address ≠ 0 ∧ port ≠ 0) :
    routeOf p = r ∧ ¬(p.hasEndpoint && p.derpIngressRoute.isSome) = true := by
  have had := congrArg endpointAddress h
  have hpr := congrArg endpointPort h
  have hdr := congrArg derpIngressRoute h
  unfold routeOf hasEndpoint
  cases r with
  | direct | derp =>
    rw [had, hpr, hdr]
    exact ⟨rfl, nofun⟩
  | endpoint address port =>
    obtain ⟨ha, hp⟩ := hr address port rfl
    rw [had, hpr, hdr]
    simp [packet, ha, hp]

/-- **The codec of packets of peers.** A packet that is written is read as it was, if its
address is zero just when its port is. What is read is written as it was just when it has
no endpoint or neither the four bytes of its address nor the two of its port are zero. -/
theorem peerPacket_codec (p : PeerPacket) (bs : Bytes) :
    (encodePeerPacket p = .ok bs → (p.endpointAddress = 0 ↔ p.endpointPort = 0) →
      decodePeerPacket bs = .ok p)
    ∧ (decodePeerPacket bs = .ok p → (encodePeerPacket p = .ok bs ↔
      (bs.getD 32 0 &&& 4 ≠ 0 →
        BigEndian.value ((bs.drop 33).take 4) ≠ 0 ∧
          BigEndian.value ((bs.drop 37).take 2) ≠ 0))) := by
  refine ⟨fun h hwh => ?_, fun h => ?_⟩
  · obtain ⟨hpy, hcn, hsn, rfl⟩ := encodePeerPacket_eq_ok.mp h
    rw [decode_text hpy hsn, packet_routeOf hcn hwh]
  · obtain ⟨r, hsn, hpy, hp, rfl⟩ := exists_text h
    rw [encodePeerPacket_eq_ok, text_flag]
    constructor
    · rintro ⟨-, -, -, htx⟩ ⟨addr, port, rfl⟩
      obtain ⟨had, hpr⟩ := text_endpoint p addr port
      rw [had, hpr]
      -- the route that is written has an endpoint, so the packet has
      have hfl := (text_flag (p := p)).mpr ⟨addr, port, rfl⟩
      rw [← htx, text_flag] at hfl
      obtain ⟨_, _, hrt⟩ := hfl
      unfold routeOf at hrt
      split at hrt
      · rename_i het
        rw [hp] at het
        simpa [hasEndpoint, packet, ← UInt32.toNat_inj, ← UInt16.toNat_inj] using het
      · split at hrt <;> cases hrt
    · intro hfl
      obtain ⟨hrt, hcn⟩ := routeOf_packet hp fun addr port hr => by
        obtain ⟨had, hpr⟩ := hfl ⟨addr, port, hr⟩
        rw [hr, (text_endpoint p addr port).1] at had
        rw [hr, (text_endpoint p addr port).2] at hpr
        exact ⟨fun hz => had (hz ▸ rfl), fun hz => hpr (hz ▸ rfl)⟩
      rw [hrt]
      exact ⟨hpy, hcn, hsn, rfl⟩

def flagged : Bytes := replicate 32 7 ++ [4, 0, 0, 0, 0, 0, 0, 1]

/-- **An endpoint of zeros is read**, and the packet is written without one. -/
theorem decodePeerPacket_flagged :
    ∃ p, decodePeerPacket flagged = .ok p ∧ encodePeerPacket p ≠ .ok flagged
      ∧ encodePeerPacket p = .ok (replicate 32 7 ++ [0, 1]) :=
  ⟨⟨replicate 32 7, [1], false, false, 0, 0, none, rfl⟩, by decide +kernel⟩

end ProtocolCodec

end Tailgate
