import Tailgate.FreeSearch
import Tailgate.Ipv4Packets
import Tailgate.PeerPaths
import Tailgate.ResolverSelection
import Tailgate.RouterRoutes
import Tailgate.TransitionSystem

/-!
# Forwarding queries to a resolver

The queries of clients go to a resolver, directly or through the tunnel, under
an identifier that the forwarder chooses. A response under that identifier, from
that resolver and on that path, is given to the client under its own. The numbers
of the queries, `begun` and `answers` are not in the program.
-/

namespace Tailgate

open List

/-- A query that waits for its response. -/
structure PendingQuery where
  client : Endpoint
  self : ℕ
  resolver : ℕ
  originalId : UInt16
  wireId : UInt16
  tunneled : Bool
  started : ℕ
  number : ℕ
  deriving DecidableEq

inductive DnsForwardStatus where
  | ready
  | invalidQuery
  | unsupportedResolver
  | full
  deriving DecidableEq

structure DnsReply where
  client : Endpoint
  payload : Bytes
  deriving DecidableEq

structure DnsForward where
  status : DnsForwardStatus := .invalidQuery
  resolver : Endpoint := {}
  payload : Bytes := []
  /-- The message as a packet, if it goes through the tunnel. -/
  tunnelPacket : Option Bytes := none
  deriving DecidableEq

inductive DnsResponse where
  | packet (datagram : Ipv4UdpDatagram)
  | datagram (source : Endpoint) (payload : Bytes)
  deriving DecidableEq

namespace DnsResponse

def payload : DnsResponse → Bytes
  | .packet udp => udp.payload
  | .datagram _ payload => payload

def source : DnsResponse → Endpoint
  | .packet udp => { address := udp.source, port := udp.sourcePort }
  | .datagram source _ => source

def tunneled : DnsResponse → Bool
  | .packet _ => true
  | .datagram _ _ => false

end DnsResponse

structure DnsAnswered where
  number : ℕ
  response : DnsResponse
  reply : DnsReply
  deriving DecidableEq

/-- **The forwarder.** -/
structure DnsForwarder where
  pending : List PendingQuery := []
  wireIds : Finset UInt16 := ∅
  /-- The queries that were sent, in the order of their numbers. The program
  does not keep this. -/
  begun : List PendingQuery := []
  /-- What has been answered. The program does not keep this. -/
  answers : List DnsAnswered := []
  deriving DecidableEq

namespace DnsForwarder

open PendingQuery

def pendingTimeout : ℕ := 10 * nanoseconds

def maximumPending : ℕ := 4096

def idSize : ℕ := 2

def dnsPort : ℕ := 53

def magicDnsIpv4Address : ℕ := Ipv4Address.ofOctets [100, 100, 100, 100]

def idOf (payload : Bytes) : UInt16 := UInt16.ofNat (read16 payload 0)

def setId (payload : Bytes) (id : UInt16) : Bytes :=
  BigEndian.bytes 2 id.toNat ++ payload.drop 2

def erase (gone : PendingQuery → Bool) (s : DnsForwarder) : DnsForwarder :=
  { s with
    pending := s.pending.filter fun query => !gone query
    wireIds := (s.pending.filter gone).foldl (fun ids query => ids.erase query.wireId) s.wireIds }

def expire (now : ℕ) (s : DnsForwarder) : DnsForwarder :=
  s.erase fun query => decide (query.started + pendingTimeout ≤ now)

def route (payload : Bytes) (network : NetworkConfig) (originalResolvers : List String) :
    Option (ℕ × ℕ) := do
  let defaults :=
    if network.dnsDefaultResolvers = [] then originalResolvers else network.dnsDefaultResolvers
  let selected ← ResolverSelection.selectResolver payload network.dnsResolver network.dnsRoutes
    defaults
  let resolver ← Ipv4Address.tryParse selected.address
  let self ← Ipv4Address.tryParse network.selfAddress
  some (resolver, self)

variable (client : Endpoint) (payload : Bytes)

def sendQuery (policy : NetworkPolicy)
    (resolver self : ℕ) (now : ℕ) (wireId : UInt16) (s : DnsForwarder) :
    DnsForward × DnsForwarder :=
  let forwarded := setId payload wireId
  let tunneled := resolver == magicDnsIpv4Address ||
    (policy.network.findRoute resolver policy.exitPeer).isSome
  let query : PendingQuery := {
    client, self, resolver, wireId, tunneled
    originalId := idOf payload
    started := now
    number := s.begun.length }
  ({ status := .ready
     resolver := { address := resolver, port := dnsPort }
     payload := forwarded
     tunnelPacket :=
      if tunneled then
        some (Ipv4UdpDatagram.build self resolver client.port dnsPort forwarded)
      else
        none },
    { s with
      pending := s.pending ++ [query]
      wireIds := insert wireId s.wireIds
      begun := s.begun ++ [query] })

/-- Forget the queries that have waited for too long, and those of the same
client under the same identifier. -/
def makeRoom (now : ℕ) (s : DnsForwarder) : DnsForwarder :=
  (s.expire now).erase fun query => query.client == client && query.originalId == idOf payload

/-- **Forward a query.** The search for an identifier starts at a random one
and goes through all of them; if it ended nowhere, it would not end. -/
def begin (policy : NetworkPolicy)
    (originalResolvers : List String) (now : ℕ) (randomId : UInt16) (s : DnsForwarder) :
    Option (DnsForward × DnsForwarder) :=
  if payload.length < idSize then
    some ({}, s)
  else
    match route payload policy.network originalResolvers with
    | none => some ({ status := .unsupportedResolver }, s)
    | some (resolver, self) =>
      let s := s.makeRoom client payload now
      if maximumPending ≤ s.pending.length then
        some ({ status := .full }, s)
      else
        (FreeSearch.search (· + 1) s.wireIds (2 ^ 16) randomId).map fun wireId =>
          s.sendQuery client payload policy resolver self now wireId

/-- Whether a response is the one a query waits for: it comes from the
resolver, on the path and under the identifier of the query. -/
def answers? (query : PendingQuery) : DnsResponse → Bool
  | .packet datagram =>
    query.tunneled && query.resolver == datagram.source && query.self == datagram.destination &&
      query.client.port == datagram.destinationPort && query.wireId == idOf datagram.payload
  | .datagram source payload =>
    !query.tunneled && query.resolver == source.address && query.wireId == idOf payload

def finish (response : DnsResponse) (s : DnsForwarder) : Option DnsReply × DnsForwarder :=
  match s.pending.find? fun query => answers? query response with
  | none => (none, s)
  | some query =>
    let reply : DnsReply :=
      { client := query.client, payload := setId response.payload query.originalId }
    (some reply,
      { s with
        pending := s.pending.erase query
        wireIds := s.wireIds.erase query.wireId
        answers := s.answers ++ [{ number := query.number, response, reply }] })

/-- **A packet from the tunnel.** -/
def completePacket (packet : Bytes) (s : DnsForwarder) : Option DnsReply × DnsForwarder :=
  match Ipv4UdpDatagram.parse packet with
  | none => (none, s)
  | some datagram =>
    if datagram.sourcePort ≠ dnsPort ∨ datagram.payload.length < idSize then (none, s)
    else s.finish (.packet datagram)

/-- **A datagram.** -/
def completeDatagram (source : Endpoint) (payload : Bytes) (s : DnsForwarder) :
    Option DnsReply × DnsForwarder :=
  if source.port ≠ dnsPort ∨ payload.length < idSize then (none, s)
  else s.finish (.datagram source payload)

def reset (s : DnsForwarder) : DnsForwarder := { s with pending := [], wireIds := ∅ }

def nextDeadline (s : DnsForwarder) : Option ℕ :=
  ((s.pending.map started).min?).map (· + pendingTimeout)

/-! ## Runs -/

inductive Call where
  | begin (client : Endpoint) (payload : Bytes) (policy : NetworkPolicy)
      (originalResolvers : List String) (now : ℕ) (randomId : UInt16)
  | completePacket (packet : Bytes)
  | completeDatagram (source : Endpoint) (payload : Bytes)
  | expire (now : ℕ)
  | reset

def Call.run (s : DnsForwarder) : Call → Option DnsForwarder
  | .begin client payload policy originalResolvers now randomId =>
    (s.begin client payload policy originalResolvers now randomId).map Prod.snd
  | .completePacket packet => some (s.completePacket packet).2
  | .completeDatagram source payload => some (s.completeDatagram source payload).2
  | .expire now => some (s.expire now)
  | .reset => some s.reset

/-- **The forwarder and the calls of its methods.** -/
def calls : TransitionSystem DnsForwarder Call where
  init s := s = {}
  step s call s' := call.run s = some s'

/-- **A response was given out for a query as it should be.** -/
structure Answered (query : PendingQuery) (answer : DnsAnswered) : Prop where
  /-- It came from the resolver of the query. -/
  resolver : answer.response.source = { address := query.resolver, port := dnsPort }
  /-- It came on the path of the query. -/
  path : answer.response.tunneled = query.tunneled
  /-- It came under the identifier of the query. -/
  wireId : idOf answer.response.payload = query.wireId
  /-- The client of the query got it. -/
  client : answer.reply.client = query.client
  /-- The client got it under the client's own identifier. -/
  originalId : idOf answer.reply.payload = query.originalId

/-- **A query was sent**, and the forwarder knows how. -/
structure Sent (client : Endpoint) (payload : Bytes) (forward : DnsForward)
    (query : PendingQuery) : Prop where
  client : query.client = client
  /-- The client has chosen the identifier of the message. -/
  originalId : query.originalId = idOf payload
  resolver : forward.resolver = { address := query.resolver, port := dnsPort }
  path : query.tunneled = forward.tunnelPacket.isSome
  wireId : forward.payload = setId payload query.wireId

/-- **What is true between the calls.** -/
structure Tracked (s : DnsForwarder) : Prop where
  /-- No two queries wait under one identifier. -/
  distinct : (s.pending.map wireId).Nodup
  /-- The identifiers that are taken are those of the queries that wait. -/
  taken : s.wireIds = (s.pending.map wireId).toFinset
  /-- There are not too many queries. -/
  bounded : s.pending.length ≤ maximumPending
  sent : ∀ query ∈ s.pending, s.begun[query.number]? = some query
  /-- A query waits once or was answered once. -/
  once : (s.pending.map number ++ s.answers.map DnsAnswered.number).Nodup
  /-- Every response was given out for a query. -/
  answered : ∀ answer ∈ s.answers, ∃ query, s.begun[answer.number]? = some query ∧
    Answered query answer

/-! ## Forgetting -/

theorem foldl_erase (queries : List PendingQuery) (ids : Finset UInt16) :
    queries.foldl (fun ids qry => ids.erase qry.wireId) ids
      = ids \ (queries.map wireId).toFinset := by
  induction queries generalizing ids with
  | nil => simp
  | cons _ _ ih =>
    rw [foldl_cons, ih]
    ext id
    simp only [map_cons, toFinset_cons, Finset.mem_sdiff, Finset.mem_erase, Finset.mem_insert]
    tauto

/-- Where identifiers are distinct, those of the queries that are forgotten are
not those of the queries that stay. -/
theorem toFinset_filter {queries : List PendingQuery}
    (h : (queries.map wireId).Nodup) (gone : PendingQuery → Bool) :
    (queries.map wireId).toFinset \ ((queries.filter gone).map wireId).toFinset
      = ((queries.filter fun qry => !gone qry).map wireId).toFinset := by
  have hinj := inj_on_of_nodup_map h
  ext id
  simp only [Finset.mem_sdiff, mem_toFinset, mem_map, mem_filter, Bool.not_eq_true',
    not_exists, not_and, and_imp]
  constructor
  · rintro ⟨⟨qry, hqr, rfl⟩, hss⟩
    refine ⟨qry, ⟨hqr, ?_⟩, rfl⟩
    cases hgn : gone qry with
    | false => rfl
    | true => exact absurd rfl (hss qry hqr hgn)
  · rintro ⟨qry, ⟨hqr, hss⟩, rfl⟩
    refine ⟨⟨qry, hqr, rfl⟩, fun other hot hgn heq => ?_⟩
    rw [hinj hot hqr heq, hss] at hgn
    cases hgn

variable {client payload} {s s' : DnsForwarder} {policy : NetworkPolicy}
  {originalResolvers : List String} {now : ℕ} {randomId : UInt16} {forward : DnsForward}
  {response : DnsResponse} {reply : DnsReply}

/-- **Forgetting queries keeps everything.** -/
theorem Tracked.erase (h : s.Tracked) (gone : PendingQuery → Bool) : (s.erase gone).Tracked where
  distinct := h.distinct.sublist (filter_sublist.map _)
  taken := by
    show foldl _ _ _ = _
    rw [foldl_erase, h.taken]
    exact toFinset_filter h.distinct gone
  bounded := (length_filter_le _ _).trans h.bounded
  sent query hqr := h.sent query (mem_of_mem_filter hqr)
  once := h.once.sublist ((filter_sublist.map _).append_right _)
  answered := h.answered

theorem Tracked.expire (h : s.Tracked) (now : ℕ) : (s.expire now).Tracked :=
  h.erase _

theorem Tracked.makeRoom (h : s.Tracked) (client : Endpoint)
    (payload : Bytes) (now : ℕ) : (s.makeRoom client payload now).Tracked :=
  (h.expire now).erase _

theorem Tracked.reset (h : s.Tracked) : s.reset.Tracked where
  distinct := nodup_nil
  taken := rfl
  bounded := Nat.zero_le _
  sent := nofun
  once := h.once.sublist (sublist_append_right _ _)
  answered := h.answered

/-- **After the late queries have been forgotten, the next deadline is in the
future.** -/
theorem lt_nextDeadline (s : DnsForwarder) (now : ℕ) {deadline : ℕ}
    (h : (s.expire now).nextDeadline = some deadline) : now < deadline := by
  obtain ⟨_, hmin, rfl⟩ := Option.map_eq_some_iff.mp h
  obtain ⟨_, hqr, rfl⟩ := mem_map.mp (min?_mem hmin)
  have hss := (mem_filter.mp hqr).2
  simp only [Bool.not_eq_true', decide_eq_false_iff_not, not_le] at hss
  exact hss

/-! ## Sending -/

theorem iterate_succ_injOn (id : UInt16) :
    Set.InjOn (fun i => (fun id : UInt16 => id + 1)^[i] id) (Set.Iio (2 ^ 16)) := by
  have hit : ∀ i, (fun id : UInt16 => id + 1)^[i] id = id + UInt16.ofNat i := by
    intro i
    induction i with
    | zero => simp
    | succ _ ih =>
      rw [Function.iterate_succ_apply', ih, UInt16.ofNat_add, ← UInt16.add_assoc]
      rfl
  intro i hi j hj heq
  simp only [hit, UInt16.add_right_inj] at heq
  have hi' : i < 2 ^ 16 := hi
  have hj' : j < 2 ^ 16 := hj
  have hnat := congrArg UInt16.toNat heq
  simp only [UInt16.toNat_ofNat'] at hnat
  omega

/-- **The search for an identifier ends.** -/
theorem Tracked.exists_search (h : s.Tracked) (randomId : UInt16) :
    ∃ wireId, FreeSearch.search (· + 1) s.wireIds (2 ^ 16) randomId = some wireId := by
  refine FreeSearch.exists_search (iterate_succ_injOn randomId) ?_
  have hcr : s.wireIds.card ≤ s.pending.length := by
    rw [h.taken]
    exact (toFinset_card_le _).trans_eq (length_map _)
  have hbd := h.bounded
  unfold maximumPending at hbd
  omega

theorem Tracked.begin_isSome (h : s.Tracked) (client : Endpoint)
    (payload : Bytes) (policy : NetworkPolicy) (originalResolvers : List String) (now : ℕ)
    (randomId : UInt16) :
    (s.begin client payload policy originalResolvers now randomId).isSome := by
  unfold DnsForwarder.begin
  split
  · rfl
  · split
    · rfl
    · dsimp only
      split
      · rfl
      · obtain ⟨_, hsr⟩ := (h.makeRoom client payload now).exists_search randomId
        rw [hsr]
        rfl

/-- **Sending a query under an identifier that is not taken keeps
everything.** -/
theorem Tracked.sendQuery (h : s.Tracked)
    (hrm : s.pending.length < maximumPending) {wid : UInt16} (hfr : wid ∉ s.wireIds)
    (client : Endpoint) (payload : Bytes) (policy : NetworkPolicy) (res self now : ℕ) :
    (s.sendQuery client payload policy res self now wid).2.Tracked := by
  have hnm : ∀ qry ∈ s.pending, qry.number < s.begun.length :=
    fun qry hqr => (List.getElem?_eq_some_iff.mp (h.sent qry hqr)).1
  have han : ∀ ans ∈ s.answers, ans.number < s.begun.length := by
    intro ans han
    obtain ⟨_, hqr, -⟩ := h.answered ans han
    exact (List.getElem?_eq_some_iff.mp hqr).1
  unfold DnsForwarder.sendQuery
  refine ⟨?_, ?_, ?_, ?_, ?_, ?_⟩
  · simp only [map_append, map_cons, map_nil]
    refine h.distinct.append (nodup_singleton _) ?_
    rw [h.taken, mem_toFinset] at hfr
    simpa using hfr
  · simp only [map_append, map_cons, map_nil, toFinset_append, toFinset_cons, toFinset_nil, h.taken]
    ext id
    simp
  · simp only [length_append, length_singleton]
    omega
  · intro qry hqr
    obtain hqr | hqr := mem_append.mp hqr
    · exact List.getElem?_append_left (hnm qry hqr) ▸ h.sent qry hqr
    · obtain rfl := mem_singleton.mp hqr
      exact List.getElem?_concat_length
  · simp only [map_append, map_cons, map_nil, append_assoc, singleton_append]
    refine nodup_middle.mpr (nodup_cons.mpr ⟨fun hmem => ?_, h.once⟩)
    obtain hmem | hmem := mem_append.mp hmem
    · obtain ⟨qry, hqr, heq⟩ := mem_map.mp hmem
      exact (hnm qry hqr).ne heq
    · obtain ⟨ans, han', heq⟩ := mem_map.mp hmem
      exact (han ans han').ne heq
  · intro ans han'
    obtain ⟨qry, hqr, hrg⟩ := h.answered ans han'
    exact ⟨qry, List.getElem?_append_left (han ans han') ▸ hqr, hrg⟩

/-- **What forwarding a query can do.** -/
theorem begin_cases
    (hbg : s.begin client payload policy originalResolvers now randomId = some (forward, s')) :
    (forward.status ≠ .ready ∧ (s' = s ∨ s' = s.makeRoom client payload now)) ∨
      ∃ res self wid, (s.makeRoom client payload now).pending.length < maximumPending ∧
        wid ∉ (s.makeRoom client payload now).wireIds ∧
        (s.makeRoom client payload now).sendQuery client payload policy res self now wid
          = (forward, s') := by
  unfold DnsForwarder.begin at hbg
  split at hbg
  · cases hbg
    exact .inl ⟨nofun, .inl rfl⟩
  · split at hbg
    · cases hbg
      exact .inl ⟨nofun, .inl rfl⟩
    · rename_i res self hrt
      dsimp only at hbg
      split at hbg
      · cases hbg
        exact .inl ⟨nofun, .inr rfl⟩
      · rename_i hrm
        obtain ⟨wid, hsr, hsend⟩ := Option.map_eq_some_iff.mp hbg
        exact .inr ⟨res, self, wid, not_le.mp hrm, FreeSearch.notMem_of_search hsr, hsend⟩

theorem Tracked.begin (h : s.Tracked)
    (hbg : s.begin client payload policy originalResolvers now randomId = some (forward, s')) :
    s'.Tracked := by
  have hrm := h.makeRoom client payload now
  obtain ⟨-, rfl | rfl⟩ | ⟨res, self, _, hlt, hfr, hsend⟩ := begin_cases hbg
  · exact h
  · exact hrm
  · have hsn := hrm.sendQuery hlt hfr client payload policy res self now
    rwa [hsend] at hsn

theorem sent_sendQuery (s : DnsForwarder) (client : Endpoint) (payload : Bytes)
    (policy : NetworkPolicy) (resolver self now : ℕ) (wireId : UInt16) :
    ∃ query,
      (s.sendQuery client payload policy resolver self now wireId).2.begun = s.begun ++ [query] ∧
      Sent client payload (s.sendQuery client payload policy resolver self now wireId).1 query := by
  refine ⟨_, rfl, rfl, rfl, rfl, ?_, rfl⟩
  unfold sendQuery
  dsimp only
  split
  · rename_i htn
    exact htn
  · rename_i htn
    exact Bool.eq_false_iff.mpr htn

/-- **Only the queries that are to be sent get a number.** -/
theorem begun_begin
    (hbg : s.begin client payload policy originalResolvers now randomId = some (forward, s')) :
    (forward.status = .ready ∧
        ∃ query, s'.begun = s.begun ++ [query] ∧ Sent client payload forward query) ∨
      (forward.status ≠ .ready ∧ s'.begun = s.begun) := by
  obtain ⟨hss, rfl | rfl⟩ | ⟨resolver, self, wireId, -, -, hsend⟩ := begin_cases hbg
  · exact .inr ⟨hss, rfl⟩
  · exact .inr ⟨hss, rfl⟩
  · have hsn := sent_sendQuery (s.makeRoom client payload now) client payload policy resolver
      self now wireId
    have hss := congrArg (fun result => result.1.status) hsend
    rw [hsend] at hsn
    exact .inl ⟨hss.symm, hsn⟩

/-! ## Answering -/

theorem idOf_setId (payload : Bytes) (id : UInt16) : idOf (setId payload id) = id := by
  have hrd : read16 (setId payload id) 0 = id.toNat := by
    have hlt := id.toNat_lt
    simp only [read16, setId, BigEndian.bytes, cons_append, nil_append,
      getD_cons_zero, getD_cons_succ, Nat.zero_add]
    simp only [UInt8.toNat_ofNat', pow_one, pow_zero, Nat.div_one]
    omega
  unfold idOf
  rw [hrd]
  exact UInt16.ofNat_toNat

theorem answered_of_answers {query : PendingQuery}
    (h : answers? query response) (hpr : response.source.port = dnsPort) :
    Answered query {
      number := query.number
      response
      reply := {
        client := query.client
        payload := setId response.payload query.originalId } } := by
  cases response with
  | packet =>
    simp only [answers?, Bool.and_eq_true, beq_iff_eq] at h
    obtain ⟨⟨⟨⟨htn, hrs⟩, -⟩, -⟩, hid⟩ := h
    exact ⟨by rw [hrs, ← hpr]; rfl, htn.symm, hid.symm, rfl, idOf_setId _ _⟩
  | datagram =>
    simp only [answers?, Bool.and_eq_true, Bool.not_eq_true', beq_iff_eq] at h
    obtain ⟨⟨htn, hrs⟩, hid⟩ := h
    exact ⟨by rw [hrs, ← hpr]; rfl, htn.symm, hid.symm, rfl, idOf_setId _ _⟩

/-- **Giving a response to a query that waits for it keeps everything.** -/
theorem Tracked.finish (h : s.Tracked) (hpr : response.source.port = dnsPort) :
    (s.finish response).2.Tracked := by
  unfold DnsForwarder.finish
  split
  · exact h
  · rename_i qry hfd
    have hmem := mem_of_find?_eq_some hfd
    have has := find?_some hfd
    have hpm := perm_cons_erase hmem
    have hnd : (qry.wireId :: (s.pending.erase qry).map wireId).Nodup :=
      (hpm.map wireId).nodup_iff.mp h.distinct
    refine ⟨hnd.of_cons, ?_, ?_, ?_, ?_, ?_⟩
    · rw [h.taken, toFinset_eq_of_perm _ _ (hpm.map wireId), map_cons,
        toFinset_cons, Finset.erase_insert]
      rw [mem_toFinset]
      exact (nodup_cons.mp hnd).1
    · exact (length_erase_le ..).trans h.bounded
    · exact fun other hot => h.sent other (mem_of_mem_erase hot)
    · have hon : (qry.number :: (s.pending.erase qry).map number
          ++ s.answers.map DnsAnswered.number).Nodup :=
        ((hpm.map number).append_right _).nodup_iff.mp h.once
      rw [map_append, ← append_assoc]
      exact (perm_append_singleton _ _).nodup_iff.mpr hon
    · intro ans han
      obtain han | han := mem_append.mp han
      · exact h.answered ans han
      · obtain rfl := mem_singleton.mp han
        exact ⟨qry, h.sent qry hmem, answered_of_answers has hpr⟩

theorem Tracked.completePacket (h : s.Tracked) (pkt : Bytes) :
    (s.completePacket pkt).2.Tracked := by
  unfold DnsForwarder.completePacket
  split
  · exact h
  · split
    · exact h
    · rename_i hrg
      exact h.finish (not_not.mp (not_or.mp hrg).1)

theorem Tracked.completeDatagram (h : s.Tracked) (src : Endpoint)
    (payload : Bytes) : (s.completeDatagram src payload).2.Tracked := by
  unfold DnsForwarder.completeDatagram
  split
  · exact h
  · rename_i hrg
    exact h.finish (not_not.mp (not_or.mp hrg).1)

/-- **Whatever a client is to get is recorded**, with the response that it was
given for. -/
theorem answers_finish (h : s.finish response = (some reply, s')) :
    ∃ num, s'.answers = s.answers ++ [⟨num, response, reply⟩] := by
  unfold DnsForwarder.finish at h
  split at h
  · cases h
  · cases h
    exact ⟨_, rfl⟩

theorem answers_completePacket {pkt : Bytes} (h : s.completePacket pkt = (some reply, s')) :
    ∃ udp num, Ipv4UdpDatagram.parse pkt = some udp ∧
      s'.answers = s.answers ++ [⟨num, .packet udp, reply⟩] := by
  unfold DnsForwarder.completePacket at h
  split at h
  · cases h
  · rename_i udp hpa
    split at h
    · cases h
    · obtain ⟨num, han⟩ := answers_finish h
      exact ⟨udp, num, hpa, han⟩

theorem answers_completeDatagram {src : Endpoint}
    (h : s.completeDatagram src payload = (some reply, s')) :
    ∃ num, s'.answers = s.answers ++ [⟨num, .datagram src payload, reply⟩] := by
  unfold DnsForwarder.completeDatagram at h
  split at h
  · cases h
  · exact answers_finish h

/-- **One call keeps everything.** -/
theorem Tracked.run (h : s.Tracked) {call : Call} (hrun : call.run s = some s') : s'.Tracked := by
  cases call with
  | begin =>
    obtain ⟨⟨_, _⟩, hbg, rfl⟩ := Option.map_eq_some_iff.mp hrun
    exact h.begin hbg
  | completePacket pkt =>
    cases hrun
    exact h.completePacket pkt
  | completeDatagram src payload =>
    cases hrun
    exact h.completeDatagram src payload
  | expire now =>
    cases hrun
    exact h.expire now
  | reset =>
    cases hrun
    exact h.reset

theorem tracked (h : calls.Reachable s) : s.Tracked := by
  refine TransitionSystem.invariant (P := Tracked) ?_ (fun s call s' hs hrun => hs.run hrun) h
  rintro s rfl
  exact ⟨nodup_nil, rfl, Nat.zero_le _, nofun, nodup_nil, nofun⟩

/-- **The forwarder matches the responses to the queries.** After any calls, the
identifiers of the queries that wait are distinct, they are those that are
taken, and there are not too many. Forwarding a query always ends, and the
query that it sends, if any, gets the next number. A query is answered once at
most; the response came from its resolver, on its path and under its
identifier, and its client got it under the client's identifier. Whatever a
client gets is recorded. Once the late queries have been forgotten, the next
deadline is in the future. -/
theorem responses_matched {s : DnsForwarder} (h : calls.Reachable s) :
    (s.pending.map wireId).Nodup ∧ (∀ id, id ∈ s.wireIds ↔ ∃ query ∈ s.pending, query.wireId = id) ∧
      s.pending.length ≤ 4096 ∧
      (∀ client payload policy originalResolvers now randomId, ∃ forward s',
        s.begin client payload policy originalResolvers now randomId = some (forward, s') ∧
          ((forward.status = .ready ∧
              ∃ query, s'.begun = s.begun ++ [query] ∧ Sent client payload forward query) ∨
            (forward.status ≠ .ready ∧ s'.begun = s.begun))) ∧
      (s.answers.map DnsAnswered.number).Nodup ∧
      (∀ answer ∈ s.answers, ∃ query, s.begun[answer.number]? = some query ∧
        Answered query answer) ∧
      (∀ packet reply s', s.completePacket packet = (some reply, s') →
        ∃ udp number, Ipv4UdpDatagram.parse packet = some udp ∧
          s'.answers = s.answers ++ [⟨number, .packet udp, reply⟩]) ∧
      (∀ source payload reply s', s.completeDatagram source payload = (some reply, s') →
        ∃ number, s'.answers = s.answers ++ [⟨number, .datagram source payload, reply⟩]) ∧
      ∀ now deadline, (s.expire now).nextDeadline = some deadline → now < deadline := by
  have htr := tracked h
  refine ⟨htr.distinct, ?_, htr.bounded, ?_, ?_, htr.answered,
    fun _ _ _ => answers_completePacket, fun _ _ _ _ => answers_completeDatagram,
    fun now _ => lt_nextDeadline s now⟩
  · intro _
    rw [htr.taken, mem_toFinset, mem_map]
  · intro client payload policy originalResolvers now randomId
    obtain ⟨⟨forward, s'⟩, hbg⟩ := Option.isSome_iff_exists.mp
      (htr.begin_isSome client payload policy originalResolvers now randomId)
    exact ⟨forward, s', hbg, begun_begin hbg⟩
  · exact (nodup_append.mp htr.once).2.1

def resolverPolicy : NetworkPolicy :=
  { network := { selfAddress := "100.64.0.1", dnsResolver := "8.8.8.8" } }

/-- Two queries under one identifier drawn at random, answered the other way
round, and one answer that comes again. -/
def askAndAnswer : List Call :=
  let resolver := { address := Ipv4Address.ofOctets [8, 8, 8, 8], port := 53 }
  [.begin { address := 1, port := 5000 } [0, 7] resolverPolicy [] 0 300,
    .begin { address := 2, port := 5000 } [0, 9] resolverPolicy [] 1 300,
    .completeDatagram resolver [1, 45], .completeDatagram resolver [1, 44],
    .completeDatagram resolver [1, 44]]

def replies : List DnsReply :=
  [{ client := { address := 2, port := 5000 }, payload := [0, 9] },
    { client := { address := 1, port := 5000 }, payload := [0, 7] }]

theorem responses_matched_askAndAnswer : ∃ s, calls.Reachable s ∧
      s.answers.map DnsAnswered.reply = replies ∧ (s.answers.map DnsAnswered.number).Nodup := by
  have hrun : ∃ s, askAndAnswer.foldlM Call.run {} = some s ∧
      s.answers.map DnsAnswered.reply = replies := by
    decide +kernel
  obtain ⟨s, hs, hrp⟩ := hrun
  have hre : calls.Reachable s := .of_foldlM (fun _ _ _ h => h) (.init rfl) hs
  exact ⟨s, hre, hrp, (responses_matched hre).2.2.2.2.1⟩

end DnsForwarder

end Tailgate
