import Tailgate.SessionPackets
import Tailgate.Shuffles

/-!
# The table of peers

A node keeps an entry for every peer. A new network map is compared with the
entries: a peer takes one that has its identifier or its address, or gets a new
one, and entries that no peer fits are removed. If the node only delegates, keys
are registered with the connection, which takes none twice.

The peers are seen to one after another. `Untangled` says that none is in the
way of another, which is exactly when the table is right (`correct_apply_iff`).
-/

namespace Tailgate

open List

/-- An entry of the table. -/
structure PeerRuntime where
  config : PeerConfig := {}
  publicKey : Bytes := []
  /-- Its public key for disco messages, all zeros if it has none. -/
  discoPublicKey : Bytes := replicate 32 0
  hasDiscoKey : Bool := false
  txBytes : ℕ := 0
  rxBytes : ℕ := 0

/-- **The table.** -/
structure PeerTable where
  /-- The connection that the keys are registered with, if there is one. -/
  delegatedTransport : Option Connection := none
  peers : List PeerRuntime := []
  network : NetworkConfig := {}

namespace PeerTable

open PeerRuntime

variable (config : PeerConfig)

def nodeKeyOf : Option Bytes := parsePrefixedKey "nodekey:" config.key

variable (peer : PeerRuntime)

def sameNode : Bool :=
  config.nodeId != 0 && peer.config.nodeId == config.nodeId || peer.config.address == config.address

def addPeer (key : Bytes) (t : PeerTable) : Bool × PeerTable :=
  match t.delegatedTransport with
  | none => (true, t)
  | some c => ((c.addPeer key).1, { t with delegatedTransport := some (c.addPeer key).2 })

def atTransport (f : Connection → Connection) (t : PeerTable) : PeerTable :=
  { t with delegatedTransport := t.delegatedTransport.map f }

def updateDiscoKey : PeerRuntime :=
  let key := parsePrefixedKey "discokey:" peer.config.discoKey
  { peer with hasDiscoKey := key.isSome, discoPublicKey := key.getD (replicate 32 0) }

def buildPeer (t : PeerTable) : Option PeerRuntime × PeerTable :=
  match nodeKeyOf config with
  | none => (none, t)
  | some publicKey =>
    match t.addPeer publicKey with
    | (false, t) => (none, t)
    | (true, t) => (some (updateDiscoKey { config, publicKey }), t)

def rekey (existing : PeerRuntime) (config : PeerConfig) (t : PeerTable) :
    Option PeerRuntime × PeerTable :=
  if existing.config.key = config.key then
    (some existing, t)
  else
    match nodeKeyOf config with
    | none => (none, t)
    | some nextPublicKey =>
      match t.addPeer nextPublicKey with
      | (false, t) => (none, t)
      | (true, t) =>
        let t := t.atTransport fun c => (c.removePeer existing.publicKey).2
        let t := t.atTransport fun c => c.resetPath nextPublicKey .forgetVerifiedEndpoints
        (some { existing with publicKey := nextPublicKey }, t)

/-- Put an entry in the place of the first that is the peer's, and give up the
path to the peer if it is gone or elsewhere. -/
def refresh (existing : PeerRuntime) (config : PeerConfig) (peer : PeerRuntime) (t : PeerTable) :
    PeerTable :=
  let endpointsChanged := existing.config.endpoints != config.endpoints
  let discoKeyChanged := existing.config.discoKey != config.discoKey
  let peer := updateDiscoKey { peer with config }
  let t := { t with
    peers := t.peers.replaceF fun other => if sameNode config other then some peer else none }
  if !config.online || endpointsChanged then
    t.atTransport fun c => c.resetPath peer.publicKey
      (if !config.online || discoKeyChanged then .forgetVerifiedEndpoints
      else .preserveVerifiedEndpoints)
  else
    t

variable (t : PeerTable)

/-- **See to one peer.** -/
def applyPeer (config : PeerConfig) : PeerTable :=
  match t.peers.find? (sameNode config) with
  | none =>
    match t.buildPeer config with
    | (none, t) => t
    | (some peer, t) => { t with peers := t.peers ++ [peer] }
  | some existing =>
    match t.rekey existing config with
    | (none, t) => t
    | (some peer, t) => t.refresh existing config peer

variable (configs : List PeerConfig)

def stillPresent (peer : PeerRuntime) : Bool :=
  configs.any fun config => sameNode config peer

def eraseAbsent (t : PeerTable) : PeerTable :=
  let gone := t.peers.filter fun peer => !stillPresent configs peer
  let t := t.atTransport fun c =>
    gone.foldl (fun c peer => (c.removePeer peer.publicKey).2) c
  { t with peers := t.peers.filter (stillPresent configs) }

def updateRoutable : PeerTable :=
  { t with network := { t.network with peers := t.peers.map PeerRuntime.config } }

/-- **A new network map.** -/
def apply (t : PeerTable) : PeerTable :=
  ((configs.foldl applyPeer t).eraseAbsent configs).updateRoutable

/-! ## What is expected -/

/-- A network map in which no two peers share an identifier, an address or a
key. -/
structure Valid (configs : List PeerConfig) : Prop where
  ids : (configs.map PeerConfig.nodeId).Nodup
  nonzero : ∀ config ∈ configs, config.nodeId ≠ 0
  addresses : (configs.map PeerConfig.address).Nodup
  keyed : ∀ config ∈ configs, (nodeKeyOf config).isSome
  keys : (configs.map nodeKeyOf).Nodup

instance (configs : List PeerConfig) : Decidable (Valid configs) :=
  decidable_of_iff ((configs.map PeerConfig.nodeId).Nodup ∧
      (∀ config ∈ configs, config.nodeId ≠ 0) ∧ (configs.map PeerConfig.address).Nodup ∧
      (∀ config ∈ configs, (nodeKeyOf config).isSome) ∧ (configs.map nodeKeyOf).Nodup)
    ⟨fun ⟨ids, nonzero, addresses, keyed, keys⟩ => ⟨ids, nonzero, addresses, keyed, keys⟩,
      fun h => ⟨h.ids, h.nonzero, h.addresses, h.keyed, h.keys⟩⟩

/-- **The table is right for a network map.** -/
structure Correct (configs : List PeerConfig) (t : PeerTable) : Prop where
  /-- There is one entry for every peer, and none besides. -/
  entries : (t.peers.map PeerRuntime.config).Perm configs
  /-- The key of an entry is that of its peer. -/
  keys : ∀ peer ∈ t.peers, nodeKeyOf peer.config = some peer.publicKey
  /-- The keys of the peers are registered, and none besides. -/
  registered : ∃ c ∈ t.delegatedTransport, ∀ key,
    c.hasPeer key ↔ ∃ config ∈ configs, nodeKeyOf config = some key

/-- **A peer can take its entry**: the entry has its key already, or its key is
not that of any entry. -/
def KeyFree (left : List PeerRuntime) (config : PeerConfig) : Prop :=
  (∃ existing ∈ left.find? (sameNode config), existing.config.key = config.key) ∨
    ∀ peer ∈ left, nodeKeyOf config ≠ some peer.publicKey

instance (left : List PeerRuntime) : DecidablePred (KeyFree left) := fun _ =>
  inferInstanceAs (Decidable (_ ∨ _))

/-- **The peers are not in each other's way.** Each takes the first entry that
is left with its identifier or its address, if there is one, and can take it.
In the end, no entry is left that fits a peer. -/
def Untangled (all : List PeerConfig) : List PeerRuntime → List PeerConfig → Prop
  | left, [] => ∀ peer ∈ left, stillPresent all peer = false
  | left, config :: configs =>
    KeyFree left config ∧ Untangled all (left.eraseP (sameNode config)) configs

instance decidableUntangled (all : List PeerConfig) :
    ∀ left configs, Decidable (Untangled all left configs)
  | _, [] => inferInstanceAs (Decidable (∀ peer ∈ _, _))
  | left, config :: configs =>
    have := decidableUntangled all (left.eraseP (sameNode config)) configs
    inferInstanceAs (Decidable (_ ∧ _))

/-! ## One peer -/

/-- **What is true of the table between two peers**: its entries have the keys
of their peers, no two the same, and these are registered. -/
structure Consistent (t : PeerTable) : Prop where
  /-- The key of an entry is that of its peer. -/
  keyed : ∀ peer ∈ t.peers, nodeKeyOf peer.config = some peer.publicKey
  distinct : (t.peers.map publicKey).Nodup
  /-- The keys of the entries are registered, and none besides. -/
  registered : ∃ c, t.delegatedTransport = some c ∧
    ∀ key, c.hasPeer key ↔ key ∈ t.peers.map publicKey

variable {t config peer} {existing : PeerRuntime} {key : Bytes}

theorem Consistent.addPeer_of_mem (h : t.Consistent)
    (hkey : key ∈ t.peers.map publicKey) : t.addPeer key = (false, t) := by
  obtain ⟨c, hc, hrg⟩ := h.registered
  have hadd : c.addPeer key = (false, c) := by
    unfold Connection.addPeer
    rw [if_pos ((hrg key).mpr hkey)]
  unfold PeerTable.addPeer
  rw [hc]
  dsimp only
  rw [hadd, ← hc]

theorem Consistent.addPeer_of_notMem (h : t.Consistent) (hkey : key ∉ t.peers.map publicKey) :
    ∃ c, t.addPeer key = (true, { t with delegatedTransport := some c }) ∧
      ∀ other, c.hasPeer other ↔ other ∈ t.peers.map publicKey ∨ other = key := by
  obtain ⟨c, hc, hrg⟩ := h.registered
  have hadd : (c.addPeer key).1 = true := by
    unfold Connection.addPeer
    rw [if_neg fun hhas => hkey ((hrg key).mp hhas)]
  refine ⟨(c.addPeer key).2, ?_, fun other => ?_⟩
  · unfold PeerTable.addPeer
    rw [hc]
    dsimp only
    rw [hadd]
  · rw [Connection.hasPeer_addPeer, hrg]

variable {c : Connection} {current : List PeerConfig}

/-- **A new entry keeps the table consistent.** -/
theorem Consistent.concat (h : t.Consistent) (hkey : nodeKeyOf peer.config = some peer.publicKey)
    (hnew : peer.publicKey ∉ t.peers.map publicKey) (hc : ∀ other, c.hasPeer other ↔
      other ∈ t.peers.map publicKey ∨ other = peer.publicKey) :
    ({ t with delegatedTransport := some c, peers := t.peers ++ [peer] } : PeerTable).Consistent
    where
  keyed other hot := by
    obtain hot | hot := mem_append.mp hot
    · exact h.keyed other hot
    · rwa [mem_singleton.mp hot]
  distinct := by
    rw [map_append]
    refine h.distinct.append (nodup_singleton _) ?_
    simpa using hnew
  registered := ⟨c, rfl, fun other => by simpa using hc other⟩

theorem peers_refresh (existing : PeerRuntime) : (t.refresh existing config peer).peers
    = t.peers.replaceF fun other =>
        if sameNode config other then some (updateDiscoKey { peer with config }) else none := by
  unfold refresh
  dsimp only
  split <;> rfl

theorem exists_transport_refresh (existing : PeerRuntime) (config : PeerConfig)
    (peer : PeerRuntime) (hc : t.delegatedTransport = some c) :
    ∃ c', (t.refresh existing config peer).delegatedTransport = some c' ∧
      ∀ other, c'.hasPeer other = c.hasPeer other := by
  unfold refresh
  dsimp only
  split
  · exact ⟨_, congrArg (Option.map _) hc, fun other => Connection.hasPeer_resetPath _ other _ c⟩
  · exact ⟨c, hc, fun _ => rfl⟩

/-- **An entry in the place of another keeps the table consistent**, if its key
is registered in the place of the other's. -/
theorem consistent_refresh (hke : ∀ peer ∈ t.peers, nodeKeyOf peer.config = some peer.publicKey)
    (hfd : t.peers.find? (sameNode config) = some existing)
    (hkey : nodeKeyOf config = some peer.publicKey) (hds : (peer.publicKey ::
      (t.peers.eraseP (sameNode config)).map publicKey).Nodup)
    (hc : t.delegatedTransport = some c)
    (hrg : ∀ key, c.hasPeer key ↔ key ∈ peer.publicKey ::
      (t.peers.eraseP (sameNode config)).map publicKey) :
    (t.refresh existing config peer).Consistent := by
  have hpm := Shuffle.replaceF_perm hfd (updateDiscoKey { peer with config })
  rw [← peers_refresh existing] at hpm
  have hky : ((t.refresh existing config peer).peers.map publicKey).Perm
      (peer.publicKey :: (t.peers.eraseP (sameNode config)).map publicKey) :=
    hpm.map _
  refine ⟨fun other hot => ?_, hky.nodup_iff.mpr hds, ?_⟩
  · obtain rfl | hot := mem_cons.mp (hpm.mem_iff.mp hot)
    · exact hkey
    · exact hke other (mem_of_mem_eraseP hot)
  · obtain ⟨c', hc', hsm⟩ := exists_transport_refresh existing config peer hc
    exact ⟨c', hc', fun other => by rw [hsm, hrg, hky.mem_iff]⟩

def Takes (t t' : PeerTable) (config : PeerConfig) (peer : PeerRuntime) : Prop :=
  (t.peers.find? (sameNode config) = none ∧ t'.peers = t.peers ++ [peer]) ∨
    ∃ existing, t.peers.find? (sameNode config) = some existing ∧
      t'.peers = t.peers.replaceF fun other => if sameNode config other then some peer else none

theorem KeyFree.notMem (hfr : KeyFree t.peers config) (hkey : nodeKeyOf config = some key)
    (hex : ∀ existing ∈ t.peers.find? (sameNode config), existing.config.key ≠ config.key) :
    key ∉ t.peers.map publicKey := by
  intro hmem
  obtain ⟨peer, hpr, rfl⟩ := mem_map.mp hmem
  obtain ⟨existing, hfd, heq⟩ | hfr := hfr
  · exact hex existing hfd heq
  · exact hfr peer hpr hkey

/-- **A peer that can takes its entry.** -/
theorem Consistent.applyPeer (h : t.Consistent) (hkey : nodeKeyOf config = some key)
    (hfr : KeyFree t.peers config) :
    (t.applyPeer config).Consistent ∧
      ∃ peer, peer.config = config ∧ Takes t (t.applyPeer config) config peer := by
  unfold PeerTable.applyPeer
  cases hfd : t.peers.find? (sameNode config) with
  | none =>
    have hnew : key ∉ t.peers.map publicKey := hfr.notMem hkey (by simp [hfd])
    obtain ⟨_, hadd, hc⟩ := h.addPeer_of_notMem hnew
    simp only [buildPeer, hkey, hadd]
    exact ⟨h.concat hkey hnew hc, _, rfl, .inl ⟨hfd, rfl⟩⟩
  | some existing =>
    have hex := mem_of_find?_eq_some hfd
    have hpm := (Shuffle.perm_cons_eraseP hfd).map publicKey
    have hds := hpm.nodup_iff.mp h.distinct
    by_cases hsm : existing.config.key = config.key
    · have hpb : existing.publicKey = key := by
        have hky := h.keyed existing hex
        unfold nodeKeyOf at hky hkey
        rw [hsm, hkey] at hky
        exact (Option.some.inj hky).symm
      obtain ⟨_, hc, hrg⟩ := h.registered
      simp only [rekey, hsm, if_true]
      refine ⟨consistent_refresh h.keyed hfd (hpb ▸ hkey) hds hc fun other => ?_,
        _, rfl, .inr ⟨existing, hfd, peers_refresh existing⟩⟩
      rw [hrg, hpm.mem_iff, map_cons]
    · have hnew : key ∉ t.peers.map publicKey := by
        refine hfr.notMem hkey fun _ hot => ?_
        rw [hfd] at hot
        cases hot
        exact hsm
      obtain ⟨_, hadd, hc⟩ := h.addPeer_of_notMem hnew
      simp only [rekey, hsm, if_false, hkey, hadd, atTransport, Option.map_some]
      rw [map_cons, nodup_cons] at hds
      have hrs : key ∉ (t.peers.eraseP (sameNode config)).map publicKey :=
        fun hmem => hnew (hpm.mem_iff.mpr (mem_cons_of_mem _ hmem))
      refine ⟨consistent_refresh h.keyed hfd hkey (nodup_cons.mpr ⟨hrs, hds.2⟩) rfl
        fun other => ?_, _, rfl, .inr ⟨existing, hfd, peers_refresh existing⟩⟩
      rw [Connection.hasPeer_resetPath, Connection.hasPeer_removePeer, hc, hpm.mem_iff,
        map_cons, mem_cons, mem_cons]
      constructor
      · rintro ⟨(rfl | hmem) | rfl, hne⟩
        · exact absurd rfl hne
        · exact .inr hmem
        · exact .inl rfl
      · rintro (rfl | hmem)
        · exact ⟨.inr rfl, fun heq => hnew (heq ▸ mem_map_of_mem hex)⟩
        · exact ⟨.inl (.inr hmem), fun heq => hds.1 (heq ▸ hmem)⟩

/-- **A peer that cannot take its entry is passed over.** -/
theorem Consistent.applyPeer_eq (h : t.Consistent) (hkey : nodeKeyOf config = some key)
    (hfr : ¬KeyFree t.peers config) : t.applyPeer config = t := by
  unfold KeyFree at hfr
  push Not at hfr
  obtain ⟨hot, peer, hpr, heq⟩ := hfr
  have hmem : key ∈ t.peers.map publicKey :=
    mem_map.mpr ⟨peer, hpr, Option.some.inj (heq.symm.trans hkey)⟩
  unfold PeerTable.applyPeer
  cases hfd : t.peers.find? (sameNode config) with
  | none => simp only [buildPeer, hkey, h.addPeer_of_mem hmem]
  | some existing =>
    have hne := hot existing hfd
    simp only [rekey, hne, if_false, hkey, h.addPeer_of_mem hmem]

/-! ## All peers -/

variable {t' : PeerTable}

theorem Takes.mem (h : Takes t t' config peer) {other : PeerRuntime}
    (hot : other ∈ t'.peers) : other ∈ t.peers ∨ other = peer := by
  obtain ⟨-, heq⟩ | ⟨_, hfd, heq⟩ := h
  · rw [heq] at hot
    simpa using hot
  · rw [heq, (Shuffle.replaceF_perm hfd peer).mem_iff, mem_cons] at hot
    exact hot.symm.imp_left mem_of_mem_eraseP

theorem Consistent.foldl_applyPeer (h : t.Consistent) {configs : List PeerConfig}
    (hky : ∀ config ∈ configs, (nodeKeyOf config).isSome) :
    ∀ peer ∈ (configs.foldl PeerTable.applyPeer t).peers,
      peer ∈ t.peers ∨ peer.config ∈ configs := by
  induction configs generalizing t with
  | nil => exact fun peer hpr => .inl hpr
  | cons config _ ih =>
    obtain ⟨_, hkey⟩ := Option.isSome_iff_exists.mp (hky config mem_cons_self)
    have hrs := fun config hcf => hky config (mem_cons_of_mem _ hcf)
    intro peer hpr
    by_cases hfr : KeyFree t.peers config
    · obtain ⟨hnx, _, hcf, htk⟩ := h.applyPeer hkey hfr
      obtain hmem | hmem := ih hnx hrs peer hpr
      · obtain hold | rfl := htk.mem hmem
        · exact .inl hold
        · exact .inr (hcf ▸ mem_cons_self)
      · exact .inr (mem_cons_of_mem _ hmem)
    · rw [foldl_cons, h.applyPeer_eq hkey hfr] at hpr
      exact (ih h hrs peer hpr).imp_right (mem_cons_of_mem _)

theorem hasPeer_foldl_removePeer (gone : List PeerRuntime) (c : Connection) (key : Bytes) :
    (gone.foldl (fun c peer => (c.removePeer peer.publicKey).2) c).hasPeer key ↔
      c.hasPeer key ∧ ∀ peer ∈ gone, key ≠ peer.publicKey := by
  induction gone generalizing c with
  | nil => simp
  | cons _ _ ih =>
    rw [foldl_cons, ih, Connection.hasPeer_removePeer, forall_mem_cons, and_assoc]

theorem stillPresent_of_mem {configs : List PeerConfig} (h : peer.config ∈ configs) :
    stillPresent configs peer := by
  exact any_eq_true.mpr ⟨peer.config, h, by simp [sameNode]⟩

variable {configs} {all done : List PeerConfig} {seen left : List PeerRuntime}

/-- After all peers have been seen to, those entries stay that have been seen
to or fit a peer. -/
theorem filter_stillPresent_perm (hsf : Shuffle seen left t.peers)
    (hsn : (seen.map PeerRuntime.config).Perm all) :
    (t.peers.filter (stillPresent all)).Perm (seen ++ left.filter (stillPresent all)) := by
  have hall : seen.filter (stillPresent all) = seen := filter_eq_self.mpr fun peer hpr =>
    stillPresent_of_mem (hsn.mem_iff.mp (mem_map_of_mem hpr))
  have hpm := hsf.perm.filter (stillPresent all)
  rwa [filter_append, hall] at hpm

/-- **If nothing that fits is left, the table is right** once the rest has been
removed. -/
theorem Consistent.correct_eraseAbsent (h : t.Consistent) (hsf : Shuffle seen left t.peers)
    (hsn : (seen.map PeerRuntime.config).Perm all)
    (hlf : ∀ peer ∈ left, stillPresent all peer = false) : Correct all (t.eraseAbsent all) := by
  have hno : left.filter (stillPresent all) = [] :=
    filter_eq_nil_iff.mpr fun peer hpr => by simp [hlf peer hpr]
  have hpm : (t.peers.filter (stillPresent all)).Perm seen := by
    have hpm := filter_stillPresent_perm hsf hsn
    rwa [hno, append_nil] at hpm
  obtain ⟨_, hc, hrg⟩ := h.registered
  refine ⟨(hpm.map _).trans hsn, fun peer hpr => h.keyed peer (mem_of_mem_filter hpr),
    _, congrArg (Option.map _) hc, fun key => ?_⟩
  rw [hasPeer_foldl_removePeer, hrg]
  constructor
  · rintro ⟨hkey, hgn⟩
    obtain ⟨peer, hpr, rfl⟩ := mem_map.mp hkey
    have hpt : stillPresent all peer = true := by
      by_contra hab
      exact hgn peer (mem_filter.mpr ⟨hpr, by simpa using hab⟩) rfl
    have hmem := hpm.mem_iff.mp (mem_filter.mpr ⟨hpr, hpt⟩)
    exact ⟨peer.config, hsn.mem_iff.mp (mem_map_of_mem hmem), h.keyed peer hpr⟩
  · rintro ⟨_, hcf, hkey⟩
    obtain ⟨peer, hpr, rfl⟩ := mem_map.mp (hsn.mem_iff.mpr hcf)
    have hpr' := mem_filter.mp (hpm.mem_iff.mpr hpr)
    cases (h.keyed peer hpr'.1).symm.trans hkey
    refine ⟨mem_map_of_mem hpr'.1, fun other hot heq => ?_⟩
    obtain ⟨hot, hab⟩ := mem_filter.mp hot
    rw [← inj_on_of_nodup_map h.distinct hpr'.1 hot heq, hpr'.2] at hab
    cases hab

/-- **If something that fits is left, there is an entry too many.** -/
theorem stillPresent_of_correct (hsf : Shuffle seen left t.peers)
    (hsn : (seen.map PeerRuntime.config).Perm all) (h : Correct all (t.eraseAbsent all)) :
    ∀ peer ∈ left, stillPresent all peer = false := by
  have hlen := h.entries.length_eq
  rw [length_map] at hlen
  have hpm := (filter_stillPresent_perm hsf hsn).length_eq
  have hsn' := hsn.length_eq
  rw [length_map] at hsn'
  rw [length_append, hsn'] at hpm
  have hno : left.filter (stillPresent all) = [] :=
    eq_nil_of_length_eq_zero (by have := hpm.symm.trans hlen; omega)
  exact fun peer hpr => by simpa using filter_eq_nil_iff.mp hno peer hpr

theorem sameNode_eq_false (hvd : Valid (done ++ config :: configs))
    (hpr : peer.config ∈ done) : sameNode config peer = false := by
  have hids := nodup_append.mp (map_append ▸ hvd.ids)
  have had := nodup_append.mp (map_append ▸ hvd.addresses)
  have hid := hids.2.2 _ (mem_map_of_mem hpr) _ (mem_map_of_mem mem_cons_self)
  have has := had.2.2 _ (mem_map_of_mem hpr) _ (mem_map_of_mem mem_cons_self)
  unfold sameNode
  simp [hid, has]

/-- Whether a peer can take its entry depends on the entries that are left. -/
theorem Consistent.keyFree_iff (h : t.Consistent) (hsf : Shuffle seen left t.peers)
    (hsn : (seen.map PeerRuntime.config).Perm done) (hvd : Valid (done ++ config :: configs)) :
    KeyFree t.peers config ↔ KeyFree left config := by
  have hdn : ∀ peer ∈ seen, peer.config ∈ done :=
    fun peer hpr => hsn.mem_iff.mp (mem_map_of_mem hpr)
  have hky := nodup_append.mp (map_append ▸ hvd.keys)
  unfold KeyFree
  rw [hsf.find?_eq fun peer hpr => sameNode_eq_false hvd (hdn peer hpr)]
  refine or_congr_right ⟨fun hfr peer hpr => hfr peer (hsf.mem_iff.mpr (.inr hpr)),
    fun hfr peer hpr => ?_⟩
  obtain hpr' | hpr' := hsf.mem_iff.mp hpr
  · rw [← h.keyed peer hpr]
    exact (hky.2.2 _ (mem_map_of_mem (hdn peer hpr')) _ (mem_map_of_mem mem_cons_self)).symm
  · exact hfr peer hpr'

theorem Takes.shuffle (h : Takes t t' config peer)
    (hsf : Shuffle seen left t.peers) (hsn : ∀ peer ∈ seen, sameNode config peer = false) :
    ∃ seen', Shuffle seen' (left.eraseP (sameNode config)) t'.peers ∧
      seen'.Perm (peer :: seen) := by
  have hfd := hsf.find?_eq hsn
  obtain ⟨hno, heq⟩ | ⟨_, hso, heq⟩ := h
  · rw [hfd, find?_eq_none] at hno
    rw [heq, eraseP_of_forall_not hno]
    exact ⟨seen ++ [peer], hsf.concat peer, perm_append_singleton _ _⟩
  · rw [hfd] at hso
    rw [heq]
    exact hsf.replaceF hsn hso peer

theorem config_ne_of_not_keyFree (hfr : ¬KeyFree left config)
    (hlf : ∀ a ∈ left, ∀ b ∈ left, a.config.nodeId = b.config.nodeId ∨
      a.config.address = b.config.address → a.config = b.config)
    (hpr : peer ∈ left) : peer.config ≠ config := by
  rintro rfl
  have hso : (left.find? (sameNode peer.config)).isSome := by
    rw [find?_isSome]
    exact ⟨peer, hpr, by simp [sameNode]⟩
  obtain ⟨existing, hfd⟩ := Option.isSome_iff_exists.mp hso
  have hsm := find?_some hfd
  have heq : existing.config = peer.config := by
    refine hlf existing (mem_of_find?_eq_some hfd) peer hpr ?_
    simp only [sameNode, Bool.or_eq_true, Bool.and_eq_true, beq_iff_eq] at hsm
    exact hsm.imp_left And.right
  exact hfr (.inl ⟨existing, hfd, congrArg PeerConfig.key heq⟩)

/-- **The table is right exactly if the peers are not in each other's way.** -/
theorem Consistent.correct_iff (h : t.Consistent) (hall : all = done ++ configs)
    (hvd : Valid all) (hsf : Shuffle seen left t.peers)
    (hsn : (seen.map PeerRuntime.config).Perm done)
    (hlf : ∀ a ∈ left, ∀ b ∈ left, a.config.nodeId = b.config.nodeId ∨
      a.config.address = b.config.address → a.config = b.config) :
    Correct all ((configs.foldl PeerTable.applyPeer t).eraseAbsent all) ↔
      Untangled all left configs := by
  induction configs generalizing t seen left done with
  | nil =>
    rw [append_nil] at hall
    subst hall
    exact ⟨stillPresent_of_correct hsf hsn, h.correct_eraseAbsent hsf hsn⟩
  | cons config _ ih =>
    subst hall
    obtain ⟨_, hkey⟩ := Option.isSome_iff_exists.mp
      (hvd.keyed config (mem_append_right _ mem_cons_self))
    have hiff := h.keyFree_iff hsf hsn hvd
    have hno : ∀ peer ∈ seen, sameNode config peer = false := fun peer hpr =>
      sameNode_eq_false hvd (hsn.mem_iff.mp (mem_map_of_mem hpr))
    by_cases hfr : KeyFree left config
    · obtain ⟨hnx, _, hcf, htk⟩ := h.applyPeer hkey (hiff.mpr hfr)
      obtain ⟨seen', hsf', hpm⟩ := htk.shuffle hsf hno
      have hsn' : (seen'.map PeerRuntime.config).Perm (done ++ [config]) := by
        refine (hpm.map _).trans ?_
        rw [map_cons, hcf]
        exact (hsn.cons config).trans (perm_append_singleton _ _).symm
      refine (ih hnx (by simp) hsf' hsn' ?_).trans (and_iff_right hfr).symm
      exact fun a ha b hb => hlf a (mem_of_mem_eraseP ha) b (mem_of_mem_eraseP hb)
    · refine iff_of_false (fun hcr => ?_) fun hun => hfr hun.1
      have hmem := hcr.entries.mem_iff.mpr (mem_append_right done mem_cons_self)
      obtain ⟨peer, hpr, hcf⟩ := mem_map.mp hmem
      have hpr' := mem_of_mem_filter hpr
      rw [foldl_cons, h.applyPeer_eq hkey (mt hiff.mp hfr)] at hpr'
      have hids := nodup_append.mp (map_append ▸ hvd.ids)
      -- The entry is not of a peer that was seen to before or is after it.
      obtain hold | hlt := h.foldl_applyPeer (fun config hcf => hvd.keyed config
        (mem_append_right _ (mem_cons_of_mem _ hcf))) peer hpr'
      · obtain hold | hold := hsf.mem_iff.mp hold
        · have hdn := hsn.mem_iff.mp (mem_map_of_mem hold)
          exact hids.2.2 _ (mem_map_of_mem hdn) _ (mem_map_of_mem mem_cons_self)
            (congrArg PeerConfig.nodeId hcf)
        · exact config_ne_of_not_keyFree hfr hlf hold hcf
      · have hnd := (nodup_cons.mp hids.2.1).1
        exact hnd (mem_map.mpr ⟨_, hlt, congrArg PeerConfig.nodeId hcf⟩)

/-! ## Runs -/

/-- **The table and the network maps it is given.** -/
def applies : TransitionSystem PeerTable (List PeerConfig) where
  init t := t = { delegatedTransport := some {} }
  step t configs t' := Valid configs ∧ t' = t.apply configs

theorem Correct.consistent (h : Correct current t) (hvd : Valid current) : t.Consistent := by
  have hky : (t.peers.map publicKey).map some = (t.peers.map PeerRuntime.config).map nodeKeyOf := by
    rw [map_map, map_map]
    exact map_congr_left fun peer hpr => (h.keys peer hpr).symm
  refine ⟨h.keys, ?_, ?_⟩
  · refine List.Nodup.of_map some ?_
    rw [hky]
    exact (h.entries.map nodeKeyOf).nodup_iff.mpr hvd.keys
  · obtain ⟨c, hc, hrg⟩ := h.registered
    refine ⟨c, hc, fun key => ?_⟩
    have hmem : key ∈ t.peers.map publicKey ↔ some key ∈ current.map nodeKeyOf := by
      rw [← (h.entries.map nodeKeyOf).mem_iff, ← hky]
      simp
    rw [hrg, hmem, mem_map]

/-- The entries of a table that is right are told apart by their identifiers
and by their addresses. -/
theorem Correct.config_eq (h : Correct current t)
    (hvd : Valid current) {a b : PeerRuntime} (ha : a ∈ t.peers) (hb : b ∈ t.peers)
    (hsm : a.config.nodeId = b.config.nodeId ∨ a.config.address = b.config.address) :
    a.config = b.config := by
  have ha' := h.entries.mem_iff.mp (mem_map_of_mem ha)
  have hb' := h.entries.mem_iff.mp (mem_map_of_mem hb)
  obtain hid | had := hsm
  · exact inj_on_of_nodup_map hvd.ids ha' hb' hid
  · exact inj_on_of_nodup_map hvd.addresses ha' hb' had

/-- **One network map after another one that went well.** -/
theorem Correct.apply_iff (h : Correct current t) (hcr : Valid current) (hvd : Valid configs) :
    Correct configs (t.apply configs) ↔ Untangled configs t.peers configs := by
  have hrt (t : PeerTable) : Correct configs t.updateRoutable ↔ Correct configs t :=
    ⟨fun h => ⟨h.entries, h.keys, h.registered⟩, fun h => ⟨h.entries, h.keys, h.registered⟩⟩
  unfold apply
  rw [hrt]
  exact (h.consistent hcr).correct_iff (nil_append configs).symm hvd
    (Shuffle.all_left t.peers) (.refl _) fun a ha b hb => h.config_eq hcr ha hb

/-- The table is right for the last network map, if no peer was in another's
way. -/
theorem exists_correct (h : (applies.restrict fun t configs =>
    Untangled configs t.peers configs).Reachable t) :
    ∃ current, Valid current ∧ Correct current t := by
  refine TransitionSystem.invariant (P := fun t => ∃ current, Valid current ∧ Correct current t)
    ?_ ?_ h
  · rintro t rfl
    refine ⟨[], ⟨nodup_nil, ?_, nodup_nil, ?_, nodup_nil⟩, .refl _, ?_, {}, rfl, ?_⟩
    · exact fun _ hcf => absurd hcf not_mem_nil
    · exact fun _ hcf => absurd hcf not_mem_nil
    · exact fun _ hpr => absurd hpr not_mem_nil
    · simp [Connection.hasPeer]
  · rintro _ configs _ ⟨_, hcr, hco⟩ ⟨hun, hvd, rfl⟩
    exact ⟨configs, hvd, (hco.apply_iff hcr hvd).mpr hun⟩

/-- **The table is right after a network map exactly if its peers are not in
each other's way**, whatever network maps of that kind came before. -/
theorem correct_apply_iff (h : (applies.restrict fun t configs =>
    Untangled configs t.peers configs).Reachable t) (hvalid : Valid configs) :
    Correct configs (t.apply configs) ↔ Untangled configs t.peers configs := by
  obtain ⟨_, hcr, hco⟩ := exists_correct h
  exact hco.apply_iff hcr hvalid

/-- A peer with an identifier, the last part of an address, and a key of one
digit. -/
def numbered (nodeId : ℕ) (host : String) (digit : Char) : PeerConfig where
  nodeId
  address := "100.64.0." ++ host
  key := "nodekey:" ++ .ofList (replicate 64 digit)

def ofTwo : PeerTable :=
  ({ delegatedTransport := some {} } : PeerTable).apply [numbered 1 "1" '1', numbered 2 "2" '2']

theorem reachable_ofTwo : (applies.restrict fun t configs =>
    Untangled configs t.peers configs).Reachable ofTwo :=
  .step (.init rfl) ⟨by decide +kernel, by decide +kernel, rfl⟩

theorem correct_apply_ofTwo : Valid [numbered 2 "4" '3', numbered 1 "3" '1'] ∧
      Correct [numbered 2 "4" '3', numbered 1 "3" '1']
        (ofTwo.apply [numbered 2 "4" '3', numbered 1 "3" '1']) :=
  ⟨by decide +kernel, (correct_apply_iff reachable_ofTwo (by decide +kernel)).mpr
    (by decide +kernel)⟩

/-- **A peer gets the address of one that is gone**, which stays in the table
and registered. -/
theorem gone_peer_stays : applies.Reachable ofTwo ∧ Valid [numbered 1 "2" '1'] ∧
      (ofTwo.apply [numbered 1 "2" '1']).peers.map (·.config.nodeId) = [1, 2] ∧
      (∃ c ∈ (ofTwo.apply [numbered 1 "2" '1']).delegatedTransport, c.hasPeer (replicate 32 0x22)) ∧
      ¬Correct [numbered 1 "2" '1'] (ofTwo.apply [numbered 1 "2" '1']) := by
  have hps : (ofTwo.apply [numbered 1 "2" '1']).peers.map (·.config.nodeId) = [1, 2] := by
    decide +kernel
  refine ⟨reachable_ofTwo.of_restrict, by decide +kernel, hps, by decide +kernel, fun h => ?_⟩
  have hlen := congrArg length hps
  have hes := h.entries.length_eq
  rw [length_map] at hlen hes
  cases hes

end PeerTable

end Tailgate
