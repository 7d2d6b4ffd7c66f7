import Tailgate.ExactCodes
import Tailgate.PumpScheduling

/-!
# The codecs of handoffs and pumps

Requests to hand over connections, their replies, acknowledgements of maps and
the schedules and calls of pumps are checked twice, before they are written and
after they are read, and the two checks are not the same code. They agree
(`codecs_exact`). The values have the widths of the program's.
-/

namespace Tailgate

open ExactCode List BigEndian

/-! ## Numbers -/

section Numbers

theorem value_bytes64 (n : UInt64) : value (bytes 8 n.toNat) = n.toNat :=
  value_bytes n.toNat_lt

variable {bs : Bytes} {n : UInt64}

theorem ofNat_ne_zero (h : bs.length = 8) (hne : value bs ≠ 0) : UInt64.ofNat (value bs) ≠ 0 := by
  intro hzero
  have hvl := congrArg UInt64.toNat hzero
  rw [UInt64.toNat_ofNat_of_lt' (eq_bytes_iff.mpr ⟨h, rfl⟩).2] at hvl
  exact hne hvl

theorem toNat_ne_zero (h : n ≠ 0) : n.toNat ≠ 0 :=
  fun hzero => h (UInt64.toNat_inj.mp hzero)

theorem toNat_eq_zero_iff : n.toNat = 0 ↔ n = 0 :=
  UInt64.toNat_inj (b := 0)

theorem number_iff : bs.length = 8 ∧ value bs ≠ 0 ∧ .ofNat (value bs) = n
      ↔ n ≠ 0 ∧ bs = bytes 8 n.toNat := by
  constructor
  · rintro ⟨hlen, hne, rfl⟩
    exact ⟨ofNat_ne_zero hlen hne, (bytes_uint64 hlen).symm⟩
  · rintro ⟨hne, rfl⟩
    rw [value_bytes64]
    exact ⟨length_bytes _ _, toNat_ne_zero hne, UInt64.ofNat_toNat⟩

end Numbers

/-! ## Acknowledgements, calls and schedules -/

theorem exact_mapAcknowledgement : Exact (fun n : UInt64 => encodeMapAcknowledgement n.toNat)
    (fun f => (decodeMapAcknowledgement f).map .ofNat) (· ≠ 0) := by
  refine .of_iff (fun n => ⟨.networkMapAck, bytes 8 n.toNat⟩)
    (fun n hn => if_neg (toNat_ne_zero hn)) (fun n hn => ⟨_, if_pos ?_⟩) fun n f => ?_
  · rw [not_not.mp hn]
    rfl
  · obtain ⟨type, pl⟩ := f
    unfold decodeMapAcknowledgement
    rw [Frame.mk.injEq, and_left_comm, ← number_iff]
    by_cases hfr : type ≠ .networkMapAck ∨ pl.length ≠ 8
    · rw [if_pos hfr]
      exact iff_of_false nofun fun h => hfr.elim (· h.1) (· h.2.1)
    · obtain ⟨hty, hlen⟩ := not_or.mp hfr
      rw [if_neg hfr]
      by_cases hzero : value pl = 0
      · rw [if_pos hzero]
        exact iff_of_false nofun fun h => h.2.2.1 hzero
      · rw [if_neg hzero, Option.map_some, Option.some_inj]
        exact ⟨fun h => ⟨not_not.mp hty, not_not.mp hlen, hzero, h⟩, fun h => h.2.2.2⟩

theorem exact_pumpReply : Exact (fun n : UInt64 => (encodePumpReply n.toNat).map Frame.payload)
      (fun pl => (tryDecodePumpReply pl).map .ofNat) (· ≠ 0) := by
  refine .of_iff (fun n => bytes 8 n.toNat) (fun n hn => ?_)
    (fun n hn => ⟨.invalidMessage, ?_⟩) fun n pl => ?_
  · rw [encodePumpReply_eq (toNat_ne_zero hn)]
    rfl
  · rw [not_not.mp hn]
    rfl
  · unfold tryDecodePumpReply
    rw [← number_iff]
    by_cases hlen : pl.length ≠ 8
    · rw [if_pos hlen]
      exact iff_of_false nofun fun h => hlen h.1
    · rw [if_neg hlen]
      by_cases hzero : value pl = 0
      · rw [if_pos hzero]
        exact iff_of_false nofun fun h => h.2.1 hzero
      · rw [if_neg hzero, Option.map_some, Option.some_inj]
        exact ⟨fun h => ⟨not_not.mp hlen, hzero, h⟩, fun h => h.2.2⟩

structure PumpRequest where
  requestId : UInt64
  delay : Option ℤ

namespace PumpRequest

def schedule (r : PumpRequest) : PumpSchedule := ⟨r.requestId.toNat, r.delay.map Int.toNat⟩

def ofSchedule (s : PumpSchedule) : PumpRequest := ⟨.ofNat s.requestId, s.delay.map Int.ofNat⟩

def encode (r : PumpRequest) : Except PumpError Frame :=
  if r.delay.any (· < 0) then .error .invalidMessage else encodePumpSchedule r.schedule

structure Valid (r : PumpRequest) : Prop where
  requestId_ne : r.requestId ≠ 0
  delay_le : ∀ delay ∈ r.delay, 0 ≤ delay ∧ delay ≤ maximumPumpDelay

variable {r : PumpRequest}

theorem Valid.schedule (h : r.Valid) : r.schedule.Valid where
  requestId_ne := toNat_ne_zero h.requestId_ne
  requestId_lt := r.requestId.toNat_lt
  delay_le := by
    intro _ hdl
    obtain ⟨d, hd, rfl⟩ := Option.map_eq_some_iff.mp hdl
    have hle := h.delay_le d hd
    omega

theorem Valid.ofSchedule_schedule (h : r.Valid) : ofSchedule r.schedule = r := by
  obtain ⟨_, delay⟩ := r
  unfold ofSchedule PumpRequest.schedule
  rw [UInt64.ofNat_toNat, Option.map_map]
  cases delay with
  | none => rfl
  | some d => exact congrArg (PumpRequest.mk _ ∘ some) (Int.toNat_of_nonneg (h.delay_le d rfl).1)

theorem encode_of_valid (h : r.Valid) : r.encode = .ok r.schedule.frame := by
  have hps : ¬r.delay.any (· < 0) := by
    simp only [Option.any_eq_true, decide_eq_true_eq, not_exists, not_and, not_lt]
    exact fun d hd => (h.delay_le d hd).1
  rw [encode, if_neg hps, PumpSchedule.encodePumpSchedule_eq h.schedule]

theorem encode_of_not_valid (h : ¬r.Valid) : r.encode = .error .invalidMessage := by
  unfold encode
  by_cases hng : r.delay.any (· < 0)
  · exact if_pos hng
  rw [if_neg hng]
  refine if_pos (not_not.mp fun hgd => h ?_)
  obtain ⟨hid, hln⟩ := not_or.mp hgd
  refine ⟨fun hzero => hid (congrArg UInt64.toNat hzero), fun d hd => ?_⟩
  simp only [schedule, Option.mem_def.mp hd, Option.map_some, Option.any_some,
    decide_eq_true_eq] at hng hln
  omega

theorem of_tryDecode {s : PumpSchedule} {pl : Bytes} (h : tryDecodePumpSchedule pl = some s) :
    (ofSchedule s).Valid ∧ pl = (ofSchedule s).schedule.frame.payload := by
  unfold tryDecodePumpSchedule at h
  split at h
  · cases h
  have hid : (pl.take 8).length = 8 := by
    rw [length_take]
    omega
  have hdl : (pl.drop 8).length = 4 := by
    rw [length_drop]
    omega
  have hby := (eq_bytes_iff.mpr ⟨hdl, rfl⟩).1
  dsimp only at h
  split at h
  · cases h
  rename_i hvd
  obtain ⟨hzero, hln⟩ := not_or.mp hvd
  cases h
  have hvl : ((if value (pl.drop 8) ≠ cancelDeadline then
      some (value (pl.drop 8)) else none).getD cancelDeadline) = value (pl.drop 8) := by
    split
    · rfl
    · rename_i hcn
      exact (not_not.mp hcn).symm
  refine ⟨⟨ofNat_ne_zero hid hzero, fun delay hmem => ?_⟩, ?_⟩
  · obtain ⟨_, hd, rfl⟩ := Option.map_eq_some_iff.mp hmem
    split at hd
    · rename_i hne
      cases hd
      exact ⟨Int.natCast_nonneg _, Int.ofNat_le.mpr (not_lt.mp fun hlt => hln ⟨hne, hlt⟩)⟩
    · cases hd
  · have hsm (delay : Option ℕ) : (delay.map Int.ofNat).map Int.toNat = delay := by
      cases delay <;> rfl
    unfold PumpSchedule.frame PumpRequest.schedule ofSchedule
    rw [hsm, hvl, bytes_uint64 hid, ← hby, take_append_drop]

end PumpRequest

theorem exact_pumpSchedule : Exact (fun r : PumpRequest => r.encode.map Frame.payload)
    (fun pl => (tryDecodePumpSchedule pl).map .ofSchedule)
    PumpRequest.Valid := by
  refine .of_iff (fun r => r.schedule.frame.payload) (fun r hr => ?_)
    (fun r hr => ⟨.invalidMessage, ?_⟩) fun r pl => ?_
  · rw [PumpRequest.encode_of_valid hr]
    rfl
  · rw [PumpRequest.encode_of_not_valid hr]
    rfl
  · rw [Option.map_eq_some_iff]
    constructor
    · rintro ⟨_, hs, rfl⟩
      exact PumpRequest.of_tryDecode hs
    · rintro ⟨hr, rfl⟩
      exact ⟨r.schedule, PumpSchedule.tryDecodePumpSchedule_frame hr.schedule,
        hr.ofSchedule_schedule⟩

/-! ## The heads of requests and replies -/

section Heads

def head (generation requestId mapRevision : UInt64) (x y : UInt8) (rest : Bytes) :
    Bytes :=
  bytes 8 generation.toNat ++ (bytes 8 requestId.toNat
    ++ (bytes 8 mapRevision.toNat ++ x :: y :: rest))

variable {bs rest : Bytes} {generation requestId mapRevision : UInt64} {x y : UInt8}

structure ReadsHead (bs : Bytes) (generation requestId mapRevision : UInt64) (x y : UInt8)
    (rest : Bytes) : Prop where
  length : bs.length = 26 + rest.length
  generation : value (bs.take 8) = generation.toNat
  requestId : value ((bs.drop 8).take 8) = requestId.toNat
  mapRevision : value ((bs.drop 16).take 8) = mapRevision.toNat
  first : bs.getD 24 0 = x
  second : bs.getD 25 0 = y
  rest : bs.drop 26 = rest

theorem readsHead_parts {a b c : Bytes} (ha : a.length = 8) (hb : b.length = 8)
    (hc : c.length = 8) (hag : value a = generation.toNat)
    (hbr : value b = requestId.toNat) (hcm : value c = mapRevision.toNat) :
    ReadsHead (a ++ (b ++ (c ++ x :: y :: rest))) generation requestId mapRevision x y rest where
  length := by
    simp only [length_append, length_cons, ha, hb, hc]
    omega
  generation := by rw [take_left' ha, hag]
  requestId := by rw [drop_left' ha, take_left' hb, hbr]
  mapRevision := by
    rw [← append_assoc, drop_left' (by rw [length_append, ha, hb]), take_left' hc, hcm]
  first := by simp [getD_eq_getElem?_getD, getElem?_append, ha, hb, hc]
  second := by simp [getD_eq_getElem?_getD, getElem?_append, ha, hb, hc]
  rest := by simp [drop_append, drop_of_length_le, ha, hb, hc]

theorem readsHead_head (generation requestId mapRevision : UInt64) (x y : UInt8)
    (rest : Bytes) :
    ReadsHead (head generation requestId mapRevision x y rest) generation requestId mapRevision x y
      rest :=
  readsHead_parts (length_bytes ..) (length_bytes ..)
    (length_bytes ..) (value_bytes64 _) (value_bytes64 _) (value_bytes64 _)

theorem exists_head (h : 26 ≤ bs.length) : ∃ generation requestId mapRevision x y rest,
    bs = head generation requestId mapRevision x y rest := by
  obtain ⟨a, b, c, hrs⟩ : ∃ a b c, bs = a ++ (b ++ (c ++ bs.drop 24))
      ∧ a.length = 8 ∧ b.length = 8 ∧ c.length = 8 := by
    refine ⟨bs.take 8, (bs.drop 8).take 8, (bs.drop 16).take 8, ?_, ?_, ?_, ?_⟩
    · rw [show bs.drop 24 = (bs.drop 16).drop 8 by rw [drop_drop], take_append_drop,
        show bs.drop 16 = (bs.drop 8).drop 8 by rw [drop_drop], take_append_drop,
        take_append_drop]
    all_goals simp only [length_take, length_drop]; omega
  obtain ⟨hbs, ha, hb, hc⟩ := hrs
  match hdr : bs.drop 24 with
  | x :: y :: rest =>
    refine ⟨.ofNat (value a), .ofNat (value b), .ofNat (value c), x, y, rest, ?_⟩
    rw [head, bytes_uint64 ha, bytes_uint64 hb, bytes_uint64 hc, ← hdr]
    exact hbs
  | [] | [_] =>
    have hlen := congrArg length hdr
    rw [length_drop] at hlen
    simp only [length_cons, length_nil] at hlen
    omega

def identity (generation requestId mapRevision : UInt64) : Except String Bytes :=
  if generation = 0 ∨ requestId = 0 ∨ mapRevision = 0 then
    .error "delegation identity must be nonzero"
  else
    .ok (bytes 8 generation.toNat ++ (bytes 8 requestId.toNat ++ bytes 8 mapRevision.toNat))

theorem identity_bind {type : MessageType}
    (h : ¬(generation = 0 ∨ requestId = 0 ∨ mapRevision = 0)) :
    (identity generation requestId mapRevision >>= fun bytes =>
        Except.ok (Frame.mk type (bytes ++ x :: y :: rest)))
      = .ok ⟨type, head generation requestId mapRevision x y rest⟩ := by
  rw [identity, if_neg h]
  exact congrArg (fun pl => Except.ok (Frame.mk type pl))
    ((append_assoc _ _ _).trans (congrArg (_ ++ ·) (append_assoc _ _ _)))

theorem checked_bind_error {bad : Prop} [Decidable bad] {e : String}
    {f : Bytes → Except String Frame}
    (h : ¬(¬bad ∧ ¬(generation = 0 ∨ requestId = 0 ∨ mapRevision = 0))) :
    ∃ e', (if bad then .error e else identity generation requestId mapRevision >>= f)
      = .error e' := by
  by_cases hbd : bad
  · exact ⟨e, if_pos hbd⟩
  · rw [if_neg hbd, identity, if_pos (not_not.mp fun hiy => h ⟨hbd, hiy⟩)]
    exact ⟨_, rfl⟩

end Heads

/-! ## Regions -/

section Regions

theorem cons_cons_eq_iff {high low : UInt8} {rest tail : Bytes} {n : ℕ} :
    high :: low :: rest = bytes 2 n ++ tail ∧ n < 256 ^ 2
      ↔ high.toNat * 256 + low.toNat = n ∧ rest = tail := by
  have hvl : value [high, low] = high.toNat * 256 + low.toNat := by
    simp [value, valueFrom]
  have hpr : [high, low] = bytes 2 n ∧ n < 256 ^ 2 ↔ _ := eq_bytes_iff
  rw [hvl] at hpr
  constructor
  · rintro ⟨h, hn⟩
    obtain ⟨hft, hrs⟩ := append_inj (show [high, low] ++ rest = _ from h) (length_bytes 2 n).symm
    exact ⟨(hpr.mp ⟨hft, hn⟩).2, hrs⟩
  · rintro ⟨hn, rfl⟩
    obtain ⟨hft, hlt⟩ := hpr.mpr ⟨rfl, hn⟩
    exact ⟨by rw [← hft]; rfl, hlt⟩

/-- **Regions** are read as they are written, if each is above the one before it. -/
theorem decodeRegions_iff {prev : ℕ} {bs : Bytes} {regions : List ℕ} :
    decodeRegions prev bs = some regions ↔ bs = regions.flatMap (bytes 2)
      ∧ (prev :: regions).IsChain (· < ·) ∧ ∀ region ∈ regions, region < 256 ^ 2 := by
  fun_induction decodeRegions prev bs generalizing regions with
  | case1 =>
    cases regions with
    | nil => simp
    | cons => exact iff_of_false nofun fun h => nomatch h.1
  | case2 =>
    cases regions with
    | nil | cons => exact iff_of_false nofun fun h => nomatch h.1
  | case3 =>
    refine iff_of_false nofun fun ⟨hbs, hcn, hlt⟩ => ?_
    cases regions with
    | nil => cases hbs
    | cons region =>
      have hrg := (cons_cons_eq_iff.mp ⟨hbs, hlt region mem_cons_self⟩).1
      have hab := (isChain_cons_cons.mp hcn).1
      omega
  | case4 =>
    rename_i hle ih
    rw [Option.bind_eq_bind, Option.bind_eq_some_iff]
    cases regions with
    | nil => exact iff_of_false (fun ⟨_, _, h⟩ => nomatch h) fun h => nomatch h.1
    | cons _ regions =>
      rw [flatMap_cons, isChain_cons_cons, forall_mem_cons]
      constructor
      · rintro ⟨_, hrs, ⟨⟩⟩
        obtain ⟨hbs, hcn, hlt⟩ := ih.mp hrs
        obtain ⟨hft, hnm⟩ := cons_cons_eq_iff.mpr ⟨rfl, hbs⟩
        exact ⟨hft, ⟨not_le.mp hle, hcn⟩, hnm, hlt⟩
      · rintro ⟨hbs, ⟨-, hcn⟩, hnm, hlt⟩
        obtain ⟨rfl, hrs⟩ := cons_cons_eq_iff.mp ⟨hbs, hnm⟩
        exact ⟨regions, ih.mpr ⟨hrs, hcn, hlt⟩, rfl⟩

end Regions

/-! ## Requests -/

section Requests

def DelegationAction.code : DelegationAction → UInt8
  | .prepare => 0
  | .release => 1
  | .acquire => 2
  | .commit => 3

variable {n : UInt8}

theorem DelegationAction.ofCode_iff {act : DelegationAction} :
    ofCode n.toNat = some act ↔ n = act.code := by
  constructor
  · intro h
    unfold ofCode at h
    split at h <;> cases h <;> exact UInt8.toNat_inj.mp ‹_›
  · rintro rfl
    cases act <;> rfl

theorem DelegationAction.le_iff : n ≤ 3 ↔ ∃ act : DelegationAction, n = act.code := by
  constructor
  · intro h
    have hn : n.toNat ≤ 3 := h
    interval_cases hco : n.toNat
    all_goals exact ⟨_, DelegationAction.ofCode_iff.mp (congrArg ofCode hco)⟩
  · rintro ⟨act, rfl⟩
    cases act <;> decide

structure RequestValue where
  generation : UInt64
  requestId : UInt64
  mapRevision : UInt64
  action : UInt8
  regions : List UInt16

namespace RequestValue

def ofRequest (r : DelegationRequest) : RequestValue where
  generation := .ofNat r.generation
  requestId := .ofNat r.requestId
  mapRevision := .ofNat r.mapRevision
  action := r.action.code
  regions := r.regions.map .ofNat

def regionBytes (r : RequestValue) : Bytes :=
  r.regions.flatMap fun region => bytes 2 region.toNat

def encode (r : RequestValue) : Except String Frame :=
  if r.regions = [] ∨ 255 < r.regions.length ∨ ¬r.regions.IsChain (· ≤ ·)
      ∨ ¬r.regions.IsChain (· ≠ ·) ∨ r.regions.head? = some 0 ∨ 3 < r.action then
    .error "invalid delegation request"
  else do
    let bytes ← identity r.generation r.requestId r.mapRevision
    .ok ⟨.delegation, bytes ++ r.action :: .ofNat r.regions.length :: r.regionBytes⟩

/-- A *valid* request: 1 to 255 regions, strictly increasing and not zero, numbers
that are not zero, and an action there is. -/
structure Valid (r : RequestValue) : Prop where
  regions_ne : r.regions ≠ []
  regions_le : r.regions.length ≤ 255
  increasing : r.regions.IsChain (· < ·)
  nonzero : ∀ region ∈ r.regions, region ≠ 0
  identity : ¬(r.generation = 0 ∨ r.requestId = 0 ∨ r.mapRevision = 0)
  action_le : r.action ≤ 3

def frame (r : RequestValue) : Frame :=
  ⟨.delegation, head r.generation r.requestId r.mapRevision r.action (.ofNat r.regions.length)
    r.regionBytes⟩

variable {r : RequestValue} {rs : List UInt16}

/-- Regions that increase are those that are sorted and of which no two neighbours are
the same. -/
theorem isChain_lt_iff : rs.IsChain (· < ·) ↔ rs.IsChain (· ≤ ·) ∧ rs.IsChain (· ≠ ·) := by
  simp only [isChain_iff_getElem, UInt16.lt_iff_le_and_ne, forall_and]

theorem isChain_zero_iff :
    (0 :: rs).IsChain (· < ·) ↔ rs.IsChain (· < ·) ∧ ∀ region ∈ rs, region ≠ 0 := by
  simp only [isChain_iff_pairwise, pairwise_cons, UInt16.pos_iff_ne_zero]
  exact and_comm

theorem isChain_toNat_iff : (0 :: rs.map UInt16.toNat).IsChain (· < ·)
    ↔ rs.IsChain (· < ·) ∧ ∀ region ∈ rs, region ≠ 0 := by
  rw [← isChain_zero_iff, ← UInt16.toNat_zero, ← map_cons, isChain_map]
  rfl

theorem valid_iff : r.Valid ↔ ¬(r.regions = [] ∨ 255 < r.regions.length
    ∨ ¬r.regions.IsChain (· ≤ ·) ∨ ¬r.regions.IsChain (· ≠ ·) ∨ r.regions.head? = some 0
      ∨ 3 < r.action) ∧ ¬(r.generation = 0 ∨ r.requestId = 0 ∨ r.mapRevision = 0) := by
  have hzero : (r.regions.head? ≠ some 0 ∧ r.regions.IsChain (· < ·))
      ↔ r.regions.IsChain (· < ·) ∧ ∀ region ∈ r.regions, region ≠ 0 := by
    rw [← isChain_zero_iff, isChain_cons]
    refine and_congr_left fun _ => ⟨fun h y hy => ?_, fun h hy => ?_⟩
    · exact UInt16.pos_iff_ne_zero.mpr fun hy0 => h (hy0 ▸ hy)
    · exact UInt16.pos_iff_ne_zero.mp (h 0 hy) rfl
  simp only [not_or, not_not, not_lt, UInt8.not_lt]
  constructor
  · intro h
    obtain ⟨hle, hne⟩ := isChain_lt_iff.mp h.increasing
    exact ⟨⟨h.regions_ne, h.regions_le, hle, hne, (hzero.mpr ⟨h.increasing, h.nonzero⟩).1,
      h.action_le⟩, by simpa only [not_or] using h.identity⟩
  · rintro ⟨⟨hrg, hlen, hle, hne, hhd, hac⟩, hiy⟩
    obtain ⟨hin, hnz⟩ := hzero.mp ⟨hhd, isChain_lt_iff.mpr ⟨hle, hne⟩⟩
    exact ⟨hrg, hlen, hin, hnz, by simpa only [not_or] using hiy, hac⟩

theorem encode_of_valid (h : r.Valid) : r.encode = .ok r.frame := by
  obtain ⟨hgd, hiy⟩ := valid_iff.mp h
  rw [encode, if_neg hgd]
  exact identity_bind hiy

theorem encode_of_not_valid (h : ¬r.Valid) : ∃ e, r.encode = .error e :=
  checked_bind_error (mt valid_iff.mpr h)

theorem length_regionBytes : r.regionBytes.length = r.regions.length * 2 := by
  simp [regionBytes, length_flatMap]

theorem decode_head_iff {type : MessageType} {generation requestId mapRevision : UInt64}
    {x y : UInt8} {rest : Bytes} {req : DelegationRequest} :
    decodeDelegationRequest ⟨type, head generation requestId mapRevision x y rest⟩ = some req
      ↔ ∃ act regions, req = ⟨generation.toNat, requestId.toNat, mapRevision.toNat, act, regions⟩
        ∧ type = .delegation ∧ x = act.code ∧ (y.toNat ≠ 0 ∧ rest.length = y.toNat * 2)
        ∧ ¬(generation = 0 ∨ requestId = 0 ∨ mapRevision = 0)
        ∧ decodeRegions 0 rest = some regions := by
  have h := readsHead_head generation requestId mapRevision x y rest
  simp only [decodeDelegationRequest, h.first, h.second, h.generation, h.requestId, h.mapRevision,
    h.rest, h.length, Option.bind_eq_bind, Option.ite_none_left_eq_some, Option.bind_eq_some_iff,
    DelegationAction.ofCode_iff, toNat_eq_zero_iff, Option.some_inj]
  constructor
  · rintro ⟨hty, act, hac, hct, hiy, regions, hrg, rfl⟩
    obtain ⟨hzero, _⟩ := not_or.mp hct
    exact ⟨act, regions, rfl, not_not.mp (not_or.mp hty).1, hac, ⟨hzero, by omega⟩, hiy, hrg⟩
  · rintro ⟨act, regions, rfl, hty, hac, ⟨hzero, _⟩, hiy, hrg⟩
    exact ⟨not_or.mpr ⟨not_not.mpr hty, by omega⟩, act, hac,
      not_or.mpr ⟨hzero, by omega⟩, hiy, regions, hrg, rfl⟩

theorem map_toNat_ofNat {regions : List ℕ} (h : ∀ region ∈ regions, region < 256 ^ 2) :
    (regions.map UInt16.ofNat).map UInt16.toNat = regions := by
  rw [map_map]
  exact (map_congr_left fun region hrg =>
    UInt16.toNat_ofNat_of_lt' (h region hrg)).trans (map_id regions)

/-- **A request is read** just when it is valid and the frame is the one that is
written for it. -/
theorem decode_iff {f : Frame} :
    (decodeDelegationRequest f).map ofRequest = some r ↔ r.Valid ∧ f = r.frame := by
  rw [Option.map_eq_some_iff]
  constructor
  · rintro ⟨_, hrq, rfl⟩
    obtain ⟨_, bs⟩ := f
    have hlen : 26 ≤ bs.length := by
      by_contra hsh
      rw [decodeDelegationRequest, if_pos (.inr (not_le.mp hsh))] at hrq
      cases hrq
    obtain ⟨generation, requestId, mapRevision, _, y, _, rfl⟩ := exists_head hlen
    obtain ⟨act, regions, rfl, rfl, rfl, ⟨hct, hrs⟩, hiy, hrg⟩ :=
      decode_head_iff.mp hrq
    obtain ⟨rfl, hcn, hlt⟩ := decodeRegions_iff.mp hrg
    have hwd := map_toNat_ofNat hlt
    obtain ⟨hin, hnz⟩ := isChain_toNat_iff.mp (hwd.symm ▸ hcn)
    have hby : regions.flatMap (bytes 2)
        = (regions.map UInt16.ofNat).flatMap fun region => bytes 2 region.toNat := by
      conv_lhs => rw [← hwd]
      rw [flatMap_map]
    have hsz : regions.length = y.toNat := by
      simp only [length_flatMap, length_bytes, map_const', sum_replicate, smul_eq_mul] at hrs
      omega
    have hvl : ofRequest ⟨generation.toNat, requestId.toNat, mapRevision.toNat, act, regions⟩
        = ⟨generation, requestId, mapRevision, act.code, regions.map UInt16.ofNat⟩ := by
      simp only [ofRequest, UInt64.ofNat_toNat]
    rw [hvl]
    have hac := DelegationAction.le_iff.mpr ⟨act, rfl⟩
    refine ⟨⟨?_, ?_, hin, hnz, hiy, hac⟩, ?_⟩
    · intro hnil
      exact hct (hsz ▸ length_eq_zero_iff.mpr (map_eq_nil_iff.mp hnil))
    · rw [length_map, hsz]
      exact Nat.le_of_lt_succ y.toNat_lt
    · rw [frame, length_map, hsz, UInt8.ofNat_toNat, hby]
      rfl
  · rintro ⟨h, rfl⟩
    obtain ⟨act, hac⟩ := DelegationAction.le_iff.mp h.action_le
    refine ⟨⟨r.generation.toNat, r.requestId.toNat, r.mapRevision.toNat, act,
      r.regions.map UInt16.toNat⟩, decode_head_iff.mpr
        ⟨act, _, rfl, rfl, hac, ?_, h.identity, ?_⟩, ?_⟩
    · have hct := length_pos_of_ne_nil h.regions_ne
      have hlen : (UInt8.ofNat r.regions.length).toNat = r.regions.length :=
        UInt8.toNat_ofNat_of_lt' (Nat.lt_succ_of_le h.regions_le)
      rw [hlen, length_regionBytes]
      exact ⟨hct.ne', rfl⟩
    · refine decodeRegions_iff.mpr ⟨(flatMap_map ..).symm, ?_, ?_⟩
      · exact isChain_toNat_iff.mpr ⟨h.increasing, h.nonzero⟩
      · simp only [forall_mem_map]
        exact fun region _ => region.toNat_lt
    · simp [ofRequest, ← hac, Function.comp_def]

end RequestValue

theorem exact_request : Exact RequestValue.encode
    (fun f => (decodeDelegationRequest f).map .ofRequest) RequestValue.Valid :=
  .of_iff RequestValue.frame (fun _ => RequestValue.encode_of_valid)
    (fun _ => RequestValue.encode_of_not_valid) fun _ _ => RequestValue.decode_iff

end Requests

/-! ## Replies -/

section Replies

def DelegationStatus.code : DelegationStatus → UInt8
  | .prepared => 0
  | .released => 1
  | .ready => 2
  | .committed => 3
  | .failed => 4

def DelegationFailure.code : DelegationFailure → UInt8
  | .none => 0
  | .staleGeneration => 1
  | .staleMap => 2
  | .invalidState => 3
  | .unknownRegion => 4
  | .leaseExpired => 5

variable {n : UInt8}

theorem DelegationStatus.ofCode_iff {st : DelegationStatus} :
    ofCode n.toNat = some st ↔ n = st.code := by
  constructor
  · intro h
    unfold ofCode at h
    split at h <;> cases h <;> exact UInt8.toNat_inj.mp ‹_›
  · rintro rfl
    cases st <;> rfl

theorem DelegationFailure.ofCode_iff {fail : DelegationFailure} :
    ofCode n.toNat = some fail ↔ n = fail.code := by
  constructor
  · intro h
    unfold ofCode at h
    split at h <;> cases h <;> exact UInt8.toNat_inj.mp ‹_›
  · rintro rfl
    cases fail <;> rfl

theorem DelegationStatus.le_iff : n ≤ 4 ↔ ∃ st : DelegationStatus, n = st.code := by
  constructor
  · intro h
    have hn : n.toNat ≤ 4 := h
    interval_cases hco : n.toNat
    all_goals exact ⟨_, DelegationStatus.ofCode_iff.mp (congrArg ofCode hco)⟩
  · rintro ⟨st, rfl⟩
    cases st <;> decide

theorem DelegationFailure.le_iff : n ≤ 5 ↔ ∃ fail : DelegationFailure, n = fail.code := by
  constructor
  · intro h
    have hn : n.toNat ≤ 5 := h
    interval_cases hco : n.toNat
    all_goals exact ⟨_, DelegationFailure.ofCode_iff.mp (congrArg ofCode hco)⟩
  · rintro ⟨fail, rfl⟩
    cases fail <;> decide

/-- A reply as the program has it: its status and its failure are any bytes. -/
structure ReplyValue where
  generation : UInt64
  requestId : UInt64
  mapRevision : UInt64
  status : UInt8
  failure : UInt8

namespace ReplyValue

def ofReply (r : DelegationReply) : ReplyValue where
  generation := .ofNat r.generation
  requestId := .ofNat r.requestId
  mapRevision := .ofNat r.mapRevision
  status := r.status.code
  failure := r.failure.code

def encode (r : ReplyValue) : Except String Frame :=
  if 4 < r.status ∨ 5 < r.failure ∨ (r.status == 4) ≠ (r.failure != 0) then
    .error "invalid delegation reply"
  else do
    let bytes ← identity r.generation r.requestId r.mapRevision
    .ok ⟨.delegationReply, bytes ++ [r.status, r.failure]⟩

structure Valid (r : ReplyValue) : Prop where
  status_le : r.status ≤ 4
  failure_le : r.failure ≤ 5
  consistent : r.status = 4 ↔ r.failure ≠ 0
  identity : ¬(r.generation = 0 ∨ r.requestId = 0 ∨ r.mapRevision = 0)

def frame (r : ReplyValue) : Frame :=
  ⟨.delegationReply, head r.generation r.requestId r.mapRevision r.status r.failure []⟩

variable {r : ReplyValue}

theorem valid_iff : r.Valid ↔ ¬(4 < r.status ∨ 5 < r.failure ∨ (r.status == 4) ≠ (r.failure != 0))
    ∧ ¬(r.generation = 0 ∨ r.requestId = 0 ∨ r.mapRevision = 0) := by
  have hsm : (r.status == 4) = (r.failure != 0) ↔ (r.status = 4 ↔ r.failure ≠ 0) := by
    rw [Bool.eq_iff_iff, beq_iff_eq, bne_iff_ne]
  rw [not_or, not_or, UInt8.not_lt, UInt8.not_lt, not_not, hsm]
  exact ⟨fun h => ⟨⟨h.status_le, h.failure_le, h.consistent⟩, h.identity⟩,
    fun h => ⟨h.1.1, h.1.2.1, h.1.2.2, h.2⟩⟩

theorem encode_of_valid (h : r.Valid) : r.encode = .ok r.frame := by
  obtain ⟨hgd, hiy⟩ := valid_iff.mp h
  rw [encode, if_neg hgd]
  exact identity_bind hiy

theorem encode_of_not_valid (h : ¬r.Valid) : ∃ e, r.encode = .error e :=
  checked_bind_error (mt valid_iff.mpr h)

theorem code_consistent {st : DelegationStatus} {fail : DelegationFailure} :
    (st == .failed) = (fail != .none) ↔ (st.code = 4 ↔ fail.code ≠ 0) := by
  cases st <;> cases fail <;> decide

theorem decode_head_iff {type : MessageType} {generation requestId mapRevision : UInt64}
    {x y : UInt8} {rest : Bytes} {reply : DelegationReply} :
    decodeDelegationReply ⟨type, head generation requestId mapRevision x y rest⟩ = some reply
      ↔ ∃ st fail, reply = ⟨generation.toNat, requestId.toNat, mapRevision.toNat, st, fail⟩
        ∧ type = .delegationReply ∧ rest = [] ∧ x = st.code ∧ y = fail.code
        ∧ ¬(generation = 0 ∨ requestId = 0 ∨ mapRevision = 0)
        ∧ (st.code = 4 ↔ fail.code ≠ 0) := by
  have h := readsHead_head generation requestId mapRevision x y rest
  simp only [decodeDelegationReply, h.first, h.second, h.generation, h.requestId, h.mapRevision,
    h.length, Option.bind_eq_bind, Option.ite_none_left_eq_some, Option.bind_eq_some_iff,
    DelegationStatus.ofCode_iff, DelegationFailure.ofCode_iff, toNat_eq_zero_iff, Option.some_inj,
    ← code_consistent, not_or, ne_eq, not_not, Nat.add_eq_left, length_eq_zero_iff]
  constructor
  · rintro ⟨⟨hty, hrs⟩, st, hss, fail, hfl, ⟨hg, hr, hm, hsm⟩, rfl⟩
    exact ⟨st, fail, rfl, hty, hrs, hss, hfl, ⟨hg, hr, hm⟩, hsm⟩
  · rintro ⟨st, fail, rfl, hty, hrs, hss, hfl, ⟨hg, hr, hm⟩, hsm⟩
    exact ⟨⟨hty, hrs⟩, st, hss, fail, hfl, ⟨hg, hr, hm, hsm⟩, rfl⟩

theorem decode_iff {f : Frame} :
    (decodeDelegationReply f).map ofReply = some r ↔ r.Valid ∧ f = r.frame := by
  rw [Option.map_eq_some_iff]
  constructor
  · rintro ⟨_, hrp, rfl⟩
    obtain ⟨_, bs⟩ := f
    have hlen : bs.length = 26 := by
      by_contra hot
      rw [decodeDelegationReply, if_pos (.inr hot)] at hrp
      cases hrp
    obtain ⟨_, _, _, _, _, _, rfl⟩ := exists_head hlen.ge
    obtain ⟨st, fail, rfl, rfl, rfl, rfl, rfl, hiy, hsm⟩ :=
      decode_head_iff.mp hrp
    simp only [ofReply, UInt64.ofNat_toNat]
    exact ⟨⟨DelegationStatus.le_iff.mpr ⟨st, rfl⟩, DelegationFailure.le_iff.mpr ⟨fail, rfl⟩,
      hsm, hiy⟩, rfl⟩
  · rintro ⟨h, rfl⟩
    obtain ⟨_, _, _, _, _⟩ := r
    obtain ⟨st, rfl⟩ := DelegationStatus.le_iff.mp h.status_le
    obtain ⟨fail, rfl⟩ := DelegationFailure.le_iff.mp h.failure_le
    refine ⟨_, decode_head_iff.mpr
      ⟨st, fail, rfl, rfl, rfl, rfl, rfl, h.identity, h.consistent⟩, ?_⟩
    simp only [ofReply, UInt64.ofNat_toNat]

end ReplyValue

theorem exact_reply : Exact ReplyValue.encode
    (fun f => (decodeDelegationReply f).map .ofReply) ReplyValue.Valid :=
  .of_iff ReplyValue.frame (fun _ => ReplyValue.encode_of_valid)
    (fun _ => ReplyValue.encode_of_not_valid) fun _ _ => ReplyValue.decode_iff

end Replies

/-- **The codecs are exact.** Of requests, replies, acknowledgements, schedules and
calls, just the valid ones are written; what is written is read as it was, what is read
is written as it was, and there is one text for each valid value. -/
theorem codecs_exact :
    Exact RequestValue.encode (fun f => (decodeDelegationRequest f).map RequestValue.ofRequest)
        RequestValue.Valid
      ∧ Exact ReplyValue.encode (fun f => (decodeDelegationReply f).map ReplyValue.ofReply)
        ReplyValue.Valid
      ∧ Exact (fun n : UInt64 => encodeMapAcknowledgement n.toNat)
        (fun f => (decodeMapAcknowledgement f).map .ofNat) (· ≠ 0)
      ∧ Exact (fun r : PumpRequest => r.encode.map Frame.payload)
        (fun payload => (tryDecodePumpSchedule payload).map .ofSchedule)
        PumpRequest.Valid
      ∧ Exact (fun n : UInt64 => (encodePumpReply n.toNat).map Frame.payload)
        (fun payload => (tryDecodePumpReply payload).map .ofNat) (· ≠ 0) :=
  ⟨exact_request, exact_reply, exact_mapAcknowledgement, exact_pumpSchedule, exact_pumpReply⟩

end Tailgate
