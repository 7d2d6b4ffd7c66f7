import Tailgate.ControlConnection
import Tailgate.PartialReads
import Tailgate.TransitionSystem

/-!
# How what arrives is read

Whatever the client calls, four things happen to what arrives: a request puts
it aside, or takes frames off the buffer; the search for maps takes frames off
it; or something is only put there. `ReadStep` is these four, and every method
comes to a sequence of them.

What a reader does with its frames is said once, in `Reader.stops`,
`Reader.answers`, `Reader.decodes` and `Reader.keeps`. What it does not get to
is lost.
-/

namespace Tailgate

open Procedure H2Codec PartialReads List

/-! ## What a reader does with a batch -/

variable (streamId : ℕ) (frames : List H2Frame)

def headerBlocks : List Bytes :=
  (frames.filter fun frame => frame.type = .headers).map H2Frame.payload

def dataBytes : Bytes :=
  (frames.filter fun frame => frame.type = .data).flatMap H2Frame.payload

def isOn (frame : H2Frame) : Bool := streamId != 0 && frame.streamId == streamId

def onStream : List H2Frame := frames.filter (isOn streamId)

/-- Whether a frame closes the connection: it says so, or is a ping that has
another size. -/
def closesConnection (frame : H2Frame) : Bool :=
  frame.type = .goAway || frame.type = .ping && !frame.endOrAck && frame.payload.length != 8

def endsStream (frame : H2Frame) : Bool := isOn streamId frame && frame.endOrAck

def endsSearch (frame : H2Frame) : Bool :=
  closesConnection frame || endsStream streamId frame

namespace Reader

def stops : Reader → H2Frame → Bool
  | request streamId => ControlConnection.endsResponse streamId
  | map streamId => endsSearch streamId

/-- Whether something is sent in answer to a frame: that settings or a ping have
been seen, or that the window may move. -/
def answers : Reader → H2Frame → Bool
  | request _, frame => frame.type = .settings && !frame.endOrAck
  | map streamId, frame =>
    (frame.type = .settings || frame.type = .ping) && !frame.endOrAck ||
      frame.type = .data && isOn streamId frame && !frame.payload.isEmpty

/-- Whether a reader gets no further than a frame. -/
def halts (r : Reader) (frame : H2Frame × Bool) : Bool :=
  r.stops frame.1 || r.answers frame.1 && !frame.2

def decodes : Reader → H2Frame → Bool
  | request _, frame => frame.type = .headers
  | map streamId, frame => frame.type = .headers && isOn streamId frame

def keeps : Reader → H2Frame → Bool
  | request _, _ => false
  | map streamId, frame => frame.type = .data && isOn streamId frame

end Reader

namespace Batch

def read (b : Batch) : List H2Frame := (through b.reader.halts b.answered).map Prod.fst

def decoded (b : Batch) : List Bytes :=
  (b.read.filter b.reader.decodes).map H2Frame.payload

def appended (b : Batch) : Bytes := (b.read.filter b.reader.keeps).flatMap H2Frame.payload

end Batch

variable (t : Trace)

def Trace.read (b : Batch) : Trace :=
  { t with
    batches := t.batches ++ [b]
    decoded := t.decoded ++ b.decoded
    appended := t.appended ++ b.appended }

def Trace.receive (plaintext : Bytes) : Trace :=
  { t with arrived := t.arrived ++ plaintext }

def Trace.decoding (frames : List H2Frame) : Trace :=
  { t with decoded := t.decoded ++ headerBlocks frames }

def Trace.keeping (frames : List H2Frame) : Trace :=
  { t with
    decoded := t.decoded ++ headerBlocks frames
    appended := t.appended ++ dataBytes frames }

theorem headerBlocks_cons (frame : H2Frame) (frames : List H2Frame) :
    headerBlocks (frame :: frames) = headerBlocks [frame] ++ headerBlocks frames := by
  unfold headerBlocks
  rw [← map_append, ← filter_append, singleton_append]

theorem Trace.decoding_cons (frame : H2Frame) (frames : List H2Frame) :
    t.decoding (frame :: frames) = (t.decoding [frame]).decoding frames := by
  unfold Trace.decoding
  rw [headerBlocks_cons, append_assoc]

def Trace.searching (streamId : ℕ) (frames : List H2Frame) : Trace :=
  t.keeping (onStream streamId frames)

theorem Trace.searching_cons (streamId : ℕ) (frame : H2Frame) (frames : List H2Frame) :
    t.searching streamId (frame :: frames) =
      (t.searching streamId [frame]).searching streamId frames := by
  have hap : onStream streamId (frame :: frames) =
      onStream streamId [frame] ++ onStream streamId frames := by
    unfold onStream
    rw [← filter_append, singleton_append]
  have hkp (fs gs : List H2Frame) : t.keeping (fs ++ gs) = (t.keeping fs).keeping gs := by
    unfold Trace.keeping headerBlocks dataBytes
    simp only [filter_append, map_append, flatMap_append, append_assoc]
  unfold Trace.searching
  rw [hap, hkp]

/-! ## Maps in what is kept -/

namespace MapStreamResponse

variable {body : Bytes}

theorem mapSize_append (h : mapLengthSize ≤ body.length) (more : Bytes) :
    mapSize (body ++ more) = mapSize body := by
  unfold mapSize
  rw [take_append_of_le_length h]

theorem takeMap_eq_some_iff {maximumSize : ℕ} {map rest : Bytes} :
    takeMap maximumSize body = .ok (some (map, rest)) ↔
      mapLengthSize + mapSize body ≤ body.length ∧
        ¬(mapSize body = 0 ∨ maximumSize < mapSize body) ∧
        map = (body.drop mapLengthSize).take (mapSize body) ∧
        rest = body.drop (mapLengthSize + mapSize body) := by
  unfold takeMap
  constructor
  · intro h
    split_ifs at h with hsh hin hpr
    · cases h
    · cases h
    · cases h
      exact ⟨not_lt.mp hpr, hin, rfl, rfl⟩
  · rintro ⟨_, hvd, rfl, rfl⟩
    rw [if_neg (by omega), if_neg hvd, if_neg (by omega)]

/-- **The maps in the body of a stream.** -/
def framing : Framing UInt8 Bytes where
  take body :=
    match takeMap maximumStreamingMapSize body with
    | .ok (some result) => some result
    | _ => none
  shrinks := by
    intro _ _ _ h
    split at h
    · next hmap =>
      cases h
      obtain ⟨hwhole, -, -, rfl⟩ := takeMap_eq_some_iff.mp hmap
      rw [length_drop]
      unfold mapLengthSize at hwhole ⊢
      omega
    · cases h
  stable := by
    intro body _ _ h more
    split at h
    · next hmap =>
      cases h
      obtain ⟨hwhole, hvalid, rfl, rfl⟩ := takeMap_eq_some_iff.mp hmap
      have hsize := mapSize_append (by omega : mapLengthSize ≤ body.length) more
      have htaken : takeMap maximumStreamingMapSize (body ++ more) =
          .ok (some ((body.drop mapLengthSize).take (mapSize body),
            body.drop (mapLengthSize + mapSize body) ++ more)) := by
        refine takeMap_eq_some_iff.mpr ⟨?_, ?_, ?_, ?_⟩
        · rw [hsize, length_append]
          omega
        · rw [hsize]
          exact hvalid
        · rw [hsize, drop_append_of_le_length (by omega),
            take_append_of_le_length (by rw [length_drop]; omega)]
        · rw [hsize, drop_append_of_le_length hwhole]
      rw [htaken]
    · cases h

end MapStreamResponse

/-! ## Steps -/

structure View where
  trace : Trace
  buffer : Bytes
  stream : ℕ

/-- **What can happen to what arrives.** -/
inductive ReadStep : View → View → Prop
  | dropped {t : Trace} {m : ℕ} {plaintext : Bytes}
      (h : ControlConnection.looksLikeH2 plaintext = false) :
      ReadStep ⟨t, [], m⟩ ⟨{ t.receive plaintext with dropped := t.dropped ++ [plaintext] }, [], m⟩
  | requested {t : Trace} {buffer : Bytes} {m : ℕ} {answered : List (H2Frame × Bool)}
      (streamId : ℕ) (plaintext : Bytes)
      (h : answered.map Prod.fst = (takeCompleteFrames (buffer ++ plaintext)).1) :
      ReadStep ⟨t, buffer, m⟩ ⟨(t.receive plaintext).read ⟨.request streamId, answered⟩,
          (takeCompleteFrames (buffer ++ plaintext)).2, m⟩
  | inserted {t : Trace} {buffer : Bytes} {m : ℕ} (plaintext : Bytes) :
      ReadStep ⟨t, buffer, m⟩ ⟨t.receive plaintext, buffer ++ plaintext, m⟩
  /-- The search for maps goes through the frames in the buffer. -/
  | searched {t : Trace} {buffer : Bytes} {m : ℕ} {answered : List (H2Frame × Bool)}
      (h : answered.map Prod.fst = (takeCompleteFrames buffer).1) :
      ReadStep ⟨t, buffer, m⟩ ⟨t.read ⟨.map m, answered⟩, (takeCompleteFrames buffer).2, m⟩

namespace ControlConnection

open Trace

variable {δ γ : Type}

def view (c : ControlConnection δ γ) : View := ⟨c.trace, c.h2Buffer, c.mapResponse.streamId⟩

variable (decode : Bytes → δ → Option H2Headers × δ)

/-- The decoder of headers has been given what the trace says, one after
another. -/
def Decoding (d₀ : δ) (c : ControlConnection δ γ) : Prop :=
  c.headerDecoder = c.trace.decoded.foldl (fun d payload => (decode payload d).2) d₀

/-- The body of the stream of maps is what is left, after some maps, of what
has been put behind it. -/
def Aligned (c : ControlConnection δ γ) : Prop :=
  MapStreamResponse.framing.Rest c.trace.appended c.mapResponse.body

structure At (d₀ : δ) (v : View) (c : ControlConnection δ γ) : Prop where
  view_eq : c.view = v
  decoding : Decoding decode d₀ c
  /-- The body of the stream of maps. -/
  aligned : Aligned c

/-! ## Reading a batch -/

variable {decode} {d₀ : δ} {v : View} {t : Trace} {buffer : Bytes} {m : ℕ}
  {c : ControlConnection δ γ} {E : ControlError → ControlConnection δ γ → Prop} {frame : H2Frame}

theorem At.mk_view (h : At decode d₀ v c) :
    c.trace = v.trace ∧ c.h2Buffer = v.buffer ∧ c.mapResponse.streamId = v.stream := by
  rw [← h.view_eq]
  exact ⟨rfl, rfl, rfl⟩

theorem meets_decodeHeaders (pl : Bytes) :
    Meets (At decode d₀ ⟨t, buffer, m⟩) (decodeHeaders decode pl)
      (fun _ => At decode d₀ ⟨{ t with decoded := t.decoded ++ [pl] }, buffer, m⟩) E := by
  refine .modifyGet fun c hc => ⟨?_, ?_, hc.aligned⟩
  · have hvw := hc.view_eq
    unfold view at hvw ⊢
    simp only [View.mk.injEq] at hvw ⊢
    exact ⟨by rw [hvw.1], hvw.2⟩
  · have hdc := hc.decoding
    unfold Decoding at hdc ⊢
    rw [foldl_append, ← hdc]
    rfl

variable (sid : ℕ) (path : String)

theorem meets_requestHeaders (frame : H2Frame) (r : Response) :
    Meets (At decode d₀ ⟨t, buffer, m⟩) (requestHeaders decode sid frame r)
      (fun _ => At decode d₀ ⟨t.decoding [frame], buffer, m⟩) E := by
  refine .ite (fun hhd => ?_) fun hot => ?_
  · have hbl : headerBlocks [frame] = [frame.payload] := by simp [headerBlocks, hhd]
    unfold Trace.decoding
    rw [hbl]
    refine .bind (meets_decodeHeaders frame.payload) fun headers => ?_
    cases headers with
    | none | some => exact .pure fun _ hc => hc
  · have hbl : headerBlocks [frame] = [] := by simp [headerBlocks, hot]
    unfold Trace.decoding
    rw [hbl, append_nil]
    exact .pure fun _ hc => hc

theorem keeps_finishResponse (r : Response) :
    Preserves (At (γ := γ) decode d₀ v) (finishResponse path r) := by
  unfold finishResponse
  cases r.status with
  | none => exact Meets.pure fun _ hc => hc
  | some =>
    exact Meets.ite (fun _ => Meets.throw fun _ hc => hc) fun _ => Meets.pure fun _ hc => hc

/-- An answer that is due gets through, or it ends what is going on. -/
theorem tells_answer (due sent : Bool) {P : ControlConnection δ γ → Prop} :
    Tells (due && !sent) P (answer due sent) P :=
  .ite (fun h => .throw fun _ hs => ⟨h, hs⟩) fun h => .pure fun _ hs => ⟨by simpa using h, hs⟩

theorem decoding_of_ne (h : frame.type ≠ .headers) : t.decoding [frame] = t := by
  simp [Trace.decoding, headerBlocks, h]

/-- **A request decodes the headers up to the end of its response**, or up to a
frame whose answer does not get through. -/
theorem meets_requestFrames (frs : List (H2Frame × Bool)) (r : Response) :
    Leads (At (γ := γ) decode d₀ ⟨t, buffer, m⟩) (requestFrames decode sid path frs r)
      (At decode d₀ ⟨t.decoding ((through (Reader.request sid).halts frs).map Prod.fst),
        buffer, m⟩) := by
  induction frs generalizing t r with
  | nil =>
    have hno : t.decoding ((through (Reader.request sid).halts []).map Prod.fst) = t := by
      simp [Trace.decoding, through, headerBlocks]
    rw [hno]
    exact .pure fun _ hc => hc
  | cons fr frs ih =>
    obtain ⟨frame, sent⟩ := fr
    unfold requestFrames through
    refine .bind ((tells_answer _ sent).post (fun _ _ hc => hc) fun _ c hc => ?_) fun _ => ?_
    · -- the frame is one of settings, and nothing of it is decoded
      have hhl : (Reader.request sid).halts (frame, sent) = true := by
        simp only [Reader.halts, Reader.answers, hc.1, Bool.or_true]
      have hty : frame.type = .settings :=
        of_decide_eq_true (Bool.and_eq_true_iff.mp (Bool.and_eq_true_iff.mp hc.1).1).1
      rw [if_pos hhl, map_singleton, decoding_of_ne (by simp [hty])]
      exact hc.2
    · by_cases hfl : (frame.type = .settings && !frame.endOrAck && !sent) = true
      · exact fun c hc => absurd hc.1 (by simp [hfl])
      refine .bind ((meets_requestHeaders sid frame r).pre fun _ hc => hc.2) fun r => ?_
      have hhl : (Reader.request sid).halts (frame, sent) = endsResponse sid frame := by
        simp only [Reader.halts, Reader.answers, Bool.eq_false_iff.mpr hfl, Bool.or_false]
        rfl
      rw [hhl]
      refine .ite (fun hes => ?_) fun hgs => ?_
      · rw [if_pos hes]
        exact .bind (keeps_finishResponse path _) fun _ => .pure fun _ hc => hc
      · rw [if_neg hgs, map_cons, decoding_cons t frame (map _ _)]
        exact ih _

theorem handles_eq (hc : At decode d₀ ⟨t, buffer, m⟩ c) (frame : H2Frame) :
    c.mapResponse.handles frame.streamId = isOn m frame := by
  unfold MapStreamResponse.handles isOn
  rw [hc.mk_view.2.2]

theorem searching_of_other (hhd : frame.type ≠ .headers)
    (hdt : frame.type ≠ .data) : t.searching m [frame] = t := by
  unfold searching keeping onStream headerBlocks dataBytes
  simp [hhd, hdt]

theorem searching_of_stream (h : isOn m frame = false) : t.searching m [frame] = t := by
  have hno : onStream m [frame] = [] := by
    unfold onStream
    rw [filter_cons_of_neg (by simp [h]), filter_nil]
  unfold searching keeping
  rw [hno]
  simp [headerBlocks, dataBytes]

theorem onStream_singleton (h : isOn m frame = true) : onStream m [frame] = [frame] := by
  simp only [onStream, filter_cons, h, if_true, filter_nil]

theorem searching_headers (h : isOn m frame = true) (hty : frame.type = .headers) :
    t.searching m [frame] = { t with decoded := t.decoded ++ [frame.payload] } := by
  unfold searching keeping
  rw [onStream_singleton h]
  simp [headerBlocks, dataBytes, hty]

theorem searching_data (h : isOn m frame = true) (hty : frame.type = .data) :
    t.searching m [frame] = { t with appended := t.appended ++ frame.payload } := by
  unfold searching keeping
  rw [onStream_singleton h]
  simp [headerBlocks, dataBytes, hty]

theorem meets_mapHeaders (frame : H2Frame) :
    Meets (At decode d₀ ⟨t, buffer, m⟩) (mapHeaders decode frame)
      (fun _ => At decode d₀ ⟨{ t with decoded := t.decoded ++ [frame.payload] }, buffer, m⟩)
      E := by
  refine .bind (meets_decodeHeaders frame.payload) fun headers => ?_
  cases headers with
  | none => exact .pure fun _ hc => hc
  | some => exact .modify fun c hc => ⟨hc.view_eq, hc.decoding, hc.aligned⟩

theorem meets_mapData (frame : H2Frame) (sent : Bool) :
    Tells (!frame.payload.isEmpty && !sent) (At (γ := γ) decode d₀ ⟨t, buffer, m⟩)
      (mapData frame sent)
      (At decode d₀ ⟨{ t with appended := t.appended ++ frame.payload }, buffer, m⟩) := by
  refine .bind (.modify fun c hc => ⟨?_, hc.decoding, hc.aligned.append frame.payload⟩) fun _ =>
    tells_answer _ sent
  obtain ⟨htr, hbf, hsr⟩ := hc.mk_view
  unfold view
  simp only [htr, hbf, hsr]

/-- What a frame brings to the search for maps. The search ends at once with
one that closes the connection, or whose answer does not get through. -/
theorem meets_mapContent (frame : H2Frame) (sent : Bool) :
    Tells (closesConnection frame || (Reader.map m).answers frame && !sent)
      (At (γ := γ) decode d₀ ⟨t, buffer, m⟩) (mapContent decode frame sent)
      (At decode d₀ ⟨t.searching m [frame], buffer, m⟩) := by
  unfold Reader.answers
  refine .read fun c hc => ?_
  rw [handles_eq hc]
  have hot (hhd : frame.type ≠ .headers) (hdt : frame.type ≠ .data) :
      t.searching m [frame] = t := searching_of_other hhd hdt
  cases hty : frame.type with
  | ping =>
    rw [hot (by simp [hty]) (by simp [hty])]
    refine .ite (fun hsz => .throw fun _ hs => ⟨?_, hs⟩) fun hsz => ?_
    · simp [closesConnection, hty, hsz]
    · have hcl : closesConnection frame = false := by
        simp only [not_and, not_not] at hsz
        simp [closesConnection, hty]
        exact hsz
      rw [show (_ || _) = (!frame.endOrAck && !sent) by simp [hcl, hty]]
      exact tells_answer _ sent
  | goAway =>
    rw [hot (by simp [hty]) (by simp [hty])]
    exact .throw fun _ hs => ⟨by simp [closesConnection, hty], hs⟩
  | headers =>
    refine Meets.post (E := fun _ _ => False) (Q := fun _ => At decode d₀
      ⟨t.searching m [frame], buffer, m⟩) (.ite (fun h => ?_) fun h => ?_)
      (fun _ _ hs => ⟨by simp [closesConnection, hty], hs⟩) fun _ _ hs => hs.elim
    · rw [searching_headers h hty]
      exact meets_mapHeaders frame
    · rw [searching_of_stream (Bool.not_eq_true _ ▸ h)]
      exact .pure fun _ hs => hs
  | data =>
    refine .ite (fun h => ?_) fun h => ?_
    · rw [searching_data h hty]
      rw [show (_ || _) = (!frame.payload.isEmpty && !sent) by simp [closesConnection, hty, h]]
      exact meets_mapData frame sent
    · rw [searching_of_stream (Bool.not_eq_true _ ▸ h)]
      exact .pure fun _ hs => ⟨by simp [closesConnection, hty, h], hs⟩
  | settings =>
    rw [hot (by simp [hty]) (by simp [hty])]
    rw [show (_ || _) = (!frame.endOrAck && !sent) by simp [closesConnection, hty]]
    exact tells_answer _ sent
  | windowUpdate | other =>
    rw [hot (by simp [hty]) (by simp [hty])]
    exact .pure fun _ hs => ⟨by simp [closesConnection, hty], hs⟩

theorem meets_mapEnd (frame : H2Frame) :
    Tells (endsStream m frame) (At (γ := γ) decode d₀ ⟨t, buffer, m⟩) (mapEnd frame)
      (At decode d₀ ⟨t, buffer, m⟩) := by
  refine .read fun c hc => ?_
  rw [handles_eq hc]
  refine .ite (fun hend => .throw fun _ hs => ⟨?_, hs⟩) fun hgs => .pure fun _ hs => ⟨?_, hs⟩
  · exact Bool.and_eq_true_iff.mpr hend
  · exact Bool.eq_false_iff.mpr fun h => hgs (Bool.and_eq_true_iff.mp h)

theorem meets_mapFrame (frame : H2Frame) (sent : Bool) :
    Tells ((Reader.map m).halts (frame, sent)) (At (γ := γ) decode d₀ ⟨t, buffer, m⟩)
      (do mapContent decode frame sent; mapEnd frame)
      (At decode d₀ ⟨t.searching m [frame], buffer, m⟩) := by
  have hhl : (Reader.map m).halts (frame, sent) =
      (closesConnection frame || (Reader.map m).answers frame && !sent || endsStream m frame) :=
    Bool.or_right_comm _ _ _
  rw [hhl]
  refine .bind ((meets_mapContent frame sent).post (fun _ _ hc => hc)
    fun _ c hc => ⟨?_, hc.2⟩) fun _ => ?_
  · rw [hc.1, Bool.true_or]
  · by_cases hcl : (closesConnection frame || (Reader.map m).answers frame && !sent) = false
    · refine ((meets_mapEnd frame).pre fun _ hc => hc.2).post (fun _ c hc => ⟨?_, hc.2⟩)
        fun _ c hc => ⟨?_, hc.2⟩ <;>
      rw [hcl, hc.1, Bool.false_or]
    · exact fun c hc => absurd hc.1 hcl

/-- **The search for maps goes through its frames up to one that it ends
with.** -/
theorem meets_mapFrames (frs : List (H2Frame × Bool)) :
    Leads (At (γ := γ) decode d₀ ⟨t, buffer, m⟩) (mapFrames decode frs)
      (At decode d₀ ⟨t.searching m ((through (Reader.map m).halts frs).map Prod.fst),
        buffer, m⟩) := by
  induction frs generalizing t with
  | nil =>
    have hno : t.searching m ((through (Reader.map m).halts []).map Prod.fst) = t := by
      simp [searching, keeping, onStream, through, headerBlocks, dataBytes]
    rw [hno]
    exact .pure fun _ hc => hc
  | cons fr frs ih =>
    unfold through
    refine .bind ((meets_mapFrame fr.1 fr.2).post (fun _ _ hc => hc) fun _ c hc => ?_)
      fun _ => ?_
    · rw [if_pos hc.1]
      exact hc.2
    · by_cases hes : (Reader.map m).halts fr = true
      · exact fun c hc => absurd hc.1 (by simp [hes])
      · rw [if_neg hes, map_cons, searching_cons t m fr.1 (map _ _)]
        exact ih.pre fun _ hc => hc.2

/-! ## What the methods do -/

theorem meets_receive : Meets (At (γ := γ) decode d₀ ⟨t, buffer, m⟩) receive
      (fun plaintext => At decode d₀ ⟨t.receive plaintext, buffer, m⟩)
      (fun _ => At decode d₀ ⟨t, buffer, m⟩) := by
  intro c hc
  unfold receive
  cases hin : c.incoming with
  | nil => exact hc
  | cons =>
    refine ⟨?_, hc.decoding, hc.aligned⟩
    obtain ⟨htr, hbf, hsr⟩ := hc.mk_view
    unfold view Trace.receive
    simp only [htr, hbf, hsr]

theorem meets_insert (pt : Bytes) : Meets (At decode d₀ ⟨t, buffer, m⟩) (insert pt)
      (fun _ => At decode d₀ ⟨t, buffer ++ pt, m⟩) E := by
  refine .modify fun c hc => ⟨?_, hc.decoding, hc.aligned⟩
  obtain ⟨htr, hbf, hsr⟩ := hc.mk_view
  unfold view
  simp only [htr, hbf, hsr]

theorem meets_drop (pt : Bytes) : Meets (At decode d₀ ⟨t, buffer, m⟩) (drop pt)
      (fun _ => At decode d₀ ⟨{ t with dropped := t.dropped ++ [pt] }, buffer, m⟩) E := by
  refine .modify fun c hc => ⟨?_, hc.decoding, hc.aligned⟩
  obtain ⟨htr, hbf, hsr⟩ := hc.mk_view
  unfold view
  simp only [htr, hbf, hsr]

theorem meets_extract {reader : ControlConnection δ γ → Reader} {who : Reader}
    (hrd : ∀ c, At decode d₀ ⟨t, buffer, m⟩ c → reader c = who) :
    Meets (At decode d₀ ⟨t, buffer, m⟩) (extract reader)
      (fun frs c => frs.map Prod.fst = (takeCompleteFrames buffer).1 ∧ At decode d₀
          ⟨{ t with batches := t.batches ++ [⟨who, frs⟩] }, (takeCompleteFrames buffer).2, m⟩ c)
      E := by
  refine .modifyGet fun c hc => ?_
  obtain ⟨htr, hbf, hsr⟩ := hc.mk_view
  refine ⟨?_, ?_, hc.decoding, hc.aligned⟩
  · rw [← show c.h2Buffer = buffer from hbf]
    exact map_fst_zip (by simp)
  · unfold view
    simp only [htr, hbf, hsr, hrd c hc]

variable (decode) in
structure Reads (d₀ : δ) (v : View) (c : ControlConnection δ γ) : Prop where
  steps : Relation.ReflTransGen ReadStep v c.view
  decoding : Decoding decode d₀ c
  /-- The body of the stream of maps. -/
  aligned : Aligned c

theorem At.reads {v' : View} (h : At decode d₀ v' c)
    (hss : Relation.ReflTransGen ReadStep v v') : Reads decode d₀ v c :=
  ⟨h.view_eq ▸ hss, h.decoding, h.aligned⟩

variable {α : Type} {call : Call}

theorem keeps_reads {x : Control δ γ α}
    (h : ∀ v, Leads (At decode d₀ v) x (Reads decode d₀ v)) :
    Preserves (Reads decode d₀ v) x := by
  intro c hc
  have hon {c' : ControlConnection δ γ} (hc' : Reads decode d₀ c.view c') : Reads decode d₀ v c' :=
    ⟨hc.steps.trans hc'.steps, hc'.decoding, hc'.aligned⟩
  exact (h c.view).mono (fun _ hs => hon hs) c ⟨rfl, hc.decoding, hc.aligned⟩

theorem keeps_of_leaves {x : Control δ γ α}
    (h : Leaves (fun c => (c.view, c.headerDecoder, c.mapResponse.body)) x) :
    Preserves (Reads decode d₀ v) x := by
  intro c hc
  have hsm {c' : ControlConnection δ γ} (hc' : (c'.view, c'.headerDecoder, c'.mapResponse.body) =
        (c.view, c.headerDecoder, c.mapResponse.body)) : Reads decode d₀ v c' := by
    obtain ⟨hvw, hrs⟩ := Prod.mk.inj hc'
    obtain ⟨hdc, hbd⟩ := Prod.mk.inj hrs
    have htr : c'.trace = c.trace := congrArg View.trace hvw
    refine ⟨hvw ▸ hc.steps, ?_, ?_⟩
    · unfold Decoding
      rw [hdc, htr]
      exact hc.decoding
    · unfold Aligned
      rw [hbd, htr]
      exact hc.aligned
  exact (h _).mono (fun _ hs => hsm hs) c rfl

theorem Trace.read_request (t : Trace) (sid : ℕ) (frs : List (H2Frame × Bool)) :
    .decoding { t with batches := t.batches ++ [⟨.request sid, frs⟩] }
      ((through (Reader.request sid).halts frs).map Prod.fst) = t.read ⟨.request sid, frs⟩ := by
  have hkp (frs : List H2Frame) : frs.filter (Reader.request sid).keeps = [] :=
    filter_eq_nil_iff.mpr fun _ _ => by simp [Reader.keeps]
  unfold Trace.decoding Trace.read Batch.appended
  rw [hkp]
  simp only [flatMap_nil, append_nil]
  rfl

theorem Trace.read_map (t : Trace) (sid : ℕ) (frs : List (H2Frame × Bool)) :
    .searching { t with batches := t.batches ++ [⟨.map sid, frs⟩] } sid
      ((through (Reader.map sid).halts frs).map Prod.fst) = t.read ⟨.map sid, frs⟩ := by
  unfold searching keeping headerBlocks dataBytes onStream
  rw [filter_filter, filter_filter]
  rfl

/-- **One attempt of a request** puts aside what it receives, or goes through
the frames that are complete with it. -/
theorem meets_requestAttempt (r : Response) (v : View) :
    Leads (At (γ := γ) decode d₀ v) (requestAttempt decode sid path r) (Reads decode d₀ v) := by
  obtain ⟨t, buffer, _⟩ := v
  refine .bind (meets_receive.post (fun _ _ hc => hc) fun _ _ hc => hc.reads .refl) fun pt => ?_
  refine .read fun c hc => .ite (fun has => ?_) fun _ => ?_
  · obtain rfl : buffer = [] := hc.mk_view.2.1.symm.trans has.1
    exact .bind (meets_drop pt) fun _ =>
      .pure fun _ hc => hc.reads (.single (.dropped has.2))
  · refine .bind (meets_insert pt) fun _ => ?_
    refine .bind (meets_extract fun _ _ => rfl) fun frs c hc => ?_
    obtain ⟨hfr, hc⟩ := hc
    refine (meets_requestFrames sid path frs r).mono (fun c hc => ?_) c hc
    rw [Trace.read_request (t.receive pt) sid frs] at hc
    exact hc.reads (.single (.requested sid pt hfr))

theorem keeps_requestAttempts (attempts : ℕ) (r : Response) : Preserves (Reads (γ := γ) decode d₀ v)
      (requestAttempts decode sid path attempts r) := by
  induction attempts generalizing r with
  | zero => exact .throw fun _ hc => hc
  | succ _ ih =>
    refine .bind (keeps_reads (meets_requestAttempt sid path r)) fun res => ?_
    cases res with
    | inl r => exact ih r
    | inr body => exact .pure body

theorem keeps_send : Preserves (Reads (γ := γ) decode d₀ v) send :=
  keeps_of_leaves (.bind .get fun _ => .bind (.modify fun _ => rfl) fun _ => .ite (.pure _)
    (.throw _))

theorem keeps_request (waitForResponse : Bool) : Preserves (Reads (γ := γ) decode d₀ v)
      (request decode sid path waitForResponse) :=
  .bind keeps_send fun _ => .ite (keeps_requestAttempts sid path _ _) (.pure _)

theorem keeps_advanceStream : Preserves (Reads (γ := γ) decode d₀ v) advanceStream :=
  keeps_of_leaves (.modify fun _ => rfl)

/-- **A request reads.** -/
theorem keeps_requestThenAdvance : Preserves (Reads (γ := γ) decode d₀ v)
      (requestThenAdvance decode path) :=
  .bind .get fun _ => .bind (keeps_request _ path true) fun _ =>
    .bind keeps_advanceStream fun _ => .pure _

/-- **A request reads.** -/
theorem keeps_advanceThenRequest : Preserves (Reads (γ := γ) decode d₀ v)
      (advanceThenRequest decode path) :=
  .bind .get fun _ => .bind keeps_advanceStream fun _ => keeps_request _ path true

variable {onMap : Bytes → EStateM ControlError (γ × ℕ) Bool}

theorem keeps_takeMap : Preserves (Reads (γ := γ) decode d₀ v) takeMap := by
  intro c hc
  unfold takeMap
  cases htk : MapStreamResponse.takeMap MapStreamResponse.maximumStreamingMapSize
      c.mapResponse.body with
  | error => exact hc
  | ok result =>
    cases result with
    | none => exact hc
    | some result =>
      have hsp : MapStreamResponse.framing.take c.mapResponse.body = some result := by
        simp only [MapStreamResponse.framing, htk]
      exact ⟨hc.steps, hc.decoding, hc.aligned.tail ⟨result.1, hsp⟩⟩

theorem keeps_handleMap (map : Bytes) :
    Preserves (Reads decode d₀ v) (handleMap (δ := δ) onMap map) :=
  .frame _ (fun _ _ hc => ⟨hc.steps, hc.decoding, hc.aligned⟩) fun _ _ hc => hc

theorem keeps_takeMaps (maps : ℕ) :
    Preserves (Reads decode d₀ v) (takeMaps (δ := δ) onMap maps) := by
  induction maps with
  | zero => exact .pure false
  | succ _ ih =>
    refine .bind keeps_takeMap fun res => ?_
    cases res with
    | none => exact .pure false
    | some map => exact .bind (keeps_handleMap map) fun _ => .ite (.pure true) ih

/-- **Looking for maps** goes through the frames in the buffer. -/
theorem keeps_takeNetworkMapUpdate : Preserves (Reads decode d₀ v)
      (takeNetworkMapUpdate decode onMap) := by
  have hsr : Preserves (Reads decode d₀ v)
      (do mapFrames decode (← extract fun c => .map c.mapResponse.streamId) :
        Control δ γ Unit) := by
    refine keeps_reads fun ⟨t, buffer, m⟩ => ?_
    refine .bind (meets_extract fun c hc => congrArg Reader.map hc.mk_view.2.2) fun frs c hc => ?_
    obtain ⟨hfr, hc⟩ := hc
    refine (meets_mapFrames frs).mono (fun c hc => ?_) c hc
    rw [Trace.read_map t m frs] at hc
    exact hc.reads (.single (.searched hfr))
  have has : takeNetworkMapUpdate decode onMap = (do
      (do mapFrames decode (← extract fun c => .map c.mapResponse.streamId))
      let c ← get
      takeMaps onMap (c.mapResponse.body.length + 1)) := by
    rfl
  rw [has]
  exact .bind hsr fun _ => .bind .get fun _ => keeps_takeMaps _

theorem keeps_receiveAll : Preserves (Reads (γ := γ) decode d₀ v) receiveAll :=
  .modify fun c hc => ⟨hc.steps.tail (.inserted c.incoming.flatten), hc.decoding, hc.aligned⟩

/-- **Looking for maps without waiting reads.** -/
theorem keeps_pollNetworkMap : Preserves (Reads decode d₀ v) (pollNetworkMap decode onMap) :=
  .bind keeps_receiveAll fun _ => keeps_takeNetworkMapUpdate

theorem keeps_receive_insert : Preserves (Reads (γ := γ) decode d₀ v) (do insert (← receive)) := by
  refine keeps_reads fun ⟨t, buffer, m⟩ => ?_
  refine .bind (meets_receive.post (fun _ _ hc => hc) fun _ _ hc => hc.reads .refl) fun pt => ?_
  exact (meets_insert pt).post (fun _ _ hc => hc.reads (.single (.inserted pt))) fun _ _ hc => hc

theorem keeps_waitTurns (ts : ℕ) : Preserves (Reads decode d₀ v) (waitTurns decode onMap ts) := by
  induction ts with
  | zero => exact .pure ()
  | succ ts ih =>
    have has : waitTurns decode onMap (ts + 1) = (do
        if ← takeNetworkMapUpdate decode onMap then
          pure ()
        else do
          (do insert (← receive))
          waitTurns decode onMap ts) := by
      simp only [bind_assoc]
      rfl
    rw [has]
    exact .bind keeps_takeNetworkMapUpdate fun _ => .ite (.pure ())
      (.bind keeps_receive_insert fun _ => ih)

/-- **Waiting for a map reads.** -/
theorem keeps_waitForNetworkMap : Preserves (Reads decode d₀ v) (waitForNetworkMap decode onMap) :=
  .bind .get fun _ => keeps_waitTurns _

/-! ## Calls -/

inductive Call
  | arrives (plaintext : Bytes)
  | register
  | requestNetworkMap
  | queryFeature
  | setDnsTxt (name value : String)
  | updateHostInfo
  | logout
  | setPreferredDerp
  | pollNetworkMap
  | waitForNetworkMap
  deriving DecidableEq

def arrive (plaintext : Bytes) : Control δ γ Unit :=
  modify fun c => { c with incoming := c.incoming ++ [plaintext] }

def Call.run (decode : Bytes → δ → Option H2Headers × δ)
    (onMap : Bytes → EStateM ControlError (γ × ℕ) Bool) : Call → Control δ γ Unit
  | arrives plaintext => arrive plaintext
  | register => do let _ ← ControlConnection.register decode
  | requestNetworkMap => do let _ ← ControlConnection.requestNetworkMap decode
  | queryFeature => do let _ ← ControlConnection.queryFeature decode
  | setDnsTxt name value => do let _ ← ControlConnection.setDnsTxt decode name value
  | updateHostInfo => do let _ ← ControlConnection.updateHostInfo decode
  | logout => do let _ ← ControlConnection.logout decode
  | setPreferredDerp => ControlConnection.setPreferredDerp decode
  | pollNetworkMap => do let _ ← ControlConnection.pollNetworkMap decode onMap
  | waitForNetworkMap => ControlConnection.waitForNetworkMap decode onMap

/-- **Every call reads**, but for the start of a stream of maps. -/
theorem Call.keeps_run (h : call ≠ .setPreferredDerp) :
    Preserves (Reads decode d₀ v) (call.run decode onMap) := by
  cases call with
  | arrives => exact keeps_of_leaves (.modify fun _ => rfl)
  | register | requestNetworkMap => exact .bind (keeps_advanceThenRequest _) fun _ => .pure ()
  | queryFeature | updateHostInfo | logout =>
    exact .bind (keeps_requestThenAdvance _) fun _ => .pure ()
  | setDnsTxt =>
    refine .bind (.ite (.throw fun _ hc => hc) ?_) fun _ => .pure ()
    exact keeps_requestThenAdvance _
  | setPreferredDerp => exact absurd rfl h
  | pollNetworkMap => exact .bind keeps_pollNetworkMap fun _ => .pure ()
  | waitForNetworkMap => exact keeps_waitForNetworkMap

/-- What a call leaves, but for the start of a stream of maps, has been got to
by reading. -/
theorem Call.reads_after (h : call ≠ .setPreferredDerp)
    (hdc : Decoding decode d₀ c) (hal : Aligned c) :
    Reads decode d₀ c.view (after (call.run decode onMap) c) :=
  (keeps_run h).after ⟨.refl, hdc, hal⟩

variable (decode onMap)

/-- **A connection and what happens to it.** An exception leaves what had been
done by then. -/
def connections (d₀ : δ) : TransitionSystem (ControlConnection δ γ) Call where
  init c := ∃ maps sends, c = { headerDecoder := d₀, maps, sends }
  step c call c' := c' = after (call.run decode onMap) c

end ControlConnection

end Tailgate
