import Tailgate.Base64
import Tailgate.ChunkedReads
import Tailgate.Procedures
import Tailgate.ResolverSelection

/-!
# The handshake with the control server

Three loops read the answer of the server: until the headers are there, until the
start of the Noise message is, and until all of it is. Only the first gives up
when the connection is closed, so an answer that is `CutShort` is read for ever,
and no other (`run_ends`). A run that needs more reads than given is `endless`.
-/

namespace Tailgate

open Procedure List Option

/-! ## Searching -/

section Search

variable {α : Type} [DecidableEq α]

def search (pattern : List α) : List α → Option ℕ
  | [] => if pattern = [] then some 0 else none
  | a :: data =>
    if pattern.isPrefixOf (a :: data) then some 0 else (search pattern data).map (· + 1)

variable {pattern data : List α} {i : ℕ}

theorem search_le (h : search pattern data = some i) : i + pattern.length ≤ data.length := by
  induction data generalizing i with
  | nil =>
    unfold search at h
    split at h
    · next hnil =>
      cases h
      simp [hnil]
    · cases h
  | cons _ _ ih =>
    unfold search at h
    split at h
    · next hft =>
      cases h
      rw [Nat.zero_add]
      exact ( isPrefixOf_iff_prefix.mp hft).length_le
    · obtain ⟨_, hj, rfl⟩ := map_eq_some_iff.mp h
      have hle := ih hj
      rw [length_cons]
      omega

theorem search_append (h : search pattern data = some i) (more : List α) :
    search pattern (data ++ more) = some i := by
  induction data generalizing i with
  | nil =>
    unfold search at h
    split at h
    · next hnil =>
      cases h
      subst hnil
      cases more <;> simp [search]
    · cases h
  | cons a data ih =>
    unfold search at h
    rw [cons_append]
    unfold search
    split at h
    · next hft =>
      cases h
      have hmr : pattern.isPrefixOf (a :: (data ++ more)) :=
        isPrefixOf_iff_prefix.mpr (( isPrefixOf_iff_prefix.mp hft).trans ⟨more, rfl⟩)
      rw [if_pos hmr]
    · next hft =>
      obtain ⟨_, hj, rfl⟩ := map_eq_some_iff.mp h
      have hle := search_le hj
      -- the pattern does not reach into what comes behind
      have hmr : ¬pattern.isPrefixOf (a :: (data ++ more)) := by
        intro hmr
        refine hft ( isPrefixOf_iff_prefix.mpr ?_)
        exact prefix_of_prefix_length_le ( isPrefixOf_iff_prefix.mp hmr)
          (by rw [← cons_append]; exact ⟨more, rfl⟩) (by rw [length_cons]; omega)
      rw [if_neg hmr, ih hj]
      rfl

end Search

/-! ## The handshake -/

structure NoiseKeys (Key : Type) where
  txKey : Key
  rxKey : Key

inductive HandshakeError
  | closed
  /-- The server does not switch, with the start of its headers. -/
  | refused (headers : Bytes)
  | messageType
  | wouldBlock
  | write (what : String)
  | noise (what : String)
  | endless

structure ControlHandshakeResult (Key : Type) where
  keys : NoiseKeys Key
  proactiveFrames : Bytes

structure ControlHandshake (Key : Type) where
  message1 : Bytes
  /-- What the second message comes to, or why it is refused. -/
  readMessage2 : Bytes → Except String (NoiseKeys Key)
  writeAll : Bytes → Except String Unit

namespace ControlHandshake

variable {Key : Type}

def readChunkSize : ℕ := 2048

def noiseFrameHeaderSize : ℕ := 3

def noiseMessageTwoType : UInt8 := 2

def maximumDiagnosticHeaderLength : ℕ := 200

variable (c : ControlHandshake Key)

def buildUpgradeRequest (host : String) : Bytes :=
  textBytes ("POST /ts2021 HTTP/1.1\r\nHost: " ++ host ++ "\r\n"
    ++ "Upgrade: tailscale-control-protocol\r\n"
    ++ "Connection: Upgrade\r\n"
    ++ "User-Agent: Tailgate\r\n"
    ++ "X-Tailscale-Handshake: ") ++ Base64.encode c.message1
    ++ textBytes ("\r\n" ++ "Content-Length: 0\r\n\r\n")

def delimiter : Bytes := [13, 10, 13, 10]

def findHeaderEnd (data : Bytes) : Option ℕ :=
  (search delimiter data).map (· + delimiter.length)

def switching : Bytes := [49, 48, 49]

def agrees (headers : Bytes) : Bool := (search switching headers).isSome

variable (body : Bytes)

def payloadLength : ℕ := BigEndian.value ((body.drop 1).take 2)

def readSome (maximum : ℕ) : EStateM HandshakeError (Incoming UInt8) Bytes := fun s =>
  match s.tryReadSome maximum with
  | (some data, s') => .ok data s'
  | (none, s') => .error .wouldBlock s'

/-- Read until the headers are there: what has been read, where the headers
end, and how many reads are left. -/
def readHeaders : ℕ → Bytes → EStateM HandshakeError (Incoming UInt8) (Bytes × ℕ × ℕ)
  | 0, _ => throw .endless
  | reads + 1, response => do
    let chunk ← readSome readChunkSize
    if chunk = [] then throw .closed
    else
      match findHeaderEnd (response ++ chunk) with
      | some headerEnd => pure (response ++ chunk, headerEnd, reads)
      | none => readHeaders reads (response ++ chunk)

/-- Read until there are so many bytes, an empty read or not: what has been
read, and how many reads are left. -/
def readBody (size : ℕ) : ℕ → Bytes → EStateM HandshakeError (Incoming UInt8) (Bytes × ℕ)
  | 0, body => if size ≤ body.length then pure (body, 0) else throw .endless
  | reads + 1, body =>
    if size ≤ body.length then pure (body, reads + 1)
    else do
      let chunk ← readSome (size - body.length)
      readBody size reads (body ++ chunk)

def finish (size : ℕ) : Except HandshakeError (ControlHandshakeResult Key) :=
  match c.readMessage2 ((body.take size).drop noiseFrameHeaderSize) with
  | .ok keys => .ok { keys, proactiveFrames := body.drop size }
  | .error what => .error (.noise what)

def readMessage (reads : ℕ) :
    EStateM HandshakeError (Incoming UInt8) (ControlHandshakeResult Key) :=
  if body.head? ≠ some noiseMessageTwoType then throw .messageType
  else do
    let size := noiseFrameHeaderSize + payloadLength body
    let read ← readBody size reads body
    liftM (c.finish read.1 size)

def readAnswer (response : Bytes) (headerEnd reads : ℕ) :
    EStateM HandshakeError (Incoming UInt8) (ControlHandshakeResult Key) :=
  if agrees (response.take headerEnd) = false then
    throw (.refused ((response.take headerEnd).take maximumDiagnosticHeaderLength))
  else do
    let start ← readBody noiseFrameHeaderSize reads (response.drop headerEnd)
    c.readMessage start.1 start.2

/-- **The handshake**, followed for so many reads. -/
def run (host : String) (reads : ℕ) :
    EStateM HandshakeError (Incoming UInt8) (ControlHandshakeResult Key) :=
  match c.writeAll (c.buildUpgradeRequest host) with
  | .error what => throw (.write what)
  | .ok () => do
    let read ← readHeaders reads []
    c.readAnswer read.1 read.2.1 read.2.2

/-! ## Where headers end -/

section HeaderEnd

variable {data : Bytes} {headerEnd : ℕ}

theorem findHeaderEnd_append (h : findHeaderEnd data = some headerEnd) (more : Bytes) :
    findHeaderEnd (data ++ more) = some headerEnd := by
  obtain ⟨_, hi, rfl⟩ := map_eq_some_iff.mp h
  unfold findHeaderEnd
  rw [search_append hi]
  rfl

theorem findHeaderEnd_le (h : findHeaderEnd data = some headerEnd) : headerEnd ≤ data.length := by
  obtain ⟨_, hi, rfl⟩ := map_eq_some_iff.mp h
  exact search_le hi

end HeaderEnd

/-! ## The loops -/

section Loops

variable {s : Incoming UInt8} {response body : Bytes} {size : ℕ}

theorem readSome_of_closing (h : s.Closing) {mx : ℕ} (hpos : 0 < mx) :
    ∃ data s', readSome mx s = .ok data s' ∧ s'.Closing ∧ s.symbols = data ++ s'.symbols
      ∧ (data = [] → s.symbols = []) := by
  obtain ⟨data, s', hrd, hs', hsy, -, hem⟩ := h.tryReadSome hpos
  refine ⟨data, s', ?_, hs', hsy, hem⟩
  unfold readSome
  rw [hrd]

/-- **The first loop**: it reads until the headers are there or the connection
is closed, with at most as many reads as there are bytes, and one more. -/
theorem readHeaders_cases (h : s.Closing) (hrs : findHeaderEnd response = none) (reads : ℕ) :
    (∃ s', readHeaders reads response s = .error .endless s' ∧ reads ≤ s.symbols.length)
      ∨ (∃ s', readHeaders reads response s = .error .closed s'
        ∧ findHeaderEnd (response ++ s.symbols) = none)
      ∨ ∃ resp' headerEnd left s',
        readHeaders reads response s = .ok (resp', headerEnd, left) s' ∧ s'.Closing
          ∧ resp' ++ s'.symbols = response ++ s.symbols
          ∧ findHeaderEnd resp' = some headerEnd
          ∧ reads + s'.symbols.length ≤ left + s.symbols.length := by
  induction reads generalizing s response with
  | zero => exact .inl ⟨s, rfl, Nat.zero_le _⟩
  | succ reads ih =>
    have hso : 0 < readChunkSize := by decide
    obtain ⟨chunk, s₁, hrd, h₁, hsy, hem⟩ := readSome_of_closing h hso
    unfold readHeaders
    rw [bind_ok hrd]
    by_cases hck : chunk = []
    · rw [if_pos hck]
      refine .inr (.inl ⟨s₁, rfl, ?_⟩)
      rw [hem hck, append_nil, hrs]
    · rw [if_neg hck]
      have hpos := length_pos_iff.mpr hck
      have hlen := congrArg length hsy
      rw [length_append] at hlen
      cases hend : findHeaderEnd (response ++ chunk) with
      | some headerEnd =>
        refine .inr (.inr ⟨_, headerEnd, reads, s₁, rfl, h₁, ?_, hend, by omega⟩)
        rw [hsy, append_assoc]
      | none =>
        rcases ih h₁ hend with
          ⟨s', hrun, hle⟩ | ⟨s', hrun, hno⟩ | hdn
        · exact .inl ⟨s', hrun, by omega⟩
        · refine .inr (.inl ⟨s', hrun, ?_⟩)
          rwa [hsy, ← append_assoc]
        · obtain ⟨resp', headerEnd, left, s', hrun, hs', hsp, hfd, _⟩ := hdn
          refine .inr (.inr ⟨resp', headerEnd, left, s', hrun, hs', ?_, hfd, by omega⟩)
          rw [hsp, hsy, append_assoc]

theorem readBody_succ (h : body.length < size) (reads : ℕ) : readBody size (reads + 1) body
      = readSome (size - body.length) >>= fun chunk => readBody size reads (body ++ chunk) := by
  rw [readBody, if_neg (by omega)]

theorem readBody_of_le (h : size ≤ body.length) (reads : ℕ) :
    readBody size reads body s = .ok (body, reads) s := by
  cases reads <;>
  · rw [readBody, if_pos h]
    rfl

/-- **The other loops, with enough bytes to come.** -/
theorem readBody_cases (h : s.Closing) (hsz : size ≤ body.length + s.symbols.length) (reads : ℕ) :
    (∃ s', readBody size reads body s = .error .endless s' ∧ reads < s.symbols.length)
      ∨ ∃ body' left s', readBody size reads body s = .ok (body', left) s' ∧ s'.Closing
        ∧ body' ++ s'.symbols = body ++ s.symbols ∧ size ≤ body'.length
        ∧ reads + s'.symbols.length ≤ left + s.symbols.length := by
  induction reads generalizing s body with
  | zero =>
    by_cases hle : size ≤ body.length
    · exact .inr ⟨body, 0, s, readBody_of_le hle 0, h, rfl, hle, le_rfl⟩
    · rw [readBody, if_neg hle]
      exact .inl ⟨s, rfl, by omega⟩
  | succ reads ih =>
    by_cases hle : size ≤ body.length
    · exact .inr ⟨body, reads + 1, s, readBody_of_le hle _, h, rfl, hle, le_rfl⟩
    · have hso : 0 < size - body.length := by omega
      obtain ⟨chunk, s₁, hrd, h₁, hsy, hem⟩ := readSome_of_closing h hso
      have hlen := congrArg length hsy
      rw [length_append] at hlen
      have hpos : 0 < chunk.length := by
        rw [length_pos_iff]
        intro hnil
        rw [hem hnil, length_nil] at hsz
        omega
      have hsz₁ : size ≤ (body ++ chunk).length + s₁.symbols.length := by
        rw [length_append]
        omega
      rw [readBody_succ (not_le.mp hle), bind_ok hrd]
      rcases ih h₁ hsz₁ with
        ⟨s', hrun, hlt⟩ | ⟨body', left, s', hrun, hs', hsp, heh, hle⟩
      · exact .inl ⟨s', hrun, by omega⟩
      · refine .inr ⟨body', left, s', hrun, hs', ?_, heh, by omega⟩
        rw [hsp, hsy, append_assoc]

/-- **The other loops, with too few bytes to come**, never end. -/
theorem readBody_endless (h : s.Closing) (hsz : body.length + s.symbols.length < size)
    (reads : ℕ) : ∃ s', readBody size reads body s = .error .endless s' := by
  induction reads generalizing s body with
  | zero =>
    rw [readBody, if_neg (by omega)]
    exact ⟨s, rfl⟩
  | succ _ ih =>
    have hso : 0 < size - body.length := by omega
    obtain ⟨_, _, hrd, h₁, hsy, -⟩ := readSome_of_closing h hso
    have hlen := congrArg length hsy
    rw [length_append] at hlen
    rw [readBody_succ (by omega), bind_ok hrd]
    exact ih h₁ (by rw [length_append]; omega)

end Loops

/-! ## Answers that are cut short -/

/-- A message that is not all there: less than its start is, or less than it
says it is long. -/
def Truncated : Prop :=
  body.length < noiseFrameHeaderSize ∨ body.head? = some noiseMessageTwoType
      ∧ body.length < noiseFrameHeaderSize + payloadLength body

/-- **An answer that is cut short**: the server agrees to the switch, and the
message behind the headers is not all there. -/
def CutShort (answer : Bytes) : Prop :=
  ∃ headerEnd, findHeaderEnd answer = some headerEnd ∧ agrees (answer.take headerEnd) = true
    ∧ Truncated (answer.drop headerEnd)

section Ends

variable {c : ControlHandshake Key} {s : Incoming UInt8} {body response : Bytes} {reads : ℕ}

abbrev Ends {α : Type} (x : EStateM HandshakeError (Incoming UInt8) α) (s : Incoming UInt8) :
    Prop :=
  ∀ s', x s ≠ .error .endless s'

theorem payloadLength_append (h : noiseFrameHeaderSize ≤ body.length) (more : Bytes) :
    payloadLength (body ++ more) = payloadLength body := by
  unfold noiseFrameHeaderSize at h
  unfold payloadLength
  rw [drop_append_of_le_length (by omega), take_append_of_le_length (by rw [length_drop]; omega)]

theorem head?_append (h : noiseFrameHeaderSize ≤ body.length) (more : Bytes) :
    (body ++ more).head? = body.head? := by
  cases body with
  | nil => cases h
  | cons => rfl

theorem finish_ne_endless {size : ℕ} (h : c.finish body size = .error .endless) : False := by
  unfold finish at h
  split at h <;> cases h

theorem ends_readMessage (h : s.Closing) (hstart : noiseFrameHeaderSize ≤ body.length)
    (hwh : ¬Truncated (body ++ s.symbols)) (hrd : s.symbols.length ≤ reads) :
    Ends (c.readMessage body reads) s := by
  intro _ her
  unfold readMessage at her
  split at her
  · cases her
  · next hty =>
    rw [Truncated, not_or, head?_append hstart, payloadLength_append hstart, length_append] at hwh
    have hsz := not_lt.mp fun hlt => hwh.2 ⟨not_not.mp hty, hlt⟩
    rcases readBody_cases h hsz reads with ⟨_, -, _⟩ | ⟨body', _, _, hrun, -⟩
    · omega
    · rw [bind_ok hrun] at her
      cases hfn : c.finish body' (noiseFrameHeaderSize + payloadLength body) with
      | ok =>
        rw [hfn] at her
        cases her
      | error =>
        rw [hfn] at her
        cases her
        exact finish_ne_endless hfn

theorem endless_readMessage (h : s.Closing) (hstart : noiseFrameHeaderSize ≤ body.length)
    (hsh : Truncated (body ++ s.symbols)) :
    ∃ s', c.readMessage body reads s = .error .endless s' := by
  rw [Truncated, head?_append hstart, payloadLength_append hstart, length_append] at hsh
  obtain ⟨hty, hlt⟩ := hsh.resolve_left (by omega)
  obtain ⟨s', hrun⟩ := readBody_endless h hlt reads
  unfold readMessage
  rw [if_neg (not_not.mpr hty), bind_error hrun]
  exact ⟨s', rfl⟩

section Answer

variable {answer : Bytes} {headerEnd : ℕ}

theorem cutShort_iff (hfd : findHeaderEnd response = some headerEnd)
    (hsp : response ++ s.symbols = answer) :
    CutShort answer ↔ agrees (response.take headerEnd) = true
      ∧ Truncated (response.drop headerEnd ++ s.symbols) := by
  have hle := findHeaderEnd_le hfd
  have han : findHeaderEnd answer = some headerEnd := hsp ▸ findHeaderEnd_append hfd _
  have htk : answer.take headerEnd = response.take headerEnd := by
    rw [← hsp, take_append_of_le_length hle]
  have hdr : answer.drop headerEnd = response.drop headerEnd ++ s.symbols := by
    rw [← hsp, drop_append_of_le_length hle]
  unfold CutShort
  rw [han]
  constructor
  · rintro ⟨_, heq, hag, htr⟩
    cases heq
    exact ⟨htk ▸ hag, hdr ▸ htr⟩
  · rintro ⟨hag, htr⟩
    exact ⟨headerEnd, rfl, htk.symm ▸ hag, hdr.symm ▸ htr⟩

theorem ends_readAnswer (h : s.Closing) (hfd : findHeaderEnd response = some headerEnd)
    (hwh : ¬CutShort (response ++ s.symbols)) (hrd : s.symbols.length ≤ reads) :
    Ends (c.readAnswer response headerEnd reads) s := by
  intro s' her
  rw [cutShort_iff hfd rfl, not_and] at hwh
  unfold readAnswer at her
  split at her
  · cases her
  · next hag =>
    have htr := hwh (Bool.not_eq_false _ ▸ hag)
    have hstart : noiseFrameHeaderSize ≤ (response.drop headerEnd).length + s.symbols.length := by
      rw [← length_append]
      exact not_lt.mp fun hlt => htr (.inl hlt)
    rcases readBody_cases h hstart reads with
      ⟨s₁, -, hlt⟩ | ⟨body, left, s₁, hrun, hs₁, hbd, heh, hlf⟩
    · omega
    · rw [bind_ok hrun] at her
      exact ends_readMessage hs₁ heh (hbd.symm ▸ htr) (by omega) s' her

theorem endless_readAnswer (h : s.Closing) (hfd : findHeaderEnd response = some headerEnd)
    (hsh : CutShort (response ++ s.symbols)) :
    ∃ s', c.readAnswer response headerEnd reads s = .error .endless s' := by
  obtain ⟨hag, htr⟩ := (cutShort_iff hfd rfl).mp hsh
  unfold readAnswer
  rw [if_neg (by simp [hag])]
  by_cases hstart : noiseFrameHeaderSize ≤ (response.drop headerEnd).length + s.symbols.length
  · rcases readBody_cases h hstart reads with
      ⟨s', hrun, -⟩ | ⟨body, left, s₁, hrun, hs₁, hbd, heh, -⟩
    · exact ⟨s', bind_error hrun⟩
    · rw [bind_ok hrun]
      exact endless_readMessage hs₁ heh (hbd.symm ▸ htr)
  · obtain ⟨s', hrun⟩ := readBody_endless h (not_le.mp hstart) reads
    exact ⟨s', bind_error hrun⟩

end Answer

end Ends

/-! ## Whether the handshake ends -/

section Run

variable {c : ControlHandshake Key} {host : String} {s : Incoming UInt8}

theorem ends_run (h : s.Closing) (hwh : ¬CutShort s.symbols) {reads : ℕ}
    (hrd : s.symbols.length < reads) : Ends (c.run host reads) s := by
  intro s' her
  unfold run at her
  cases hwr : c.writeAll (c.buildUpgradeRequest host) with
  | error =>
    rw [hwr] at her
    cases her
  | ok =>
    rw [hwr] at her
    rcases readHeaders_cases h (show findHeaderEnd [] = none from rfl) reads with
      ⟨s₁, -, hle⟩ | ⟨s₁, hrun, -⟩ | ⟨response, headerEnd, left, s₁, hrun, hs₁, hsp, hfd, hle⟩
    · omega
    · change (readHeaders reads [] >>= _) s = _ at her
      rw [bind_error hrun] at her
      cases her
    · change (readHeaders reads [] >>= _) s = _ at her
      rw [bind_ok hrun] at her
      have hlf : s₁.symbols.length ≤ left := by omega
      refine ends_readAnswer hs₁ hfd ?_ hlf s' her
      rwa [hsp]

theorem endless_run (h : s.Closing) (hsh : CutShort s.symbols)
    (hwr : c.writeAll (c.buildUpgradeRequest host) = .ok ()) (reads : ℕ) :
    ∃ s', c.run host reads s = .error .endless s' := by
  unfold run
  rw [hwr]
  rcases readHeaders_cases h (show findHeaderEnd [] = none from rfl) reads with
    ⟨s', hrun, -⟩ | ⟨s', -, hno⟩ | ⟨response, headerEnd, left, s₁, hrun, hs₁, hsp, hfd, -⟩
  · exact ⟨s', bind_error hrun⟩
  · obtain ⟨_, hend, -⟩ := hsh
    rw [nil_append, hend] at hno
    cases hno
  · show ∃ s', (readHeaders reads [] >>= fun read =>
      c.readAnswer read.1 read.2.1 read.2.2) s = _
    rw [bind_ok hrun]
    refine endless_readAnswer hs₁ hfd ?_
    rwa [hsp]

end Run

/-- **Whether the handshake ends.** Whatever the server sends before it closes
the connection, and however that is cut into pieces: unless the answer is cut
short within the message, the handshake returns or throws, with no more reads
than there are bytes and one. If it is cut short, and the request could be
written, no number of reads is enough. -/
theorem run_ends (c : ControlHandshake Key) (host : String) (chunks : List Bytes)
    (hchunks : ∀ chunk ∈ chunks, chunk ≠ []) :
    (¬CutShort chunks.flatten → ∀ reads, chunks.flatten.length < reads →
      ∀ s', c.run host reads (.closing chunks hchunks) ≠ .error .endless s')
      ∧ (CutShort chunks.flatten → c.writeAll (c.buildUpgradeRequest host) = .ok () →
        ∀ reads, ∃ s', c.run host reads (.closing chunks hchunks) = .error .endless s') := by
  have hcl := Incoming.closing_closing chunks hchunks
  have hsy := Incoming.symbols_closing chunks hchunks
  constructor
  · intro hwh _ hrd
    exact ends_run hcl (hsy.symm ▸ hwh) (hsy.symm ▸ hrd)
  · intro hsh hwr reads
    exact endless_run hcl (hsy.symm ▸ hsh) hwr reads

def trivialHandshake : ControlHandshake Unit where
  message1 := []
  readMessage2 _ := .ok ⟨(), ()⟩
  writeAll _ := .ok ()

def agreeing : Bytes := [49, 48, 49, 13, 10, 13, 10]

theorem run_ends_empty_message : ¬CutShort [agreeing, [2, 0, 0]].flatten
    ∧ ∀ reads, 10 < reads → ∀ s',
      trivialHandshake.run "" reads (.closing [agreeing, [2, 0, 0]] (by decide))
        ≠ .error .endless s' := by
  have hwh : ¬CutShort [agreeing, [2, 0, 0]].flatten := by
    rintro ⟨headerEnd, hend, -, htr⟩
    obtain rfl : 7 = headerEnd := by
      have h : findHeaderEnd [agreeing, [2, 0, 0]].flatten = some 7 := by decide
      exact some.inj (h.symm.trans hend)
    revert htr
    unfold Truncated
    decide
  exact ⟨hwh, (run_ends trivialHandshake "" [agreeing, [2, 0, 0]] (by decide)).1 hwh⟩

/-- **A server that closes behind its headers** is read for ever. -/
theorem closed_behind_headers :
    ∃ (c : ControlHandshake Unit) (host : String) (chunks : List Bytes)
      (hchunks : ∀ chunk ∈ chunks, chunk ≠ []),
      ∀ reads, ∃ s', c.run host reads (.closing chunks hchunks) = .error .endless s' := by
  refine ⟨trivialHandshake, "", [agreeing], by decide, fun reads => ?_⟩
  refine endless_run (Incoming.closing_closing [agreeing] (by decide)) ?_ rfl reads
  exact ⟨7, by decide, by decide, .inl (by decide)⟩

end ControlHandshake

end Tailgate
