import Mathlib
import Tailgate.BigEndian

/-!
# Reading a collection

The answer to a client that asks what a directory has is a document: a text that opens it,
a text for the directory and for each of those below it, and a text that closes it. What is
read does not depend on the sizes of the reads. It is the whole document, unless it is too
long or has a directory whose path is not a valid one (`domain_not_listed`).
-/

namespace Tailgate

namespace Dirfs

open List

inductive CollectionDepth
  | self
  | children
  | recursive
  deriving DecidableEq

inductive ReadError
  | invalidPath
  | limit
  | invalidState
  deriving DecidableEq

/-- What is asked for, of the catalog there is. -/
structure Request where
  domain : Bytes
  remotes : List Bytes
  root : List Bytes
  depth : CollectionDepth
  /-- The text for a path and a name, with the properties that are asked for. -/
  response : Bytes → Bytes → Bytes

/-- What is made next. -/
inductive Stage
  | opening
  | root
  | domain
  | peers
  | closing
  | complete
  deriving DecidableEq

/-- **A reader**, with what it has made and not given out. -/
structure CollectionReader where
  stage : Stage := .opening
  peer : ℕ := 0
  pending : Bytes := []
  offset : ℕ := 0
  generated : ℕ := 0
  failed : Bool := false

def maximumResponseBytes : ℕ := 16 * 1024 * 1024

def openingText : Bytes :=
  "<?xml version=\"1.0\" encoding=\"UTF-8\"?><D:multistatus xmlns:D=\"DAV:\">".toUTF8.toList

def closingText : Bytes := "</D:multistatus>".toUTF8.toList

def validSegment (segment : Bytes) : Bool :=
  segment ≠ [] ∧ segment ≠ [0x2e] ∧ segment ≠ [0x2e, 0x2e] ∧
    ∀ ch ∈ segment, 0x20 ≤ ch ∧ ch ≠ 127 ∧ ch ≠ 0x2f ∧ ch ≠ 0x5c

def unreserved (ch : UInt8) : Bool :=
  0x30 ≤ ch ∧ ch ≤ 0x39 ∨ 0x41 ≤ ch ∧ ch ≤ 0x5a ∨ 0x61 ≤ ch ∧ ch ≤ 0x7a ∨
    ch ∈ [0x2d, 0x2e, 0x5f, 0x7e]

def hexDigit (n : UInt8) : UInt8 := if n < 10 then 0x30 + n else 0x37 + n

def encode (segments : List Bytes) : Bytes :=
  segments.flatMap (fun segment => 0x2f :: segment.flatMap fun ch =>
    if unreserved ch then [ch] else [0x25, hexDigit (ch / 16), hexDigit (ch % 16)]) ++ [0x2f]

def validPath (segments : List Bytes) : Bool :=
  segments.length ≤ 128 ∧ (∀ segment ∈ segments, validSegment segment) ∧
    (encode segments).length ≤ 16 * 1024

variable (q : Request)

def collection (segments : List Bytes) : Except ReadError Bytes :=
  if validPath segments then .ok (q.response (encode segments) (segments.getLastD []))
  else .error .invalidPath

def generate (r : CollectionReader) : Except ReadError CollectionReader :=
  match r.stage with
  | .opening => return { r with pending := openingText, stage := .root }
  | .root => return { r with
      pending := ← collection q q.root
      stage :=
        if q.depth = .self then .closing
        else if q.root = [] then .domain
        else if q.root.length = 1 ∧ q.remotes ≠ [] then .peers
        else .closing }
  | .domain => return { r with
      pending := ← collection q [q.domain]
      stage := if q.depth = .recursive ∧ q.remotes ≠ [] then .peers else .closing }
  | .peers => return { r with
      pending := ← collection q [q.domain, q.remotes.getD r.peer []]
      peer := r.peer + 1
      stage := if r.peer + 1 = q.remotes.length then .closing else .peers }
  | .closing => return { r with pending := closingText, stage := .complete }
  | .complete => return r

def CollectionReader.finished (r : CollectionReader) : Bool :=
  !r.failed && r.stage == .complete && r.offset == r.pending.length

def CollectionReader.take (maximumBytes : ℕ) (r : CollectionReader) :
    Except ReadError Bytes × CollectionReader :=
  let count := min maximumBytes (r.pending.length - r.offset)
  (.ok ((r.pending.drop r.offset).take count), { r with offset := r.offset + count })

def read (maximumBytes : ℕ) (r : CollectionReader) :
    Except ReadError Bytes × CollectionReader :=
  if r.failed ∨ maximumBytes = 0 then (.error .invalidState, r)
  else if r.finished then (.ok [], r)
  else if r.offset = r.pending.length then
    let r := { r with pending := [], offset := 0 }
    match generate q r with
    | .error error => (.error error, { r with failed := true })
    | .ok r =>
      if maximumResponseBytes - r.generated < r.pending.length then
        (.error .limit, { r with failed := true })
      else { r with generated := r.generated + r.pending.length }.take maximumBytes
  else r.take maximumBytes

/-! ## The document -/

/-- **The directories that are listed** below the root, as the depth has it. -/
def listed : List (List Bytes) :=
  match q.depth, q.root with
  | .self, _ => []
  | .children, [] => [[q.domain]]
  | .recursive, [] => [q.domain] :: q.remotes.map ([q.domain, ·])
  | _, [_] => q.remotes.map ([q.domain, ·])
  | _, _ => []

/-- The texts are put together, if there is room for them. -/
def assemble (room : ℕ) : List (Except ReadError Bytes) → Except ReadError Bytes
  | [] => .ok []
  | .error error :: _ => .error error
  | .ok text :: texts =>
    if room < text.length then .error .limit
    else (text ++ ·) <$> assemble (room - text.length) texts

def texts (paths : List (List Bytes)) : List (Except ReadError Bytes) :=
  paths.map (collection q) ++ [.ok closingText]

def document : Except ReadError Bytes :=
  assemble maximumResponseBytes (.ok openingText :: texts q (q.root :: listed q))

/-- What there is still to be made. -/
def todo : Stage → ℕ → List (Except ReadError Bytes)
  | .opening, _ => .ok openingText :: texts q (q.root :: listed q)
  | .root, _ => texts q (q.root :: listed q)
  | .domain, _ =>
    texts q ([q.domain] :: if q.depth = .recursive then q.remotes.map ([q.domain, ·]) else [])
  | .peers, peer => texts q ((q.remotes.drop peer).map ([q.domain, ·]))
  | .closing, _ => [.ok closingText]
  | .complete, _ => []

def InRange : Stage → ℕ → Prop
  | .peers, peer => peer < q.remotes.length
  | .closing, _ | .complete, _ => True
  | _, peer => peer = 0

variable {q} {r : CollectionReader}

/-- **A text is made at a time**, the next of those there are to be made. -/
theorem generate_spec (hr : InRange q r.stage r.peer) (hs : r.stage ≠ .complete) :
    ∃ text stage peer, todo q r.stage r.peer = text :: todo q stage peer ∧
      InRange q stage peer ∧ text ≠ .error .invalidState ∧
      generate q r = (fun pending => { r with pending, stage, peer }) <$> text := by
  have hcol : ∀ path, collection q path ≠ .error .invalidState := by
    intro path
    unfold collection
    split <;> simp
  obtain ⟨stage, peer, _⟩ := r
  cases stage with
  | opening => exact ⟨_, .root, peer, rfl, hr, nofun, rfl⟩
  | root =>
    cases (hr : peer = 0)
    refine ⟨_, _, 0, ?_, ?_, hcol _, map_eq_pure_bind .. |>.symm⟩
    all_goals
      obtain ⟨domain, remotes, root, depth⟩ := q
      cases depth <;> rcases root with _ | ⟨_, _ | _⟩ <;> cases remotes <;>
        simp [todo, texts, listed, InRange]
  | domain =>
    cases (hr : peer = 0)
    refine ⟨_, _, 0, ?_, ?_, hcol _, map_eq_pure_bind .. |>.symm⟩
    all_goals
      by_cases hd : q.depth = .recursive <;> by_cases hq : q.remotes = [] <;>
        simp [todo, texts, InRange, hd, hq, length_pos_iff]
  | peers =>
    have hlt : peer < q.remotes.length := hr
    refine ⟨_, _, peer + 1, ?_, ?_, hcol _, map_eq_pure_bind .. |>.symm⟩
    · rw [todo, texts, drop_eq_getElem_cons hlt, map_cons, map_cons, cons_append]
      congr 1
      · simp [hlt]
      · split
        · simp_all [todo]
        · rfl
    · dsimp only
      split
      · trivial
      · exact Nat.lt_of_le_of_ne hlt ‹_›
  | closing => exact ⟨_, .complete, peer, rfl, trivial, nofun, rfl⟩
  | complete => exact absurd rfl hs

variable (q) in
def rest (r : CollectionReader) : Except ReadError Bytes :=
  (r.pending.drop r.offset ++ ·) <$>
    assemble (maximumResponseBytes - r.generated) (todo q r.stage r.peer)

variable (q) in
def weight (r : CollectionReader) : ℕ :=
  r.pending.length - r.offset + ((todo q r.stage r.peer).map
    fun | .ok text => text.length + 1 | .error _ => 1).sum

variable (q) in
structure Live (r : CollectionReader) : Prop where
  ok : r.failed = false
  stage : InRange q r.stage r.peer
  offset : r.offset ≤ r.pending.length

theorem take_spec {n : ℕ} (hn : 0 < n) (h : Live q r) :
    ∃ text after, r.take n = (.ok text, after) ∧ Live q after ∧
      rest q r = (text ++ ·) <$> rest q after ∧
      weight q after + (if r.offset = r.pending.length then 0 else 1) ≤ weight q r := by
  have hle := h.offset
  refine ⟨_, _, rfl, ⟨h.ok, h.stage, by dsimp only; omega⟩, ?_, ?_⟩
  · simp [rest, ← append_assoc, ← drop_drop]
  · dsimp only [weight]
    split <;> omega

/-- **A read gives some of the rest**, or the error there is in it. -/
theorem read_spec {n : ℕ} (hn : 0 < n) (h : Live q r) (hf : r.finished = false) :
    (∃ text after, read q n r = (.ok text, after) ∧ Live q after ∧
      rest q r = (text ++ ·) <$> rest q after ∧ weight q after < weight q r) ∨
    ∃ error after, read q n r = (.error error, after) ∧ after.failed ∧
      rest q r = .error error ∧ error ≠ .invalidState := by
  unfold read
  rw [if_neg (by simp [h.ok, hn.ne']), if_neg (by simp [hf])]
  split
  · rename_i hoff
    have hs : r.stage ≠ .complete := by
      intro hs
      simp [CollectionReader.finished, h.ok, hs, hoff] at hf
    obtain ⟨part, stage, peer, htodo, hin, hne, hgen⟩ :=
      generate_spec (r := { r with pending := [], offset := 0 }) h.stage hs
    dsimp only at htodo hgen ⊢
    rw [hgen, rest, htodo, hoff, drop_length]
    cases part with
    | error error => exact .inr ⟨error, _, rfl, rfl, rfl, fun he => hne (he ▸ rfl)⟩
    | ok text =>
      by_cases hlt : maximumResponseBytes - r.generated < text.length
      · refine .inr ⟨.limit, _, if_pos hlt, rfl, ?_, nofun⟩
        simp [assemble, hlt]
      · obtain ⟨out, after, htake, hlive, hrest, hweight⟩ := take_spec
          (r := { r with
            pending := text, offset := 0, stage, peer, generated := r.generated + text.length })
          hn ⟨h.ok, hin, Nat.zero_le _⟩
        refine .inl ⟨out, after, (if_neg hlt).trans htake, hlive, ?_, ?_⟩
        · rw [← hrest]
          simp [assemble, hlt, rest, Nat.sub_add_eq]
        · refine lt_of_le_of_lt (Nat.le_of_add_right_le hweight) ?_
          simp [weight, htodo]
          omega
  · rename_i hoff
    obtain ⟨text, after, htake, hlive, hrest, hweight⟩ := take_spec hn h
    rw [if_neg hoff] at hweight
    exact .inl ⟨text, after, htake, hlive, hrest, hweight⟩

/-! ## The reads -/

section

variable (q) (sizes : ℕ → ℕ)

/-- The reader after some reads, of the sizes that they have. -/
def reader : ℕ → CollectionReader
  | 0 => {}
  | k + 1 => (read q (sizes k) (reader k)).2

def result (k : ℕ) : Except ReadError Bytes :=
  (read q (sizes k) (reader q sizes k)).1

/-- The reads end: the document has been read, or a read has failed. -/
def Ends (k : ℕ) : Prop :=
  ∃ parts : List Bytes, (range k).map (result q sizes) = parts.map .ok ∧
    ((reader q sizes k).finished ∧ document q = .ok parts.flatten ∨
      ∃ error, error ≠ .invalidState ∧ document q = .error error ∧
        result q sizes k = .error error ∧ ∀ j > k, result q sizes j = .error .invalidState)

end

variable {sizes : ℕ → ℕ}

theorem result_of_failed {k : ℕ} (h : (reader q sizes (k + 1)).failed) :
    ∀ j > k, result q sizes j = .error .invalidState := by
  have hread : ∀ n (r : CollectionReader), r.failed → read q n r = (.error .invalidState, r) :=
    fun n r hr => if_pos (.inl hr)
  have hfail : ∀ j > k, (reader q sizes j).failed := by
    intro j hj
    induction hj with
    | refl => exact h
    | step _ ih => rwa [reader, hread _ _ ih]
  intro j hj
  rw [result, hread _ _ (hfail j hj)]

theorem ends_or_goes_on (hpos : ∀ k, 0 < sizes k) (k : ℕ) :
    (∃ j, Ends q sizes j) ∨ ∃ parts : List Bytes,
      (range k).map (result q sizes) = parts.map .ok ∧ Live q (reader q sizes k) ∧
      document q = (parts.flatten ++ ·) <$> rest q (reader q sizes k) ∧
      weight q (reader q sizes k) + k ≤ weight q {} := by
  induction k with
  | zero =>
    refine .inr ⟨[], rfl, ⟨rfl, rfl, le_rfl⟩, ?_, le_rfl⟩
    simp [rest, reader, document, todo]
  | succ k ih =>
    obtain hends | ⟨parts, hres, hlive, hdoc, hweight⟩ := ih
    · exact .inl hends
    by_cases hf : (reader q sizes k).finished
    · refine .inl ⟨k, parts, hres, .inl ⟨hf, ?_⟩⟩
      simp only [CollectionReader.finished, Bool.and_eq_true, beq_iff_eq] at hf
      simp [hdoc, rest, hf, todo, assemble]
    obtain ⟨text, after, hread, hafter, hrest, hlt⟩ | ⟨error, after, hread, hfail, hrest, hne⟩ :=
      read_spec (hpos k) hlive (by simpa using hf)
    · have hk : reader q sizes (k + 1) = after := congrArg Prod.snd hread
      refine .inr ⟨parts ++ [text], ?_, hk ▸ hafter, ?_, by rw [hk]; omega⟩
      · simp [range_succ, hres, result, hread]
      · rw [hdoc, hrest, hk]
        simp
    · refine .inl ⟨k, parts, hres, .inr ⟨error, hne, ?_, congrArg Prod.fst hread, ?_⟩⟩
      · rw [hdoc, hrest]
        rfl
      · exact result_of_failed ((congrArg (·.2.failed) hread).trans hfail)

/-- **What is read does not depend on the sizes of the reads.** After finitely many, all that
was read is the document, or there was an error in it and a read has failed. -/
theorem reads_document (q : Request) (sizes : ℕ → ℕ) (hpos : ∀ k, 0 < sizes k) :
    ∃ k, Ends q sizes k := by
  obtain hends | ⟨_, _, _, _, hweight⟩ := ends_or_goes_on hpos (weight q {} + 1)
  · exact hends
  · omega

/-- A domain with two remotes. -/
def sharedDomain : Request :=
  ⟨[97], [[98], [99]], [], .recursive, fun path _ => path⟩

theorem reads_document_shared : (document sharedDomain).isOk ∧
    ∃ k, Ends sharedDomain (· % 3 + 1) k :=
  ⟨by decide +kernel, reads_document sharedDomain _ fun _ => Nat.succ_pos _⟩

def namelessDomain : Request := ⟨[], [], [], .children, fun path _ => path⟩

/-- The domain is to be listed, but its name is not a segment of a path. -/
theorem domain_not_listed : listed namelessDomain = [[[]]] ∧
    result namelessDomain (fun _ => 1000) 2 = .error .invalidPath ∧
    ∀ k > 2, result namelessDomain (fun _ => 1000) k = .error .invalidState :=
  ⟨by decide, by decide +kernel, result_of_failed (by decide +kernel)⟩

end Dirfs

end Tailgate
