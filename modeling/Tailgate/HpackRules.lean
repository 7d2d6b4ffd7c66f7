import Tailgate.BigEndian
import Tailgate.PrefixCodes

/-!
# What header blocks mean

A *header block* is a sequence of representations. Each refers to a table, gives
a field literally, which may be inserted, or changes the size of the table. A
representation is related to all the ways to write it (`Encodes`), and a block to
the fields it stands for and the table it leaves (`Decodes`). Both are determined
by the block (`Decodes.unique`).
-/

namespace Tailgate

open List

namespace Hpack

/-- A relation between things and the ways to write them in which a beginning of
a text is a way to write one thing at most. -/
def Unambiguous {α β : Type} (R : α → List β → Prop) : Prop :=
  ∀ ⦃a a' : α⦄ ⦃b b' rest rest' : List β⦄, R a b → R a' b' → b ++ rest = b' ++ rest' →
    a = a' ∧ b = b'

/-! ## Numbers -/

/-- What follows a number that does not fit into the bits it begins in: seven
bits at a time, the least significant first. -/
inductive Continuation : ℕ → Bytes → Prop
  | last {b : UInt8} : b.toNat < 128 → Continuation b.toNat [b]
  | more {b : UInt8} {n : ℕ} {bytes : Bytes} : 128 ≤ b.toNat → Continuation n bytes →
      Continuation (b.toNat - 128 + 128 * n) (b :: bytes)

/-- **A number** in the last bits of a byte whose first ones are `flags`. -/
inductive Integer (flags width : ℕ) : ℕ → Bytes → Prop
  | short {first : UInt8} {n : ℕ} : first.toNat = flags + n → n < 2 ^ width - 1 →
      Integer flags width n [first]
  | long {first : UInt8} {n : ℕ} {bytes : Bytes} : first.toNat = flags + (2 ^ width - 1) →
      Continuation n bytes → Integer flags width (2 ^ width - 1 + n) (first :: bytes)

theorem unambiguous_continuation : Unambiguous Continuation := by
  intro _ n' _ b' _ _ h h' heq
  induction h generalizing n' b' with
  | last =>
    cases h' with
    | last =>
      cases heq
      exact ⟨rfl, rfl⟩
    | more =>
      cases heq
      omega
  | more _ _ ih =>
    cases h' with
    | last =>
      cases heq
      omega
    | more _ hrs' =>
      obtain ⟨rfl, htl⟩ := cons.inj heq
      obtain ⟨rfl, rfl⟩ := ih hrs' htl
      exact ⟨rfl, rfl⟩

section Integers

variable {flags width n : ℕ} {bytes : Bytes}

theorem Integer.first (h : Integer flags width n bytes) :
    ∃ first rest, bytes = first :: rest ∧ flags ≤ first.toNat
      ∧ first.toNat < flags + 2 ^ width := by
  have hpos := Nat.two_pow_pos width
  cases h with
  | short | long => exact ⟨_, _, rfl, by omega, by omega⟩

theorem unambiguous_integer (flags width : ℕ) : Unambiguous (Integer flags width) := by
  intro _ _ _ _ _ _ h h' heq
  cases h with
  | short =>
    cases h' with
    | short =>
      cases heq
      exact ⟨by omega, rfl⟩
    | long =>
      cases heq
      omega
  | long _ hrs =>
    cases h' with
    | short =>
      cases heq
      omega
    | long _ hrs' =>
      obtain ⟨rfl, htl⟩ := cons.inj heq
      obtain ⟨rfl, rfl⟩ := unambiguous_continuation hrs hrs' htl
      exact ⟨rfl, rfl⟩

/-- Numbers in bytes whose other bits differ are not written in the same way. -/
theorem Integer.disjoint {flags' width' n' : ℕ} {bs' rest rest' : Bytes}
    (h : Integer flags width n bytes) (h' : Integer flags' width' n' bs')
    (hlt : flags + 2 ^ width ≤ flags') : bytes ++ rest ≠ bs' ++ rest' := by
  obtain ⟨_, _, rfl, -, _⟩ := h.first
  obtain ⟨_, _, rfl, _, -⟩ := h'.first
  intro heq
  obtain ⟨rfl, -⟩ := cons.inj heq
  omega

end Integers

/-! ## Strings -/

def bits (bytes : Bytes) : List Bool :=
  bytes.flatMap fun b => (range 8).map fun i => b.toNat.testBit (7 - i)

/-- How long the words of the prefix code are: of the 256 bytes, and of the one
that marks the end. -/
def huffmanLengths : List ℕ :=
  [13, 23, 28, 28, 28, 28, 28, 28, 28, 24, 30, 28, 28, 30, 28, 28,
   28, 28, 28, 28, 28, 28, 30, 28, 28, 28, 28, 28, 28, 28, 28, 28,
   6, 10, 10, 12, 13, 6, 8, 11, 10, 10, 8, 11, 8, 6, 6, 6,
   5, 5, 5, 6, 6, 6, 6, 6, 6, 6, 7, 8, 15, 6, 12, 10,
   13, 6, 7, 7, 7, 7, 7, 7, 7, 7, 7, 7, 7, 7, 7, 7,
   7, 7, 7, 7, 7, 7, 7, 7, 8, 7, 8, 13, 19, 13, 14, 6,
   15, 5, 6, 5, 6, 5, 6, 6, 6, 5, 7, 7, 6, 6, 6, 5,
   6, 7, 6, 5, 5, 6, 7, 7, 7, 7, 7, 15, 11, 14, 13, 28,
   20, 22, 20, 20, 22, 22, 22, 23, 22, 23, 23, 23, 23, 23, 24, 23,
   24, 24, 22, 23, 24, 23, 23, 23, 23, 21, 22, 23, 22, 23, 23, 24,
   22, 21, 20, 22, 22, 23, 23, 21, 23, 22, 22, 24, 21, 22, 23, 23,
   21, 21, 22, 21, 23, 22, 23, 23, 20, 22, 22, 22, 23, 22, 22, 23,
   26, 26, 20, 19, 22, 23, 22, 25, 26, 26, 26, 27, 27, 26, 24, 25,
   19, 21, 26, 27, 27, 26, 27, 24, 21, 21, 26, 26, 28, 27, 27, 27,
   20, 24, 20, 21, 22, 21, 21, 23, 22, 22, 25, 25, 24, 24, 26, 23,
   26, 27, 26, 26, 27, 27, 27, 27, 27, 28, 27, 27, 27, 27, 27, 26,
   30]

def huffmanSymbols : List (ℕ × ℕ) :=
  (range 31).flatMap fun length =>
    (huffmanLengths.zipIdx.filter fun entry => entry.1 = length).map fun entry =>
      (entry.2, entry.1)

/-- **The words of the prefix code.** -/
def huffmanWords : List (PrefixCode.CodeWord ℕ) := PrefixCode.assign 0 0 huffmanSymbols

def huffmanCode (symbol : ℕ) : List Bool :=
  ((huffmanWords.find? fun w => w.symbol = symbol).map PrefixCode.CodeWord.bits).getD []

def endOfString : ℕ := 256

section Huffman

theorem isChain_huffmanSymbols : (0 :: huffmanSymbols.map Prod.snd).IsChain (· ≤ ·) := by
  decide +kernel

theorem code_lt_of_mem : ∀ w ∈ huffmanWords, w.code < 2 ^ w.length := by
  decide +kernel

theorem length_huffmanLengths : huffmanLengths.length = endOfString + 1 := by
  decide +kernel

theorem lt_of_mem_huffmanLengths : ∀ len ∈ huffmanLengths, len < 31 := by
  decide +kernel

theorem exists_word {sym : ℕ} (h : sym ≤ endOfString) :
    ∃ w ∈ huffmanWords, w.symbol = sym ∧ huffmanCode sym = w.bits := by
  have hlt : sym < huffmanLengths.length := by
    rw [length_huffmanLengths]
    omega
  have hey : (huffmanLengths[sym], sym) ∈ huffmanLengths.zipIdx :=
    mem_zipIdx_iff_getElem?.mpr (getElem?_eq_getElem hlt)
  have hss : sym ∈ huffmanWords.map PrefixCode.CodeWord.symbol := by
    unfold huffmanWords
    rw [PrefixCode.map_symbol_assign]
    refine mem_map.mpr ⟨(sym, huffmanLengths[sym]), ?_, rfl⟩
    refine mem_flatMap.mpr ⟨huffmanLengths[sym], ?_, ?_⟩
    · exact mem_range.mpr (lt_of_mem_huffmanLengths _ (getElem_mem hlt))
    · exact mem_map.mpr ⟨_, mem_filter.mpr ⟨hey, decide_eq_true rfl⟩, rfl⟩
  unfold huffmanCode
  cases hfd : huffmanWords.find? fun w => w.symbol = sym with
  | none =>
    obtain ⟨w, hw, hsy⟩ := mem_map.mp hss
    exact absurd (decide_eq_true hsy) (find?_eq_none.mp hfd w hw)
  | some w =>
    have hsy := find?_some hfd
    rw [decide_eq_true_eq] at hsy
    exact ⟨w, mem_of_find?_eq_some hfd, hsy, rfl⟩

/-- **No word begins another one.** -/
theorem eq_of_huffmanCode_begins {symbol symbol' : ℕ} (h : symbol ≤ endOfString)
    (h' : symbol' ≤ endOfString) (hft : huffmanCode symbol <+: huffmanCode symbol') :
    symbol = symbol' := by
  obtain ⟨_, hw, rfl, hco⟩ := exists_word h
  obtain ⟨_, hw', rfl, hco'⟩ := exists_word h'
  rw [hco, hco'] at hft
  rw [PrefixCode.eq_of_begins (PrefixCode.pairwise_assign isChain_huffmanSymbols) code_lt_of_mem
    hw hw' hft]

end Huffman

/-- **A string in the prefix code**, filled up with fewer than eight bits of the
word that marks the end. -/
def HuffmanCoded (text data : Bytes) : Prop :=
  ∃ padding, bits data = text.flatMap (fun b => huffmanCode b.toNat) ++ padding
    ∧ padding.length < 8 ∧ padding <+: huffmanCode endOfString

theorem HuffmanCoded.unique {text text' data : Bytes} (h : HuffmanCoded text data)
    (h' : HuffmanCoded text' data) : text = text' := by
  obtain ⟨padding, hbt, -, hpd⟩ := h
  obtain ⟨_, hbt', -, hpd'⟩ := h'
  have hle (b : UInt8) : b.toNat ≤ endOfString := b.toNat_lt.le
  have hne (b : UInt8) {padding : List Bool} (hend : padding <+: huffmanCode endOfString) :
      ¬huffmanCode b.toNat <+: padding := by
    intro hft
    have heq := eq_of_huffmanCode_begins (hle b) (le_refl _) (hft.trans hend)
    have hlt := b.toNat_lt
    unfold endOfString at heq
    omega
  refine (PrefixCode.coded_inj (fun a b hab => ?_) (fun b => hne b hpd)
    (fun b => hne b hpd') (hbt.symm.trans hbt')).1
  exact UInt8.toNat_inj.mp (eq_of_huffmanCode_begins (hle a) (hle b) hab)

/-- **A string**, after its length. -/
inductive Text : Bytes → Bytes → Prop
  | plain {text length : Bytes} : Integer 0 7 text.length length → Text text (length ++ text)
  | huffman {text data length : Bytes} : Integer 128 7 data.length length →
      HuffmanCoded text data → Text text (length ++ data)

theorem unambiguous_text : Unambiguous Text := by
  intro _ _ _ _ _ _ h h' heq
  cases h with
  | plain hlen =>
    cases h' with
    | plain hlen' =>
      rw [append_assoc, append_assoc] at heq
      obtain ⟨hsm, rfl⟩ := unambiguous_integer 0 7 hlen hlen' heq
      obtain ⟨rfl, -⟩ := append_inj (append_cancel_left heq) hsm
      exact ⟨rfl, rfl⟩
    | huffman hlen' =>
      rw [append_assoc, append_assoc] at heq
      exact absurd heq (hlen.disjoint hlen' (by decide))
  | huffman hlen hcd =>
    cases h' with
    | plain hlen' =>
      rw [append_assoc, append_assoc] at heq
      exact absurd heq.symm (hlen'.disjoint hlen (by decide))
    | huffman hlen' hcd' =>
      rw [append_assoc, append_assoc] at heq
      obtain ⟨hsm, rfl⟩ := unambiguous_integer 128 7 hlen hlen' heq
      obtain ⟨rfl, -⟩ := append_inj (append_cancel_left heq) hsm
      exact ⟨hcd.unique hcd', rfl⟩

/-! ## Representations -/

/-- How a literal field is written: whether it is to be inserted, and whether it
may be inserted by others who pass it on. -/
inductive Literal
  | incremental
  | withoutIndexing
  | neverIndexed
  deriving DecidableEq

namespace Literal

def flags : Literal → ℕ
  | incremental => 64
  | withoutIndexing => 0
  | neverIndexed => 16

def width : Literal → ℕ
  | incremental => 6
  | withoutIndexing => 4
  | neverIndexed => 4

def inserts : Literal → Bool
  | incremental => true
  | withoutIndexing => false
  | neverIndexed => false

theorem apart (kind kind' : Literal) : kind = kind' ∨ kind.flags + 2 ^ kind.width ≤ kind'.flags
    ∨ kind'.flags + 2 ^ kind'.width ≤ kind.flags := by
  cases kind <;> cases kind' <;> decide

end Literal

inductive Name
  | entry (index : ℕ)
  | new (name : Bytes)

inductive Instruction
  | indexed (index : ℕ)
  | literal (inserts : Bool) (name : Name) (value : Bytes)
  | resize (maximum : ℕ)

inductive NameCoded (kind : Literal) : Name → Bytes → Prop
  | entry {index : ℕ} {b : Bytes} : Integer kind.flags kind.width index b → index ≠ 0 →
      NameCoded kind (.entry index) b
  | new {name b c : Bytes} : Integer kind.flags kind.width 0 b → Text name c →
      NameCoded kind (.new name) (b ++ c)

/-- **How a representation is written.** -/
inductive Encodes : Instruction → Bytes → Prop
  | indexed {index : ℕ} {b : Bytes} : Integer 128 7 index b → Encodes (.indexed index) b
  | literal {kind : Literal} {name : Name} {value b c : Bytes} : NameCoded kind name b →
      Text value c → Encodes (.literal kind.inserts name value) (b ++ c)
  | resize {maximum : ℕ} {b : Bytes} : Integer 32 5 maximum b → Encodes (.resize maximum) b

theorem NameCoded.integer {kind : Literal} {name : Name} {b : Bytes}
    (h : NameCoded kind name b) :
    ∃ index front rest, Integer kind.flags kind.width index front ∧ b = front ++ rest := by
  cases h with
  | entry hix => exact ⟨_, _, [], hix, (append_nil _).symm⟩
  | new hzero => exact ⟨_, _, _, hzero, rfl⟩

variable {b b' rest rest' : Bytes}

theorem NameCoded.kind_eq {kind kind' : Literal} {name name' : Name}
    (h : NameCoded kind name b) (h' : NameCoded kind' name' b') (heq : b ++ rest = b' ++ rest') :
    kind = kind' := by
  obtain ⟨_, _, _, hix, rfl⟩ := h.integer
  obtain ⟨_, _, _, hix', rfl⟩ := h'.integer
  rw [append_assoc, append_assoc] at heq
  rcases kind.apart kind' with hkind | hle | hle
  · exact hkind
  · exact absurd heq (hix.disjoint hix' hle)
  · exact absurd heq.symm (hix'.disjoint hix hle)

theorem unambiguous_nameCoded (kind : Literal) : Unambiguous (NameCoded kind) := by
  intro _ _ _ _ _ _ h h' heq
  cases h with
  | entry hix hne =>
    cases h' with
    | entry hix' =>
      obtain ⟨rfl, rfl⟩ := unambiguous_integer _ _ hix hix' heq
      exact ⟨rfl, rfl⟩
    | new hzero =>
      rw [append_assoc] at heq
      exact absurd (unambiguous_integer _ _ hix hzero heq).1 hne
  | new hzero htx =>
    cases h' with
    | entry hix' hne' =>
      rw [append_assoc] at heq
      exact absurd (unambiguous_integer _ _ hix' hzero heq.symm).1 hne'
    | new hz' htx' =>
      rw [append_assoc, append_assoc] at heq
      obtain ⟨-, rfl⟩ := unambiguous_integer _ _ hzero hz' heq
      obtain ⟨rfl, rfl⟩ := unambiguous_text htx htx' (append_cancel_left heq)
      exact ⟨rfl, rfl⟩

theorem NameCoded.disjoint {kind : Literal} {name : Name} {flags width n : ℕ}
    (h : NameCoded kind name b) (h' : Integer flags width n b')
    (hap : kind.flags + 2 ^ kind.width ≤ flags ∨ flags + 2 ^ width ≤ kind.flags) :
    b ++ rest ≠ b' ++ rest' := by
  obtain ⟨_, _, _, hix, rfl⟩ := h.integer
  rw [append_assoc]
  rcases hap with hle | hle
  · exact hix.disjoint h' hle
  · exact fun heq => h'.disjoint hix hle heq.symm

/-- **No two representations are written in the same way.** -/
theorem unambiguous_encodes : Unambiguous Encodes := by
  intro _ _ _ _ _ _ h h' heq
  cases h with
  | indexed hix =>
    cases h' with
    | indexed hix' =>
      obtain ⟨rfl, rfl⟩ := unambiguous_integer _ _ hix hix' heq
      exact ⟨rfl, rfl⟩
    | @literal kind _ _ _ _ hnm htx =>
      rw [append_assoc] at heq
      exact absurd heq.symm (hnm.disjoint hix (by cases kind <;> decide))
    | resize hmx => exact absurd heq.symm (hmx.disjoint hix (by decide))
  | @literal kind _ _ _ _ hnm htx =>
    cases h' with
    | indexed hix =>
      rw [append_assoc] at heq
      exact absurd heq (hnm.disjoint hix (by cases kind <;> decide))
    | @literal kind' _ _ _ _ hnm' htx' =>
      rw [append_assoc, append_assoc] at heq
      obtain rfl := hnm.kind_eq hnm' heq
      obtain ⟨rfl, rfl⟩ := unambiguous_nameCoded kind hnm hnm' heq
      obtain ⟨rfl, rfl⟩ := unambiguous_text htx htx' (append_cancel_left heq)
      exact ⟨rfl, rfl⟩
    | resize hmx =>
      rw [append_assoc] at heq
      exact absurd heq (hnm.disjoint hmx (by cases kind <;> decide))
  | resize hmx =>
    cases h' with
    | indexed hix => exact absurd heq (hmx.disjoint hix (by decide))
    | @literal kind _ _ _ _ hnm htx =>
      rw [append_assoc] at heq
      exact absurd heq.symm (hnm.disjoint hmx (by cases kind <;> decide))
    | resize hmx' =>
      obtain ⟨rfl, rfl⟩ := unambiguous_integer _ _ hmx hmx' heq
      exact ⟨rfl, rfl⟩

theorem Encodes.ne_nil {i : Instruction} {b : Bytes} (h : Encodes i b) : b ≠ [] := by
  have hin {flags width n : ℕ} {b : Bytes} (h : Integer flags width n b) : b ≠ [] := by
    obtain ⟨_, _, rfl, -⟩ := h.first
    exact cons_ne_nil _ _
  cases h with
  | indexed hix => exact hin hix
  | literal hnm =>
    obtain ⟨_, _, _, hix, rfl⟩ := hnm.integer
    exact append_ne_nil_of_left_ne_nil (append_ne_nil_of_left_ne_nil (hin hix) _) _
  | resize hmx => exact hin hmx

/-! ## The table -/

structure HeaderField where
  name : Bytes
  value : Bytes

def HeaderField.size (f : HeaderField) : ℕ := f.name.length + f.value.length + 32

def tableSize (entries : List HeaderField) : ℕ := (entries.map HeaderField.size).sum

def ascii (text : String) : Bytes := text.toList.map fun c => UInt8.ofNat c.toNat

/-- **The entries that are always there.** -/
def staticTable : List HeaderField :=
  [(":authority", ""), (":method", "GET"), (":method", "POST"), (":path", "/"),
   (":path", "/index.html"), (":scheme", "http"), (":scheme", "https"), (":status", "200"),
   (":status", "204"), (":status", "206"), (":status", "304"), (":status", "400"),
   (":status", "404"), (":status", "500"), ("accept-charset", ""),
   ("accept-encoding", "gzip, deflate"), ("accept-language", ""), ("accept-ranges", ""),
   ("accept", ""), ("access-control-allow-origin", ""), ("age", ""), ("allow", ""),
   ("authorization", ""), ("cache-control", ""), ("content-disposition", ""),
   ("content-encoding", ""), ("content-language", ""), ("content-length", ""),
   ("content-location", ""), ("content-range", ""), ("content-type", ""), ("cookie", ""),
   ("date", ""), ("etag", ""), ("expect", ""), ("expires", ""), ("from", ""), ("host", ""),
   ("if-match", ""), ("if-modified-since", ""), ("if-none-match", ""), ("if-range", ""),
   ("if-unmodified-since", ""), ("last-modified", ""), ("link", ""), ("location", ""),
   ("max-forwards", ""), ("proxy-authenticate", ""), ("proxy-authorization", ""), ("range", ""),
   ("referer", ""), ("refresh", ""), ("retry-after", ""), ("server", ""), ("set-cookie", ""),
   ("strict-transport-security", ""), ("transfer-encoding", ""), ("user-agent", ""),
   ("vary", ""), ("via", ""), ("www-authenticate", "")].map fun field =>
    ⟨ascii field.1, ascii field.2⟩

def maximumTableSize : ℕ := 4096

/-- **Entries are taken off the end** until the others are no larger than the
limit. -/
def evictTo (limit : ℕ) (entries : List HeaderField) : List HeaderField :=
  if tableSize entries ≤ limit then entries else evictTo limit entries.dropLast
termination_by entries.length
decreasing_by
  rename_i h
  cases entries with
  | nil => exact absurd (Nat.zero_le limit) h
  | cons => simp

section Evict

variable {limit : ℕ} {entries : List HeaderField}

theorem evictTo_of_le (h : tableSize entries ≤ limit) : evictTo limit entries = entries := by
  rw [evictTo, if_pos h]

theorem evictTo_of_lt (h : limit < tableSize entries) :
    evictTo limit entries = evictTo limit entries.dropLast := by
  rw [evictTo, if_neg (not_le.mpr h)]

theorem tableSize_evictTo_le (limit : ℕ) (entries : List HeaderField) :
    tableSize (evictTo limit entries) ≤ limit := by
  fun_induction evictTo limit entries with
  | case1 _ h => exact h
  | case2 _ _ ih => exact ih

end Evict

/-- **The entries that were inserted**, the latest first. -/
structure Table where
  entries : List HeaderField := []
  maximum : ℕ := maximumTableSize
  size_le : tableSize entries ≤ maximum := by exact Nat.zero_le _
  /-- The table cannot be made larger than allowed. -/
  maximum_le : maximum ≤ maximumTableSize := by exact le_refl _

namespace Table

variable (t : Table)

def entry (index : ℕ) : Option HeaderField :=
  if index = 0 then none else (staticTable ++ t.entries)[index - 1]?

/-- **Insert a field.** Entries make room for it, and a field for which there
can be no room leaves the table empty. -/
def insert (f : HeaderField) : Table :=
  if h : f.size ≤ t.maximum then
    { t with
      entries := f :: evictTo (t.maximum - f.size) t.entries
      size_le := by
        have hle := tableSize_evictTo_le (t.maximum - f.size) t.entries
        unfold tableSize at hle ⊢
        rw [map_cons, sum_cons]
        omega }
  else
    { t with entries := [], size_le := Nat.zero_le _ }

def resize (maximum : ℕ) (h : maximum ≤ maximumTableSize) : Table where
  entries := evictTo maximum t.entries
  maximum := maximum
  size_le := tableSize_evictTo_le maximum t.entries
  maximum_le := h

def name : Name → Option Bytes
  | .entry index => (t.entry index).map HeaderField.name
  | .new name => some name

/-- **What a representation does**: the field it stands for, if any, and the table
then. -/
def execute : Instruction → Option (Option HeaderField × Table)
  | .indexed index => (t.entry index).map fun field => (some field, t)
  | .literal inserts name value => (t.name name).map fun name =>
      (some ⟨name, value⟩, if inserts then t.insert ⟨name, value⟩ else t)
  | .resize maximum =>
    if h : maximum ≤ maximumTableSize then some (none, t.resize maximum h) else none

end Table

/-! ## Blocks -/

/-- **What a block stands for**: the fields, and the table it leaves. -/
inductive Decodes : Table → Bytes → List HeaderField → Table → Prop
  | nil {t : Table} : Decodes t [] [] t
  | cons {t t' t'' : Table} {i : Instruction} {b rest : Bytes} {field : Option HeaderField}
      {fields : List HeaderField} : Encodes i b → t.execute i = some (field, t') →
      Decodes t' rest fields t'' → Decodes t (b ++ rest) (field.toList ++ fields) t''

theorem Decodes.inv {t t'' : Table} {block : Bytes} {all : List HeaderField}
    (h : Decodes t block all t'') (hne : block ≠ []) :
    ∃ i b rest field fields t', Encodes i b ∧ t.execute i = some (field, t')
      ∧ Decodes t' rest fields t'' ∧ block = b ++ rest ∧ all = field.toList ++ fields := by
  cases h with
  | nil => exact absurd rfl hne
  | cons hes hex hrs => exact ⟨_, _, _, _, _, _, hes, hex, hrs, rfl, rfl⟩

/-- **A block stands for one list of fields**, and leaves one table. -/
theorem Decodes.unique {t t' u' : Table} {block : Bytes} {fields others : List HeaderField}
    (h : Decodes t block fields t') (h' : Decodes t block others u') :
    fields = others ∧ t' = u' := by
  induction h generalizing others u' with
  | nil =>
    generalize hbl : ([] : Bytes) = block at h'
    cases h' with
    | nil => exact ⟨rfl, rfl⟩
    | cons hes =>
      exact absurd (append_eq_nil_iff.mp hbl.symm).1 hes.ne_nil
  | cons hes hex _ ih =>
    obtain ⟨_, _, _, _, _, _, hen', hex', hrs', hbl, rfl⟩ :=
      h'.inv (append_ne_nil_of_left_ne_nil hes.ne_nil _)
    obtain ⟨rfl, rfl⟩ := unambiguous_encodes hes hen' hbl
    obtain rfl := append_cancel_left hbl
    rw [hex] at hex'
    cases hex'
    obtain ⟨rfl, rfl⟩ := ih hrs'
    exact ⟨rfl, rfl⟩

end Hpack

end Tailgate
