import Tailgate.ControlReading

/-!
# The decoder of headers and what arrives

The state of the decoder of headers is changed by every block, so it has to be
given every block that arrives, once and in order. It is, exactly if every batch
is read completely. A batch is not if there are headers behind a frame its
reader stops with, or whose answer does not get through, or if the search for
maps finds headers of another stream.
-/

namespace Tailgate

open Procedure H2Codec PartialReads List

/-- **A batch is synchronised** if there are no headers behind a frame its
reader stops with, and its reader decodes all there are. -/
def Batch.Synchronised (b : Batch) : Prop :=
  b.answered.Pairwise (fun f g => b.reader.halts f = true → g.1.type ≠ .headers) ∧
    ∀ f ∈ b.frames, f.type = .headers → b.reader.decodes f = true

instance (b : Batch) : Decidable b.Synchronised :=
  inferInstanceAs (Decidable (_ ∧ _))

theorem Reader.isHeaders_of_decodes {r : Reader} {f : H2Frame} (h : r.decodes f = true) :
    decide (f.type = .headers) = true := by
  cases r with
  | request => exact h
  | map => exact (Bool.and_eq_true_iff.mp h).1

theorem Batch.decoded_sublist (b : Batch) : b.decoded.Sublist (headerBlocks b.frames) := by
  unfold Batch.decoded headerBlocks Batch.read Batch.frames
  rw [filter_map, filter_map]
  exact ((filter_through_sublist (fun _ => Reader.isHeaders_of_decodes) b.answered).map _).map _

/-- **A batch gives the decoder all of its headers exactly if it is
synchronised.** -/
theorem Batch.decoded_eq_iff (b : Batch) : b.decoded = headerBlocks b.frames ↔ b.Synchronised := by
  have hpc (f : H2Frame × Bool) (h : (b.reader.decodes ∘ Prod.fst) f = true) :
      ((fun g : H2Frame => decide (g.type = .headers)) ∘ Prod.fst) f = true :=
    Reader.isHeaders_of_decodes h
  unfold Batch.decoded headerBlocks Batch.read Batch.Synchronised Batch.frames
  rw [filter_map, filter_map, map_map, map_map, map_eq_map_iff (filter_through_sublist hpc _),
    filter_through_eq_iff hpc]
  simp only [decide_eq_false_iff_not, decide_eq_true_eq, Function.comp_apply, forall_mem_map, ne_eq]

theorem headerBlocks_flatMap (bs : List Batch) :
    headerBlocks (bs.flatMap Batch.frames) = bs.flatMap fun b => headerBlocks b.frames := by
  unfold headerBlocks
  rw [filter_flatMap, map_flatMap]

/-! ## Along a run -/

def Trace.Accounted (t : Trace) : Prop := t.decoded = t.batches.flatMap Batch.decoded

variable {v v' : View}

theorem ReadStep.accounted (h : ReadStep v v') (ha : v.trace.Accounted) : v'.trace.Accounted := by
  have hrd {t : Trace} (ht : t.Accounted) (b : Batch) : (t.read b).Accounted := by
    unfold Trace.Accounted Trace.read
    rw [flatMap_append, flatMap_singleton, ← ht]
  cases h with
  | dropped => exact ha
  | requested => exact hrd ha _
  | inserted => exact ha
  | searched => exact hrd ha _

theorem accounted_of_steps (h : Relation.ReflTransGen ReadStep v v')
    (ha : v.trace.Accounted) : v'.trace.Accounted := by
  induction h with
  | refl => exact ha
  | tail _ hsp ih => exact hsp.accounted ih

namespace ControlConnection

variable {δ γ : Type} {decode : Bytes → δ → Option H2Headers × δ}
  {onMap : Bytes → EStateM ControlError (γ × ℕ) Bool} {d₀ : δ}

structure Kept (decode : Bytes → δ → Option H2Headers × δ) (d₀ : δ)
    (c : ControlConnection δ γ) : Prop where
  /-- The decoder has been given what has been decoded. -/
  decoding : Decoding decode d₀ c
  /-- The body of the stream of maps. -/
  aligned : Aligned c
  /-- What has been decoded is accounted for. -/
  accounted : c.trace.Accounted

variable {c : ControlConnection δ γ}

/-- Starting a stream of maps, whether the request gets through or not. -/
theorem after_setPreferredDerp (decode : Bytes → δ → Option H2Headers × δ)
    (c : ControlConnection δ γ) :
    ∃ sends, after (setPreferredDerp decode) c = { c with
      sends
      nextStreamId := (c.nextStreamId + 2) % 2 ^ 32
      mapResponse := .start c.nextStreamId
      trace := { c.trace with appended := [] } } := by
  rcases c with ⟨_, _ | ⟨_ | _, sends⟩, _, _, _, _, _, _⟩
  · exact ⟨[], rfl⟩
  all_goals exact ⟨sends, rfl⟩

theorem Kept.call (h : Kept decode d₀ c) (call : Call) :
    Kept decode d₀ (after (call.run decode onMap) c) := by
  by_cases hstart : call = .setPreferredDerp
  · subst hstart
    obtain ⟨_, hst⟩ := after_setPreferredDerp decode c
    show Kept decode d₀ (after (setPreferredDerp decode) c)
    rw [hst]
    exact ⟨h.decoding, .refl, h.accounted⟩
  · have hrd : Reads decode d₀ c.view (after (call.run decode onMap) c) :=
      Call.reads_after hstart h.decoding h.aligned
    exact ⟨hrd.decoding, hrd.aligned, accounted_of_steps hrd.steps h.accounted⟩

theorem kept_of_reachable (h : (connections decode onMap d₀).Reachable c) : Kept decode d₀ c := by
  refine TransitionSystem.invariant ?_ ?_ h
  · rintro _ ⟨_, _, rfl⟩
    exact ⟨rfl, .refl, rfl⟩
  · rintro c call _ hc rfl
    exact hc.call call

/-- **The decoder of headers follows the server exactly if every batch is
synchronised.** -/
theorem headers_decoded_iff {c : ControlConnection δ γ}
    (h : (connections decode onMap d₀).Reachable c) :
    c.headerDecoder = c.trace.decoded.foldl (fun d payload => (decode payload d).2) d₀ ∧
      (c.trace.decoded = headerBlocks c.trace.extracted ↔
        ∀ b ∈ c.trace.batches, b.Synchronised) := by
  have hkp := kept_of_reachable h
  refine ⟨hkp.decoding, ?_⟩
  rw [hkp.accounted]
  unfold Trace.extracted
  rw [headerBlocks_flatMap, flatMap_eq_flatMap_iff fun b _ => b.decoded_sublist]
  exact forall₂_congr fun b _ => b.decoded_eq_iff

/-! ## Two streams -/

def counting (_ : Bytes) (blocks : ℕ) : Option H2Headers × ℕ := (none, blocks + 1)

def answering (_ : Bytes) : EStateM ControlError (Unit × ℕ) Bool := do
  modify fun s => (s.1, (s.2 + 2) % 2 ^ 32)
  pure false

def afterCalls (calls : List Call) : ControlConnection ℕ Unit :=
  calls.foldl (fun c call => after (call.run counting answering) c)
    { headerDecoder := 0, maps := () }

theorem reachable_afterCalls (calls : List Call) :
    (connections counting answering 0).Reachable (afterCalls calls) := by
  have hnew : (connections counting answering 0).init { headerDecoder := 0, maps := () } :=
    ⟨(), [], rfl⟩
  exact .of_foldl (fun _ _ => rfl) (.init hnew) calls

def mapAndHeaders : Bytes :=
  [0, 0, 1, 1, 4, 0, 0, 0, 1, 0x88] ++ [0, 0, 5, 0, 0, 0, 0, 0, 1, 1, 0, 0, 0, 0x21]

def secondHeaders : Bytes := [0, 0, 1, 1, 4, 0, 0, 0, 3, 0x88]

theorem map_headers_decoded : (∀ b ∈ (afterCalls [.setPreferredDerp, .arrives mapAndHeaders,
      .pollNetworkMap]).trace.batches, b.Synchronised) ∧
    (afterCalls [.setPreferredDerp, .arrives mapAndHeaders, .pollNetworkMap]).trace.decoded =
      headerBlocks (afterCalls [.setPreferredDerp, .arrives mapAndHeaders,
        .pollNetworkMap]).trace.extracted := by
  have hsy : ∀ b ∈ (afterCalls [.setPreferredDerp, .arrives mapAndHeaders,
      .pollNetworkMap]).trace.batches, b.Synchronised := by decide +kernel
  exact ⟨hsy, (headers_decoded_iff (reachable_afterCalls _)).2.mpr hsy⟩

/-- **The answer to an answered ping is passed over**: its headers are taken
off the buffer and never get to the decoder. -/
theorem answer_not_decoded :
    ∃ c : ControlConnection ℕ Unit, (connections counting answering 0).Reachable c ∧
      headerBlocks c.trace.extracted = [[0x88], [0x88]] ∧ c.trace.decoded = [[0x88]] :=
  ⟨afterCalls [.setPreferredDerp, .arrives mapAndHeaders, .pollNetworkMap,
    .arrives secondHeaders, .pollNetworkMap], reachable_afterCalls _, by decide +kernel,
    by decide +kernel⟩

end ControlConnection

end Tailgate
