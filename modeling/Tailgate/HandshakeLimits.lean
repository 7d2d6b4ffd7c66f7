import Mathlib.Tactic

/-!
# The limit on handshakes

A server takes no more handshakes at once than it may, and in the long run no more than
one in an interval. What it may take beyond that is counted in tokens. A token is added for
each whole interval, and the time of the last refill is moved on by whole intervals only,
so that what is left of one counts for the next.
-/

namespace Tailgate

/-- **The limiter**, with its tokens. -/
structure HandshakeLimiter (maximumPending burst : ℕ) (refillInterval : ℤ) where
  lastRefill : ℤ
  tokens : ℕ
  pending : ℕ
  interval_pos : 0 < refillInterval
  tokens_le : tokens ≤ burst
  pending_le : pending ≤ maximumPending

namespace HandshakeLimiter

open List

/-- A limiter; values that are not positive are refused. -/
def new (maximumPending burst : ℕ) (refillInterval now : ℤ) :
    Option (HandshakeLimiter maximumPending burst refillInterval) :=
  if h : maximumPending = 0 ∨ burst = 0 ∨ refillInterval ≤ 0 then none
  else some ⟨now, burst, 0, by omega, le_rfl, Nat.zero_le _⟩

variable {maximum burst : ℕ} {interval : ℤ} (now : ℤ) (l : HandshakeLimiter maximum burst interval)

/-- The sum of the tokens is taken in 64 bits. -/
def refill : HandshakeLimiter maximum burst interval :=
  let intervals := (now - l.lastRefill) / interval
  if now ≤ l.lastRefill ∨ intervals ≤ 0 then l
  else
    { l with
      tokens := min burst ((l.tokens + intervals.toNat) % 2 ^ 64)
      lastRefill := l.lastRefill + interval * intervals
      tokens_le := min_le_left _ _ }

def tryBegin : Bool × HandshakeLimiter maximum burst interval :=
  let l := l.refill now
  if h : maximum ≤ l.pending ∨ l.tokens = 0 then (false, l)
  else
    (true, { l with
      tokens := l.tokens - 1
      pending := l.pending + 1
      tokens_le := (Nat.sub_le _ _).trans l.tokens_le
      pending_le := by omega })

/-- A handshake is over; it is an error if there is none. -/
def finish : Option (HandshakeLimiter maximum burst interval) :=
  if l.pending = 0 then none
  else some { l with pending := l.pending - 1, pending_le := (Nat.sub_le _ _).trans l.pending_le }

inductive Call
  | tryBegin (now : ℤ)
  | finish

/-- Whether a call succeeds, and the limiter after it. -/
def Call.run : Call → Bool × HandshakeLimiter maximum burst interval
  | tryBegin now => l.tryBegin now
  | finish => (l.finish.isSome, l.finish.getD l)

variable (calls : List Call)

def after : HandshakeLimiter maximum burst interval :=
  calls.foldl (fun l call => (call.run l).2) l

/-- How many of the calls that are asked for succeed. -/
def successes (asked : Call → Bool) :
    List Call → HandshakeLimiter maximum burst interval → ℕ
  | [], _ => 0
  | call :: calls, l =>
    (asked call && (call.run l).1).toNat + successes asked calls (call.run l).2

def begun : ℕ :=
  successes (fun | .tryBegin _ => true | .finish => false) calls l

def finished : ℕ :=
  successes (fun | .tryBegin _ => false | .finish => true) calls l

def times : List ℤ :=
  calls.filterMap fun | .tryBegin now => some now | .finish => none

/-- **What calls do** to a limiter: tokens are added one for an interval, and the last
interval is over at the time of some call. -/
structure Does (calls : List Call) (l l' : HandshakeLimiter maximum burst interval)
    (began ended : ℕ) : Prop where
  pending : l'.pending + ended = l.pending + began
  refills : ∃ k : ℕ, l'.lastRefill = l.lastRefill + interval * k ∧
    began + l'.tokens ≤ l.tokens + k
  latest : ∀ bound, l.lastRefill ≤ bound → (∀ t ∈ times calls, t ≤ bound) → l'.lastRefill ≤ bound

theorem Does.refl : Does calls l l 0 0 :=
  ⟨rfl, ⟨0, by simp, by simp⟩, fun _ hle _ => hle⟩

theorem Does.append {calls calls' : List Call} {began ended began' ended' : ℕ}
    {l l' l'' : HandshakeLimiter maximum burst interval}
    (h : Does calls l l' began ended) (h' : Does calls' l' l'' began' ended') :
    Does (calls ++ calls') l l'' (began + began') (ended + ended') where
  pending := by
    have := h.pending
    have := h'.pending
    omega
  refills := by
    obtain ⟨k, hk, hle⟩ := h.refills
    obtain ⟨k', hk', hle'⟩ := h'.refills
    refine ⟨k + k', ?_, by omega⟩
    rw [hk', hk]
    push_cast
    ring
  latest := by
    intro bound hlast hall
    unfold times at hall
    rw [filterMap_append, forall_mem_append] at hall
    exact h'.latest bound (h.latest bound hlast hall.1) hall.2

/-- **A refill** leaves less than an interval behind it. -/
theorem does_refill : Does [.tryBegin now] l (l.refill now) 0 0 ∧
    now < (l.refill now).lastRefill + interval := by
  have hpos := l.interval_pos
  have hdm := Int.emod_add_mul_ediv (now - l.lastRefill) interval
  have hlt := Int.emod_lt_of_pos (now - l.lastRefill) hpos
  have hnn := Int.emod_nonneg (now - l.lastRefill) hpos.ne'
  unfold refill
  dsimp only
  split_ifs with hno
  · refine ⟨.refl l _, ?_⟩
    rcases hno with hle | hle
    · omega
    · have := mul_nonpos_of_nonneg_of_nonpos hpos.le hle
      omega
  · obtain ⟨k, hk⟩ := Int.eq_ofNat_of_zero_le (not_le.mp (not_or.mp hno).2).le
    refine ⟨⟨rfl, ⟨k, congrArg (l.lastRefill + interval * ·) hk, ?_⟩,
      fun bound _ hall => ?_⟩, ?_⟩
    · refine (Nat.zero_add _).trans_le ((min_le_right _ _).trans ?_)
      rw [hk, Int.toNat_natCast]
      exact Nat.mod_le _ _
    · have := hall now mem_cons_self
      dsimp only
      omega
    · dsimp only
      omega

theorem does_tryBegin : Does [.tryBegin now] l (l.tryBegin now).2 (l.tryBegin now).1.toNat 0 ∧
    (l.tryBegin now).1.toNat + (l.tryBegin now).2.tokens ≤ burst ∧
    now < (l.tryBegin now).2.lastRefill + interval := by
  obtain ⟨hdo, hlt⟩ := does_refill now l
  have hle := (l.refill now).tokens_le
  unfold tryBegin
  dsimp only
  split_ifs with hno
  · exact ⟨hdo, by simpa using hle, hlt⟩
  · obtain ⟨k, hk, htk⟩ := hdo.refills
    have hone : 1 + ((l.refill now).tokens - 1) = (l.refill now).tokens := by omega
    refine ⟨⟨congrArg (· + 1) hdo.pending, ⟨k, hk, ?_⟩, hdo.latest⟩, hone.trans_le hle, hlt⟩
    exact hone.trans_le ((Nat.zero_add _).symm.trans_le htk)

theorem does_finish : Does [.finish] l (Call.run l .finish).2 0 (Call.run l .finish).1.toNat := by
  unfold Call.run finish
  dsimp only
  split_ifs with hno
  · exact .refl l _
  · refine ⟨?_, ⟨0, by simp, by simp⟩, fun _ hle _ => hle⟩
    show l.pending - 1 + 1 = l.pending
    omega

theorem does_after : Does calls l (l.after calls) (l.begun calls) (l.finished calls) := by
  induction calls generalizing l with
  | nil => exact .refl l _
  | cons call calls ih =>
    cases call with
    | tryBegin now => exact (does_tryBegin now l).1.append (ih _)
    | finish => exact (does_finish l).append (ih _)

/-- **A window of time**: not more begin in it than at once and one for each of its intervals
and one that it is part of. -/
theorem begun_window (stretch : List Call) {opens length : ℤ} (hlen : 0 ≤ length)
    (hin : ∀ t ∈ times stretch, opens ≤ t ∧ t ≤ opens + length) :
    (l.begun stretch : ℤ) ≤ burst + length / interval + 1 := by
  have hpos := l.interval_pos
  induction stretch generalizing l with
  | nil =>
    have := Int.ediv_nonneg hlen hpos.le
    simp only [begun, successes]
    omega
  | cons call rest ih =>
    cases call with
    | finish =>
      refine (ih (Call.run l .finish).2 hin).trans' ?_
      simp [begun, successes]
    | tryBegin now =>
      obtain ⟨-, htk, hlt⟩ := does_tryBegin now l
      obtain ⟨hfirst, hrest⟩ := forall_mem_cons.mp hin
      have haf := does_after (l.tryBegin now).2 rest
      obtain ⟨k, hk, hle⟩ := haf.refills
      have hbg : l.begun (.tryBegin now :: rest)
          = (l.tryBegin now).1.toNat + (l.tryBegin now).2.begun rest := rfl
      have hkl : (k : ℤ) - 1 ≤ length / interval := by
        have hlast := haf.latest (max (l.tryBegin now).2.lastRefill (opens + length))
          (le_max_left _ _) fun t ht => le_max_of_le_right (hrest t ht).2
        refine Int.le_ediv_of_mul_le hpos ?_
        rw [sub_mul, one_mul, mul_comm]
        omega
      omega

/-- **Handshakes are limited.** Those that are pending are those that were begun and are not
finished, and never too many. Up to a time no more are begun than at once and one for each
interval, and no more in a window of time than that and one, whatever came before. -/
theorem handshakes_limited {start : ℤ} (h : new maximum burst interval start = some l)
    (calls : List Call) :
    (l.after calls).pending + l.finished calls = l.begun calls ∧
    (l.after calls).pending ≤ maximum ∧
    (∀ latest, start ≤ latest → (∀ t ∈ times calls, t ≤ latest) →
      (l.begun calls : ℤ) ≤ burst + (latest - start) / interval) ∧
    ∀ stretch opens length, 0 ≤ length →
      (∀ t ∈ times stretch, opens ≤ t ∧ t ≤ opens + length) →
        ((l.after calls).begun stretch : ℤ) ≤ burst + length / interval + 1 := by
  have hdo := does_after l calls
  unfold new at h
  split_ifs at h with hno
  cases h
  refine ⟨?_, (after _ calls).pending_le, fun latest hle hall => ?_, fun stretch _ _ hlen hin =>
    begun_window _ stretch hlen hin⟩
  · exact hdo.pending.trans (Nat.zero_add _)
  · obtain ⟨k, hk, htk⟩ := hdo.refills
    have hlast := hdo.latest latest hle hall
    dsimp only at hk htk
    have hkl : (k : ℤ) ≤ (latest - start) / interval := by
      refine Int.le_ediv_of_mul_le (by omega) ?_
      rw [mul_comm]
      omega
    omega

theorem handshakes_limited_two : ∃ l, new 3 2 10 0 = some l ∧
    (l.after [.tryBegin 0, .finish, .tryBegin 5]).pending ≤ 3 :=
  ⟨_, rfl, (handshakes_limited _ (rfl : new 3 2 10 0 = some _) _).2.1⟩

end HandshakeLimiter

end Tailgate
