import Tailgate.PeerPaths

/-!
# The selection of an underlay

A node sends over one of the networks its host has. The one that is selected is kept as
long as it is ready, also when others come and go. One that is not ready in time is given
up for the next, so that each gets its turn.
-/

namespace Tailgate

structure Network where
  interface : Option String
  addresses : List String
  deriving DecidableEq

/-- The network to use from now on, if there is any. -/
structure UnderlayChange where
  generation : ℕ
  network : Option Network

/-- **The networks**, and whose turn it is. -/
structure UnderlaySelection where
  /-- The networks of the last snapshot. -/
  networks : List Network := []
  selected : ℕ := 0
  generation : ℕ := 0
  deadline : ℕ := 0

namespace UnderlaySelection

open List

def reachabilityTimeout : ℕ := 15 * nanoseconds

variable (now : ℕ) (networks : List Network)

def start (interface : Option String) (s : UnderlaySelection) : UnderlaySelection where
  networks
  selected := (networks.findIdx? (·.interface = interface)).getD 0
  generation := s.generation + 1
  deadline := now + reachabilityTimeout

variable (s : UnderlaySelection)

def network : Option Network := s.networks[s.selected]?

/-- Another network is selected, or the same one anew. -/
def change : Option UnderlayChange × UnderlaySelection :=
  (some ⟨s.generation + 1, s.network⟩,
    { s with generation := s.generation + 1, deadline := now + reachabilityTimeout })

def poll (ready : Bool) (s : UnderlaySelection) : Option UnderlayChange × UnderlaySelection :=
  if networks ≠ s.networks then
    match s.network.bind networks.idxOf? with
    | some existing =>
      if ready then (none, { s with networks, selected := existing })
      else change now { s with networks, selected := existing }
    | none => change now { s with networks, selected := 0 }
  else if ready then
    (none, { s with deadline := now + reachabilityTimeout })
  else if now < s.deadline ∨ s.networks = [] then
    (none, s)
  else
    change now { s with selected := (s.selected + 1) % s.networks.length }

inductive Call
  | start (now : ℕ) (networks : List Network) (interface : Option String)
  | poll (now : ℕ) (networks : List Network) (ready : Bool)

def Call.run : Call → Option UnderlayChange × UnderlaySelection
  | start now networks interface => (none, s.start now networks interface)
  | poll now networks ready => s.poll now networks ready

/-- The state after some calls, and the changes they have returned. -/
def run (calls : List Call) (s : UnderlaySelection) : List UnderlayChange × UnderlaySelection :=
  match calls with
  | [] => ([], s)
  | call :: calls =>
    let (change, s) := call.run s
    let (changes, s) := run calls s
    (change.toList ++ changes, s)

/-- **The index is one of a network**, unless there is none. -/
def Valid : Prop := s.networks ≠ [] → s.selected < s.networks.length

section Polls

variable (ready : Bool)

/-- **What a poll does**: the networks are the new ones and an index of one of them is
selected. There is no change only if the network is ready or the networks are the same. -/
theorem poll_cases (hv : s.Valid) : ∃ selected, (networks ≠ [] → selected < networks.length) ∧
    ((ready = true ∨ networks = s.networks) ∧ (∃ deadline,
        s.poll now networks ready = (none, ⟨networks, selected, s.generation, deadline⟩)) ∨
      s.poll now networks ready = change now { s with networks, selected }) := by
  unfold poll
  by_cases hne : networks ≠ s.networks
  · rw [if_pos hne]
    cases hex : s.network.bind networks.idxOf? with
    | none => exact ⟨0, length_pos_iff.mpr, .inr rfl⟩
    | some existing =>
      obtain ⟨_, -, hix⟩ := Option.bind_eq_some_iff.mp hex
      obtain ⟨hlt, -⟩ := idxOf?_eq_some_iff.mp hix
      refine ⟨existing, fun _ => hlt, ?_⟩
      cases ready with
      | false => exact .inr rfl
      | true => exact .inl ⟨.inl rfl, _, rfl⟩
  · rw [if_neg hne]
    obtain rfl := not_not.mp hne
    cases ready with
    | true => exact ⟨s.selected, hv, .inl ⟨.inl rfl, _, rfl⟩⟩
    | false =>
      by_cases hwait : now < s.deadline ∨ s.networks = []
      · exact ⟨s.selected, hv, .inl ⟨.inr rfl, s.deadline, if_pos hwait⟩⟩
      · exact ⟨_, fun hne => Nat.mod_lt _ (length_pos_iff.mpr hne), .inr (if_neg hwait)⟩

end Polls

variable {now networks s}

/-- **One call**: the index stays valid, and a change has the new generation. -/
theorem step_cases (call : Call) (hv : s.Valid) : (call.run s).2.Valid ∧
    s.generation ≤ (call.run s).2.generation ∧ ∀ c ∈ (call.run s).1,
      s.generation < c.generation ∧ c.generation = (call.run s).2.generation := by
  cases call with
  | start _ networks interface =>
    refine ⟨fun hne => ?_, Nat.le_succ _, nofun⟩
    show (networks.findIdx? _).getD 0 < _
    cases hix : networks.findIdx? (·.interface = interface) with
    | none => exact length_pos_iff.mpr hne
    | some => exact (findIdx?_eq_some_iff_getElem.mp hix).1
  | poll now networks ready =>
    obtain ⟨_, hlt, ⟨-, _, heq⟩ | heq⟩ := s.poll_cases now networks ready hv
    · rw [show Call.run s (.poll now networks ready) = _ from heq]
      exact ⟨hlt, le_rfl, nofun⟩
    · rw [show Call.run s (.poll now networks ready) = _ from heq]
      refine ⟨hlt, Nat.le_succ _, ?_⟩
      rintro _ ⟨⟩
      exact ⟨Nat.lt_succ_self _, rfl⟩

theorem valid_run (calls : List Call) (hv : s.Valid) : (run calls s).2.Valid := by
  induction calls generalizing s with
  | nil => exact hv
  | cons call _ ih => exact ih (step_cases call hv).1

theorem generation_run (calls : List Call) (hv : s.Valid) :
    (∀ c ∈ (run calls s).1, s.generation < c.generation) ∧
      (run calls s).1.Pairwise (·.generation < ·.generation) := by
  induction calls generalizing s with
  | nil => exact ⟨nofun, .nil⟩
  | cons call calls ih =>
    obtain ⟨hv', hle, hch⟩ := step_cases call hv
    obtain ⟨hgt, hpw⟩ := ih hv'
    have hfst : (run (call :: calls) s).1
        = (call.run s).1.toList ++ (run calls (call.run s).2).1 := rfl
    rw [hfst]
    cases hcl : (call.run s).1 with
    | none => exact ⟨fun c hc => hle.trans_lt (hgt c hc), hpw⟩
    | some first =>
      obtain ⟨hlt, heq⟩ := hch first hcl
      refine ⟨fun c hc => ?_, pairwise_cons.mpr ⟨fun c hc => heq ▸ hgt c hc, hpw⟩⟩
      obtain rfl | hc := mem_cons.mp hc
      · exact hlt
      · exact hle.trans_lt (hgt c hc)

/-- **What is ready and still there is kept.** -/
theorem poll_ready {n : Network} (hn : s.network = some n) (hmem : n ∈ networks) :
    (s.poll now networks true).1 = none ∧ (s.poll now networks true).2.network = some n := by
  unfold poll
  by_cases hne : networks ≠ s.networks
  · obtain ⟨_, hk⟩ := Option.isSome_iff_exists.mp (isSome_idxOf?.mpr hmem)
    rw [if_pos hne, hn, Option.bind_some, hk]
    obtain ⟨hlt, hget, -⟩ := idxOf?_eq_some_iff.mp hk
    exact ⟨rfl, (getElem?_eq_getElem hlt).trans (congrArg some hget)⟩
  · obtain rfl := not_not.mp hne
    rw [if_neg hne]
    exact ⟨rfl, hn⟩

/-! ## The turns -/

/-- What is offered while a snapshot stays the same and nothing is ready. -/
def offers (networks : List Network) (times : List ℕ) (s : UnderlaySelection) :
    List (Option Network) :=
  (run (times.map (.poll · networks false)) s).1.map (·.network)

variable (times : List ℕ)

theorem offers_cons : offers networks (now :: times) s =
    (s.poll now networks false).1.toList.map (·.network) ++
      offers networks times (s.poll now networks false).2 := by
  simp only [offers, map_cons, run, Call.run, map_append]

theorem offers_same {c : ℕ} (hc : c % s.networks.length = s.selected) :
    ∃ m, offers s.networks times s
      = (range' (c + 1) m).map fun i => s.networks[i % s.networks.length]? := by
  induction times generalizing s c with
  | nil => exact ⟨0, rfl⟩
  | cons now _ ih =>
    have hpo : s.poll now s.networks false = if now < s.deadline ∨ s.networks = [] then (none, s)
        else change now { s with selected := (s.selected + 1) % s.networks.length } := by
      simp [poll]
    have hnx : (s.selected + 1) % s.networks.length = (c + 1) % s.networks.length := by
      rw [← hc, Nat.mod_add_mod]
    rw [offers_cons, hpo, hnx]
    split
    · exact ih hc
    · obtain ⟨m, hm⟩ := ih (s := { s with
        selected := (c + 1) % s.networks.length, generation := s.generation + 1,
        deadline := now + reachabilityTimeout }) (c := c + 1) rfl
      exact ⟨m + 1, congrArg (_ :: ·) hm⟩

/-- **The networks are offered in turn**, from some one of them on. -/
theorem offers_eq (hv : s.Valid) (hne : networks ≠ []) : ∃ c m,
    offers networks times s = (range' c m).map fun i => networks[i % networks.length]? := by
  cases times with
  | nil => exact ⟨0, 0, rfl⟩
  | cons now times =>
    by_cases hsm : networks = s.networks
    · subst hsm
      obtain ⟨m, hm⟩ := offers_same (now :: times) (Nat.mod_eq_of_lt (hv hne))
      exact ⟨_, m, hm⟩
    · obtain ⟨k, hk, hpo⟩ : ∃ k < networks.length,
          s.poll now networks false = change now { s with networks, selected := k } := by
        obtain ⟨k, hk, ⟨hno, -⟩ | heq⟩ := s.poll_cases now networks false hv
        · exact absurd hno (by simp [hsm])
        · exact ⟨k, hk hne, heq⟩
      obtain ⟨m, hm⟩ := offers_same (s := (change now { s with networks, selected := k }).2) times
        (Nat.mod_eq_of_lt hk)
      refine ⟨k, m + 1, ?_⟩
      rw [offers_cons, hpo, range'_succ, map_cons, Nat.mod_eq_of_lt hk]
      exact congrArg (_ :: ·) hm

/-- **Underlay selection is stable and fair.** After any calls the index is valid and the
generations that were returned increase; what is ready and still there is kept; and while the
networks stay the same and nothing is ready, as many changes in a row as there are networks
offer each of them once. -/
theorem selection_fair (calls : List Call) :
    (run calls {}).2.Valid ∧ (run calls {}).1.Pairwise (·.generation < ·.generation) ∧
    (∀ now networks network, (run calls {}).2.network = some network → network ∈ networks →
      ((run calls {}).2.poll now networks true).1 = none ∧
        ((run calls {}).2.poll now networks true).2.network = some network) ∧
    ∀ networks times i, networks ≠ [] →
      i + networks.length ≤ (offers networks times (run calls {}).2).length →
        (((offers networks times (run calls {}).2).drop i).take networks.length).Perm
          (networks.map some) := by
  have hv : Valid (run calls {}).2 := valid_run calls fun hne => absurd rfl hne
  refine ⟨hv, (generation_run calls fun hne => absurd rfl hne).2, fun _ _ _ => poll_ready,
    fun networks times i hne hle => ?_⟩
  obtain ⟨c, m, hof⟩ := offers_eq times hv hne
  rw [hof, length_map, length_range'] at hle
  have hwindow : (((range' c m).drop i).take networks.length) = range' (c + i) networks.length := by
    rw [drop_range', mul_one, take_range'_of_length_ge (by omega)]
  have hturn : ((range' (c + i) networks.length).map fun j => networks[j % networks.length]?)
      = (networks.map some).rotate (c + i) := by
    refine ext_getElem (by simp) fun k hk _ => ?_
    simp [getElem_rotate, add_comm]
  rw [hof, ← map_drop, ← map_take, hwindow, hturn]
  exact rotate_perm _ _

end UnderlaySelection

end Tailgate
