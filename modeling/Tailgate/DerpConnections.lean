import Mathlib.Tactic

/-!
# The DERP connections of a node

A node keeps one connection per DERP region. Whether they may be open is decided
for all of them at once: the flag applies to the connections there are and to
those created later. This is what `DerpConnections` carries as a field.
-/

namespace Tailgate

open List

structure DerpRuntime where
  region : ℤ
  host : String
  enabled : Bool
  connected : Bool
  deriving DecidableEq

/-- Opens or closes a connection. A connection whose setting changes is
disconnected first. -/
def DerpRuntime.setEnabled (d : DerpRuntime) (enabled : Bool) : DerpRuntime :=
  if d.enabled = enabled then d else { d with enabled := enabled, connected := false }

@[simp]
theorem DerpRuntime.setEnabled_enabled (d : DerpRuntime) (b : Bool) :
    (d.setEnabled b).enabled = b := by
  unfold setEnabled
  split
  · next h => exact h
  · rfl

inductive NodeFailure
  | identityChanged
  | invalidDerpRegion
  | derpNotProvisioned
  | invalidTransportOptions

theorem uniform_nil : ∀ d ∈ ([] : List DerpRuntime), d.enabled = true := by simp

/-- **The DERP connections of a node**, all enabled or all disabled. -/
structure DerpConnections where
  /-- The connections, in the order their regions were seen. -/
  entries : List DerpRuntime := []
  enabled : Bool := true
  /-- Every connection follows the node's setting. -/
  uniform : ∀ d ∈ entries, d.enabled = enabled := by first | exact uniform_nil | simp
  deriving DecidableEq

namespace DerpConnections

variable (c : DerpConnections)

/-- Whether some DERP connection may be open, now or when a region is added. -/
def on : Prop := c.enabled = true ∨ ∃ d ∈ c.entries, d.enabled = true

/-- Whether every DERP connection must be closed, those of regions added
later included. -/
def off : Prop := c.enabled = false ∧ ∀ d ∈ c.entries, d.enabled = false

theorem on_iff : c.on ↔ c.enabled = true := by
  refine ⟨?_, .inl⟩
  rintro (h | ⟨d, hd, h⟩)
  · exact h
  · rw [← c.uniform d hd, h]

theorem off_iff : c.off ↔ c.enabled = false :=
  ⟨And.left, fun h => ⟨h, fun d hd => (c.uniform d hd).trans h⟩⟩

/-- Creates the connection of a region the first time it is seen. Returns the
index of the connection. -/
def ensure (region : ℤ) (host : String) : Except NodeFailure (ℕ × DerpConnections) :=
  match c.entries.findIdx? (fun d => d.region == region) with
  | some i => .ok (i, c)
  | none =>
    if region ≤ 0 ∨ 65535 < region ∨ host.isEmpty then .error .invalidDerpRegion
    else
      let created : DerpRuntime :=
        { region := region, host := host, enabled := c.enabled, connected := false }
      .ok (c.entries.length,
        { entries := c.entries ++ [created], enabled := c.enabled
          uniform := by
            intro d hd
            rcases mem_append.mp hd with hd | hd
            · exact c.uniform d hd
            · rw [mem_singleton.mp hd] })

def setEnabled (enabled : Bool) : DerpConnections where
  entries := c.entries.map (·.setEnabled enabled)
  enabled := enabled
  uniform := by
    intro _ hd
    obtain ⟨d', -, rfl⟩ := mem_map.mp hd
    exact d'.setEnabled_enabled enabled

/-- The connection that serves a region: its own, or the first one. There is
none to return before any region has been seen. -/
def forRegion (region : ℤ) : Option DerpRuntime :=
  match c.entries.find? (fun d => d.region == region) with
  | some d => some d
  | none => c.entries.head?

def setConnected (region : ℤ) (up : Bool) : DerpConnections where
  entries := c.entries.map fun d =>
    if d.region = region then { d with connected := up && d.enabled } else d
  enabled := c.enabled
  uniform := by
    intro _ hd
    obtain ⟨d', hd', rfl⟩ := mem_map.mp hd
    split
    all_goals exact c.uniform d' hd'

@[simp]
theorem setEnabled_enabled (b : Bool) : (c.setEnabled b).enabled = b := rfl

theorem ensure_enabled {c c' : DerpConnections} {region : ℤ} {host : String} {i : ℕ}
    (h : c.ensure region host = .ok (i, c')) : c'.enabled = c.enabled := by
  unfold ensure at h
  split at h
  · cases h; rfl
  · split at h
    · cases h
    · cases h; rfl

end DerpConnections

end Tailgate
