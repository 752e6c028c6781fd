import Drbd.State.Defs

/-!
# A device and its state changes

The stored state of a device with the flags of its meta data, as `__drbd_set_state()` leaves them.
-/

namespace Drbd.State

/-- The bits of `md.flags` that a state change writes. -/
structure MdFlags where
  consistent : Bool
  primaryInd : Bool
  connectedInd : Bool
  wasUpToDate : Bool
  peerOutDated : Bool
  crashedPrimary : Bool
  alClean : Bool
deriving Repr, DecidableEq

/-- The end of `__drbd_set_state()`; there are meta data to update while the disk is at least
Inconsistent. -/
def updateMdFlags (crashedPrimary : Bool) (s : DrbdState) (mdf : MdFlags) : MdFlags :=
  if .inconsistent ≤ s.disk then
    { consistent := s.disk > .inconsistent
      primaryInd := s.role = .primary || (s.pdsk < .inconsistent && s.peer = .primary)
      connectedInd := s.conn > .wfReportParams
      wasUpToDate := s.disk > .outdated
      peerOutDated := s.pdsk ≤ .outdated && .inconsistent ≤ s.pdsk
      crashedPrimary := crashedPrimary
      alClean := false }
  else mdf

/-- `state` is what `drbd_read_state()` returns: its susp bits are those of the resource. -/
structure Device where
  state : DrbdState
  mdf : MdFlags
deriving Repr, DecidableEq

inductive Event
  /-- `__drbd_set_state()` with a requested state; `hard` is CS_HARD and `crashedPrimary` the device
  flag -/
  | setState (env : Env) (hard crashedPrimary : Bool) (ns : DrbdState)
  /-- another device writes the susp bits of the resource -/
  | resourceSusp (susp suspNod suspFen : Bool)
  /-- `drbd_adm_attach()` installs a backing device and the meta data read from it -/
  | attach (mdf : MdFlags)
deriving Repr, DecidableEq

def step (d : Device) : Event → Option Device
  | .setState env hard crashedPrimary ns =>
      let (rv, s) := drbdSetState env hard d.state ns
      some ⟨s, if rv.ok ∧ s ≠ d.state then updateMdFlags crashedPrimary s d.mdf else d.mdf⟩
  | .resourceSusp susp suspNod suspFen =>
      some { d with state := { d.state with susp := susp, suspNod := suspNod, suspFen := suspFen } }
  | .attach mdf => if d.state.disk = .attaching then some { d with mdf := mdf } else none

/-- The state of a new device, `drbd_set_defaults()`. -/
def defaultState : DrbdState where
  role := .secondary
  peer := .unknown
  conn := .standAlone
  disk := .diskless
  pdsk := .unknown
  susp := false
  aftrIsp := false
  peerIsp := false
  userIsp := false
  suspNod := false
  suspFen := false

end Drbd.State
