import Drbd.State.Defs

/-!
# Connection-wide state changes

All volumes of a connection change together: the change is checked for every volume first and then
applied volume by volume.
-/

namespace Drbd.State

/-- The susp bits of the resource. -/
structure Susp where
  susp : Bool
  nod : Bool
  fen : Bool
deriving Repr, DecidableEq

def DrbdState.withSusp (s : DrbdState) (σ : Susp) : DrbdState :=
  { s with susp := σ.susp, suspNod := σ.nod, suspFen := σ.fen }

def DrbdState.suspBits (s : DrbdState) : Susp := ⟨s.susp, s.suspNod, s.suspFen⟩

structure Volume where
  state : DrbdState
  fencing : Fencing
  openCnt : Nat
  edUuidCurrent : Bool
  /-- `new_state_tmp` -/
  newDisk : Disk
  newPdsk : Disk
deriving Repr, DecidableEq

structure Connection where
  cstate : Conn
  netConf : Option NetConf
  agreedProVersion : Nat
  suspendOnNoData : Bool
  stateSent : Bool
  susp : Susp
  volumes : List Volume
deriving Repr, DecidableEq

/-- `conn_highest_peer() == R_PRIMARY` -/
def Connection.peerPrimary (c : Connection) : Bool := c.volumes.any (·.state.peer = .primary)

/-- What the state functions read when they look at the volume. -/
def Connection.env (c : Connection) (v : Volume) : Env where
  netConf := c.netConf
  fencing := v.fencing
  suspendOnNoData := c.suspendOnNoData
  agreedProVersion := c.agreedProVersion
  openCnt := v.openCnt
  otherPeerPrimary := c.peerPrimary
  edUuidCurrent := v.edUuidCurrent
  newDisk := v.newDisk
  newPdsk := v.newPdsk
  stateSent := c.stateSent

/-- `drbd_read_state()` -/
def Connection.readState (c : Connection) (v : Volume) : DrbdState := v.state.withSusp c.susp

/-- A requested change: the masked fields with their values. -/
structure Request extends Change where
  susp : Option Bool := none
  aftrIsp : Option Bool := none
  peerIsp : Option Bool := none
  userIsp : Option Bool := none
  suspNod : Option Bool := none
  suspFen : Option Bool := none
deriving Repr, DecidableEq

/-- `apply_mask_val()` -/
def Request.apply (r : Request) (os : DrbdState) : DrbdState :=
  { applyMaskVal os r.toChange with
    susp := r.susp.getD os.susp
    aftrIsp := r.aftrIsp.getD os.aftrIsp
    peerIsp := r.peerIsp.getD os.peerIsp
    userIsp := r.userIsp.getD os.userIsp
    suspNod := r.suspNod.getD os.suspNod
    suspFen := r.suspFen.getD os.suspFen }

/-- CS_HARD, CS_IGN_OUTD_FAIL and CS_LOCAL_ONLY -/
structure ChgStateFlags where
  hard : Bool := false
  ignOutdFail : Bool := false
  localOnly : Bool := false
deriving Repr, DecidableEq

/-- A disk that would only get Outdated keeps its state. -/
def keepDisk (fl : ChgStateFlags) (os ns : DrbdState) : DrbdState :=
  if fl.ignOutdFail ∧ ns.disk = .outdated ∧ os.disk < .outdated then { ns with disk := os.disk } else ns

/-- The new state of a volume, as it is worked out for the check and again for the change. -/
def wanted (env : Env) (r : Request) (fl : ChgStateFlags) (os : DrbdState) : DrbdState :=
  keepDisk fl os (sanitizeState env os (r.apply os))

/-- `conn_is_valid_transition()`; the first volume that refuses ends the loop, and a volume that is left
as it is keeps the result of those before it. -/
def connIsValidTransition (c : Connection) (r : Request) (fl : ChgStateFlags) : Rv :=
  go .success c.volumes
where
  go (rv : Rv) : List Volume → Rv
    | [] => rv
    | v :: vs =>
        let os := c.readState v
        let ns := wanted (c.env v) r fl os
        if ns = os then go rv vs
        else
          let rv := checkChange (c.env v) fl.hard os ns
          if rv.ok then go rv vs else rv

def Connection.setVolume (c : Connection) (i : Nat) (s : DrbdState) : Connection :=
  { c with
    susp := s.suspBits
    volumes := c.volumes.modify i fun v => { v with state := s } }

/-- `no_peer_wf_report_params()` -/
def Connection.noPeerWfReportParams (c : Connection) : Bool :=
  c.volumes.all (·.state.conn ≠ .wfReportParams)

/-- The end of `__drbd_set_state()`: STATE_SENT is cleared when the last volume has left
C_WF_REPORT_PARAMS. -/
def Connection.wakeRoleChanges (c : Connection) (oc nc : Conn) : Connection :=
  if oc = .wfReportParams ∧ nc ≠ .wfReportParams ∧ c.noPeerWfReportParams then { c with stateSent := false }
  else c

/-- The connection after volume `i` got the state `s`. -/
def Connection.changeVolume (c : Connection) (i : Nat) (os s : DrbdState) : Connection :=
  if s = os then c else (c.setVolume i s).wakeRoleChanges os.conn s.conn

/-- One turn of the loop in `conn_set_state()`; there is no result when it runs into BUG(). -/
def setVolumeState (r : Request) (fl : ChgStateFlags) (c : Connection) (i : Nat) : Option Connection :=
  match c.volumes[i]? with
  | none => some c
  | some v =>
      let os := c.readState v
      let (rv, s) := drbdSetState (c.env v) fl.hard os (wanted (c.env v) r fl os)
      if rv.ok then some (c.changeVolume i os s) else none

/-- `conn_set_state()` -/
def connSetState (c : Connection) (r : Request) (fl : ChgStateFlags) : Option Connection :=
  (List.range c.volumes.length).foldlM (setVolumeState r fl) { c with cstate := r.conn.getD c.cstate }

/-- How a cluster-wide request comes to its end: it cannot be sent, or `_conn_rq_cond()` is looked at
in some later state of the connection, with the peer's answer so far. -/
inductive Reply
  | sendFailed
  | answered (c : Connection) (okay fail : Bool)
deriving Repr, DecidableEq

/-- `_conn_rq_cond()` -/
def connRqCond (c : Connection) (r : Request) (okay fail : Bool) : Rv :=
  let rv := if fail then .cwFailedByPeer else if okay then .cwSuccess else .unknownError
  let err := connIsValidTransition c r {}
  if err = .success ∧ c.cstate = .wfReportParams then rv else err

/-- The request is one that the peer has to agree to. -/
def ClusterWide (c : Connection) (r : Request) (fl : ChgStateFlags) : Prop :=
  c.cstate = .wfReportParams ∧ r.conn = some .disconnecting ∧ ¬ fl.localOnly ∧ ¬ fl.hard

instance (c : Connection) (r : Request) (fl : ChgStateFlags) : Decidable (ClusterWide c r fl) :=
  inferInstanceAs (Decidable (_ ∧ _))

/-- `_conn_request_state()`: the return value and the connection afterwards; there is none when it runs
into BUG(). -/
def connRequestState (c : Connection) (r : Request) (fl : ChgStateFlags) (reply : Reply) :
    Option (Rv × Connection) :=
  let rv := (r.conn.map (isValidConnTransition c.cstate)).getD .success
  if ¬ rv.ok then some (rv, c)
  else
    let rv := connIsValidTransition c r fl
    if ¬ rv.ok then some (rv, c)
    else if ClusterWide c r fl then
      match reply with
      | .sendFailed => some (.cwFailedByPeer, c)
      | .answered c okay fail =>
          let rv := connRqCond c r okay fail
          if rv.ok then (connSetState c r fl).map (rv, ·) else some (rv, c)
    else (connSetState c r fl).map (rv, ·)

end Drbd.State
