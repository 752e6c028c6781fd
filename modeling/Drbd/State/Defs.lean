import Mathlib.Tactic.Common

/-!
# The state of a device

Role, connection and disk states of a node and its view of the peer, and the functions that decide
whether a state change is allowed and what it implies.
-/

namespace Drbd.State

inductive Role
  | unknown
  | primary
  | secondary
deriving Repr, DecidableEq

/-- The order of these constants is important. -/
inductive Conn
  | standAlone
  | disconnecting
  | unconnected
  | timeout
  | brokenPipe
  | networkFailure
  | protocolError
  | tearDown
  | wfConnection
  | wfReportParams
  | connected
  | startingSyncS
  | startingSyncT
  | wfBitMapS
  | wfBitMapT
  | wfSyncUuid
  | syncSource
  | syncTarget
  | verifyS
  | verifyT
  | pausedSyncS
  | pausedSyncT
  | ahead
  | behind
deriving Repr, DecidableEq

inductive Disk
  | diskless
  | attaching
  | failed
  | negotiating
  | inconsistent
  | outdated
  | unknown
  | consistent
  | upToDate
deriving Repr, DecidableEq

instance : LT Conn := ⟨fun a b => a.ctorIdx < b.ctorIdx⟩
instance : LE Conn := ⟨fun a b => a.ctorIdx ≤ b.ctorIdx⟩
instance (a b : Conn) : Decidable (a < b) := inferInstanceAs (Decidable (a.ctorIdx < b.ctorIdx))
instance (a b : Conn) : Decidable (a ≤ b) := inferInstanceAs (Decidable (a.ctorIdx ≤ b.ctorIdx))
instance : LT Disk := ⟨fun a b => a.ctorIdx < b.ctorIdx⟩
instance : LE Disk := ⟨fun a b => a.ctorIdx ≤ b.ctorIdx⟩
instance (a b : Disk) : Decidable (a < b) := inferInstanceAs (Decidable (a.ctorIdx < b.ctorIdx))
instance (a b : Disk) : Decidable (a ≤ b) := inferInstanceAs (Decidable (a.ctorIdx ≤ b.ctorIdx))

/-- `union drbd_state` -/
structure DrbdState where
  role : Role
  peer : Role
  conn : Conn
  disk : Disk
  pdsk : Disk
  susp : Bool
  aftrIsp : Bool
  peerIsp : Bool
  userIsp : Bool
  suspNod : Bool
  suspFen : Bool
deriving Repr, DecidableEq

def DrbdState.isSusp (s : DrbdState) : Bool := s.susp || s.suspNod || s.suspFen

/-- `enum drbd_state_rv` -/
inductive Rv
  | cwNoNeed
  | cwSuccess
  | nothingToDo
  | success
  | unknownError
  | twoPrimaries
  | noUpToDateDisk
  | noLocalDisk
  | noRemoteDisk
  | connectedOutdates
  | primaryNop
  | resyncRunning
  | alreadyStandAlone
  | cwFailedByPeer
  | isDiskless
  | deviceInUse
  | noNetConfig
  | noVerifyAlg
  | needConnection
  | lowerThanOutdated
  | notSupported
  | inTransientState
  | concurrentStChg
  | oVolPeerPri
  | outdateWoConn
deriving Repr, DecidableEq

/-- `rv >= SS_SUCCESS` -/
def Rv.ok : Rv → Bool
  | .cwNoNeed | .cwSuccess | .nothingToDo | .success => true
  | _ => false

inductive Fencing
  | dontCare
  | resource
  | stonith
deriving Repr, DecidableEq

structure NetConf where
  twoPrimaries : Bool
  verifyAlg : Bool
deriving Repr, DecidableEq

/-- What the state functions read of the device, its resource and its connection besides the state. -/
structure Env where
  netConf : Option NetConf
  fencing : Fencing
  suspendOnNoData : Bool
  agreedProVersion : Nat
  openCnt : Nat
  /-- on another volume of the connection the peer is Primary -/
  otherPeerPrimary : Bool
  /-- `ed_uuid` is the current UUID -/
  edUuidCurrent : Bool
  /-- `new_state_tmp` -/
  newDisk : Disk
  newPdsk : Disk
  /-- STATE_SENT -/
  stateSent : Bool
deriving Repr, DecidableEq

/-! ## What a state change implies -/

/-- The fencing policy counts while there is a disk. -/
def fencingPolicy (env : Env) (os : DrbdState) : Fencing :=
  if .inconsistent ≤ os.disk then env.fencing else .dontCare

def implyPeer (ns : DrbdState) : DrbdState :=
  if ns.conn < .connected then
    { ns with
      peerIsp := false
      peer := .unknown
      pdsk := if ns.pdsk > .unknown ∨ ns.pdsk < .inconsistent then .unknown else ns.pdsk }
  else ns

def clearAftrIsp (ns : DrbdState) : DrbdState :=
  if ns.conn = .standAlone ∧ ns.disk = .diskless ∧ ns.role = .secondary then { ns with aftrIsp := false }
  else ns

def abortResync (ns : DrbdState) : DrbdState :=
  if ns.conn > .connected ∧ (ns.disk ≤ .failed ∨ ns.pdsk ≤ .failed) then { ns with conn := .connected }
  else ns

/-- The connection breaks down before the disk is negotiated. -/
def lostNegotiating (env : Env) (os ns : DrbdState) : DrbdState :=
  if ns.conn < .connected ∧ ns.disk = .negotiating ∧ .negotiating ≤ os.disk then
    if env.edUuidCurrent then { ns with disk := env.newDisk, pdsk := env.newPdsk }
    else { ns with disk := .diskless, pdsk := .unknown }
  else ns

/-- D_CONSISTENT and D_OUTDATED vanish when we get connected. -/
def settleDisks (ns : DrbdState) : DrbdState :=
  if .connected ≤ ns.conn ∧ ns.conn < .ahead then
    { ns with
      disk := if ns.disk = .consistent ∨ ns.disk = .outdated then .upToDate else ns.disk
      pdsk := if ns.pdsk = .consistent ∨ ns.pdsk = .outdated then .upToDate else ns.pdsk }
  else ns

/-- The least and greatest disk state, and those of the peer's disk. -/
def diskLimits : Conn → (Disk × Disk) × (Disk × Disk)
  | .wfBitMapT | .pausedSyncT | .startingSyncT | .wfSyncUuid | .behind =>
      ((.inconsistent, .outdated), (.upToDate, .upToDate))
  | .verifyS | .verifyT => ((.upToDate, .upToDate), (.upToDate, .upToDate))
  | .connected => ((.diskless, .upToDate), (.diskless, .upToDate))
  | .wfBitMapS | .pausedSyncS | .startingSyncS | .ahead =>
      ((.upToDate, .upToDate), (.inconsistent, .consistent))
  | .syncTarget => ((.inconsistent, .inconsistent), (.upToDate, .upToDate))
  | .syncSource => ((.upToDate, .upToDate), (.inconsistent, .inconsistent))
  | _ => ((.diskless, .upToDate), (.inconsistent, .unknown))

def clampDisk (limits : Disk × Disk) (d : Disk) : Disk :=
  let d := if d > limits.2 then limits.2 else d
  if d < limits.1 then limits.1 else d

def limitDisks (ns : DrbdState) : DrbdState :=
  { ns with
    disk := clampDisk (diskLimits ns.conn).1 ns.disk
    pdsk := clampDisk (diskLimits ns.conn).2 ns.pdsk }

/-- A Primary that lost its peer; the peer may still be up to date. -/
def Fencible (s : DrbdState) : Prop := s.role = .primary ∧ s.conn < .connected ∧ s.pdsk > .outdated

instance (s : DrbdState) : Decidable (Fencible s) := inferInstanceAs (Decidable (_ ∧ _))

/-- A Primary without access to up-to-date data. -/
def NoData (s : DrbdState) : Prop := s.role = .primary ∧ s.disk < .upToDate ∧ s.pdsk < .upToDate

instance (s : DrbdState) : Decidable (NoData s) := inferInstanceAs (Decidable (_ ∧ _))

def suspendIo (env : Env) (os ns : DrbdState) : DrbdState :=
  let fen := fencingPolicy env os = .stonith ∧ Fencible ns ∧ ¬ Fencible os
  let nod := env.suspendOnNoData ∧ NoData ns ∧ ¬ NoData os
  { ns with suspFen := ns.suspFen || decide fen, suspNod := ns.suspNod || decide nod }

def pauseConn (paused : Bool) (c : Conn) : Conn :=
  match paused, c with
  | true, .syncSource => .pausedSyncS
  | true, .syncTarget => .pausedSyncT
  | false, .pausedSyncS => .syncSource
  | false, .pausedSyncT => .syncTarget
  | _, c => c

def pauseResync (ns : DrbdState) : DrbdState :=
  { ns with conn := pauseConn (ns.aftrIsp || ns.peerIsp || ns.userIsp) ns.conn }

/-- `sanitize_state()`; its warnings are only printed. -/
def sanitizeState (env : Env) (os ns : DrbdState) : DrbdState :=
  let ns := abortResync (clearAftrIsp (implyPeer ns))
  let ns := limitDisks (settleDisks (lostNegotiating env os ns))
  pauseResync (suspendIo env os ns)

/-! ## What is allowed -/

/-- The peer is Primary on some volume of the connection. -/
def connHighestPeerPrimary (env : Env) (os : DrbdState) : Bool :=
  os.peer = .primary || env.otherPeerPrimary

/-- `is_valid_state()`; `os` is the state the device is in. -/
def isValidState (env : Env) (os ns : DrbdState) : Rv :=
  let fp := fencingPolicy env os
  let exclusive := env.netConf.any (fun nc => !nc.twoPrimaries) ∧ ns.role = .primary
  if exclusive ∧ ns.peer = .primary then .twoPrimaries
  else if exclusive ∧ connHighestPeerPrimary env os then .oVolPeerPri
  else if ns.role = .secondary ∧ env.openCnt ≠ 0 then .deviceInUse
  else if ns.role = .primary ∧ ns.conn < .connected ∧ ns.disk < .upToDate then .noUpToDateDisk
  else if fp ≠ .dontCare ∧ ns.role = .primary ∧ ns.conn < .connected ∧ .unknown ≤ ns.pdsk then .primaryNop
  else if ns.role = .primary ∧ ns.disk ≤ .inconsistent ∧ ns.pdsk ≤ .inconsistent then .noUpToDateDisk
  else if ns.conn > .connected ∧ ns.disk < .inconsistent then .noLocalDisk
  else if ns.conn > .connected ∧ ns.pdsk < .inconsistent then .noRemoteDisk
  else if ns.conn > .connected ∧ ns.disk < .upToDate ∧ ns.pdsk < .upToDate then .noUpToDateDisk
  else if (ns.conn = .connected ∨ ns.conn = .wfBitMapS ∨ ns.conn = .syncSource ∨ ns.conn = .pausedSyncS) ∧
      ns.disk = .outdated then .connectedOutdates
  else if (ns.conn = .verifyS ∨ ns.conn = .verifyT) ∧ ¬ env.netConf.any (·.verifyAlg) then .noVerifyAlg
  else if (ns.conn = .verifyS ∨ ns.conn = .verifyT) ∧ env.agreedProVersion < 88 then .notSupported
  else if ns.role = .primary ∧ ns.disk < .upToDate ∧ ns.pdsk < .upToDate then .noUpToDateDisk
  else if (ns.conn = .startingSyncS ∨ ns.conn = .startingSyncT) ∧ ns.pdsk = .unknown then .needConnection
  else if .connected ≤ ns.conn ∧ ns.pdsk = .unknown then .connectedOutdates
  else .success

/-- `is_valid_soft_transition()`; the last check that fails is the one reported. -/
def isValidSoftTransition (env : Env) (os ns : DrbdState) : Rv :=
  let verify := ns.conn = .verifyS ∨ ns.conn = .verifyT
  let starting := ns.conn = .startingSyncS ∨ ns.conn = .startingSyncT
  if ns.conn = .disconnecting ∧ ns.pdsk = .outdated ∧ os.conn < .connected ∧ os.pdsk > .outdated then
    .outdateWoConn
  else if (ns.conn = .syncTarget ∨ ns.conn = .syncSource) ∧ os.conn < .wfReportParams then .needConnection
  else if starting ∧ os.conn < .connected then .needConnection
  else if verify ∧ ns.conn ≠ os.conn ∧ os.conn > .connected then .resyncRunning
  else if verify ∧ os.conn < .connected then .needConnection
  else if env.stateSent ∧ ¬ (os.conn = .wfReportParams ∨
      (ns.conn = .wfReportParams ∧ os.conn = .wfConnection)) then .inTransientState
  else if ns.conn = .disconnecting ∧ os.conn = .unconnected then .inTransientState
  else if ns.disk = .outdated ∧ os.disk < .outdated ∧ os.disk ≠ .attaching then .lowerThanOutdated
  else if ns.conn = .wfConnection ∧ os.conn < .unconnected then .noNetConfig
  else if ns.disk > .attaching ∧ os.disk = .diskless then .isDiskless
  else if ns.conn = .disconnecting ∧ os.conn = .standAlone then .alreadyStandAlone
  else if starting ∧ os.conn > .connected then .resyncRunning
  else .success

def isValidConnTransition (oc nc : Conn) : Rv :=
  if oc = nc then .nothingToDo
  else if oc = .standAlone ∧ nc = .disconnecting then .alreadyStandAlone
  else if oc = .standAlone ∧ nc ≠ .unconnected then .needConnection
  else if oc < .wfReportParams ∧ .connected ≤ nc then .needConnection
  else if .timeout ≤ oc ∧ oc ≤ .tearDown ∧ nc ≠ .unconnected ∧ nc ≠ .disconnecting then .inTransientState
  else if oc = .disconnecting ∧ nc ≠ .standAlone then .inTransientState
  else .success

def isValidTransition (os ns : DrbdState) : Rv :=
  if ns.disk = .failed ∧ os.disk = .diskless then .isDiskless else isValidConnTransition os.conn ns.conn

/-- The checks of a change that is not imposed by the environment. -/
def softChecks (env : Env) (os ns : DrbdState) : Rv :=
  let rv := isValidState env os ns
  if rv.ok then isValidSoftTransition env os ns
  -- the old state was illegal as well: let this happen
  else if isValidState env os os = rv then isValidSoftTransition env os ns
  else rv

/-- All the checks of a change; `hard` is CS_HARD. -/
def checkChange (env : Env) (hard : Bool) (os ns : DrbdState) : Rv :=
  let rv := isValidTransition os ns
  if rv.ok ∧ ¬ hard then softChecks env os ns else rv

/-- `__drbd_set_state()`: the return value and the state afterwards -/
def drbdSetState (env : Env) (hard : Bool) (os ns : DrbdState) : Rv × DrbdState :=
  let ns := sanitizeState env os ns
  if ns = os then (.nothingToDo, os)
  else
    let rv := checkChange env hard os ns
    (rv, if rv.ok then ns else os)

/-! ## Cluster-wide changes -/

/-- The masked fields of a requested change with their values. -/
structure Change where
  role : Option Role := none
  peer : Option Role := none
  conn : Option Conn := none
  disk : Option Disk := none
  pdsk : Option Disk := none
deriving Repr, DecidableEq

def applyMaskVal (os : DrbdState) (c : Change) : DrbdState :=
  { os with
    role := c.role.getD os.role
    peer := c.peer.getD os.peer
    conn := c.conn.getD os.conn
    disk := c.disk.getD os.disk
    pdsk := c.pdsk.getD os.pdsk }

end Drbd.State
