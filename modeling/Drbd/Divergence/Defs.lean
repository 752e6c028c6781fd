import Drbd.State.Defs
import Drbd.Uuid.Defs

/-!
# Two nodes that lose each other

A node that may change its data without the peer draws a new current UUID: when it loses a peer it
was Primary for, when it is promoted alone, or, when its IO was frozen, before the IO is thawed.
Both disks are up to date throughout.
-/

namespace Drbd.Divergence

open State Uuid

inductive WireProtocol
  | a
  | b
  | c
  | s
deriving Repr, DecidableEq

structure Node where
  state : DrbdState
  uuid : Uuids
  /-- NEW_CUR_UUID -/
  newCurUuid : Bool
  /-- the queued `w_after_state_ch` works, with the old and the new state -/
  work : List (DrbdState × DrbdState)
  /-- `drbd_set_role()` has changed the state to Primary and waits for the work of that change -/
  promoting : Bool
  /-- a write was accepted while not connected -/
  wrote : Bool
  /-- a promotion was completed while not connected -/
  promoted : Bool
deriving Repr, DecidableEq

structure Cluster where
  protocol : WireProtocol
  node : Bool → Node

def Cluster.set (c : Cluster) (i : Bool) (n : Node) : Cluster :=
  { c with node := Function.update c.node i n }

def Node.newCurrent (n : Node) (val : UInt64) : Node :=
  { n with uuid := drbdUuidNewCurrent (n.state.role = .primary) n.uuid val }

/-- `_drbd_set_state()`, and the queueing of the work -/
def Node.setState (n : Node) (env : Env) (hard : Bool) (ns : DrbdState) : Option Node :=
  let (rv, ns) := drbdSetState env hard n.state ns
  if ¬ rv.ok then none
  else if ns = n.state then some n
  else some { n with state := ns, work := n.work ++ [(n.state, ns)] }

/-- Lost contact to peer's copy of the data. -/
def LostPeerData (os ns : DrbdState) : Prop :=
  (.inconsistent ≤ os.pdsk ∧ os.pdsk ≠ .unknown ∧ os.pdsk ≠ .outdated) ∧
    (ns.pdsk < .inconsistent ∨ ns.pdsk = .unknown ∨ ns.pdsk = .outdated)

instance (os ns : DrbdState) : Decidable (LostPeerData os ns) := inferInstanceAs (Decidable (_ ∧ _))

/-- The connection was established again, so frozen IO goes on. -/
def thawConnected (ns : DrbdState) (n : Node) : Node :=
  if ns.suspFen ∧ n.state.suspFen ∧ .connected ≤ n.state.conn then
    { n with newCurUuid := false, state := { n.state with suspFen := false } }
  else n

/-- The node may go on changing data that the lost peer has, too. -/
def NeedsNewCurrent (n : Node) (os ns : DrbdState) : Prop :=
  LostPeerData os ns ∧ .inconsistent ≤ n.state.disk ∧ (ns.role = .primary ∨ ns.peer = .primary) ∧
    n.uuid.bitmap = 0 ∧ .upToDate ≤ ns.disk

instance (n : Node) (os ns : DrbdState) : Decidable (NeedsNewCurrent n os ns) :=
  inferInstanceAs (Decidable (_ ∧ _))

/-- The part of `after_state_ch()` that changes UUIDs. -/
def afterStateCh (protocol : WireProtocol) (n : Node) (os ns : DrbdState) (val : UInt64) : Node :=
  let n := thawConnected ns n
  if NeedsNewCurrent n os ns then
    if n.state.isSusp then { n with newCurUuid := true }
    else if protocol ≠ .s then n.newCurrent val
    else n
  else n

/-- The end of `drbd_set_role(device, R_PRIMARY, 0)` -/
def becamePrimary (n : Node) (val : UInt64) : Node :=
  let alone := n.state.conn < .connected ∨ n.state.pdsk ≤ .failed
  let n' := if alone ∧ n.uuid.bitmap = 0 then n.newCurrent val else n
  { n' with
    uuid := { n'.uuid with current := n'.uuid.current ||| 1 }
    promoting := false
    promoted := n.promoted || decide (n.state.conn < .connected) }

/-- Frozen IO is to go on without the peer. -/
def thawAlone (n : Node) (val : UInt64) : Node :=
  if n.newCurUuid then { n.newCurrent val with newCurUuid := false } else n

def Node.report (n : Node) : Report := ⟨n.uuid, false, false, false⟩

/-- What `drbd_uuid_compare()` says on node `i`; node `r` has RESOLVE_CONFLICTS. -/
def Cluster.compare (c : Cluster) (r : Bool) (version : Nat) (i : Bool) : Verdict :=
  drbdUuidCompare ((c.node i).report.view (drbdSendUuids (c.node !i).report) (i == r) version)

/-- Both nodes are waiting for a connection, their workers are idle. -/
def Cluster.Waiting (c : Cluster) : Prop :=
  ∀ i, (c.node i).state.conn < .connected ∧ (c.node i).work = [] ∧ (c.node i).promoting = false

instance (c : Cluster) : Decidable c.Waiting := inferInstanceAs (Decidable (∀ _, _))

inductive Event
  | lose (i : Bool) (env : Env) (conn : Conn)
  | afterStateCh (i : Bool) (val : UInt64)
  | promote (i : Bool) (env : Env) (outdate : Bool)
  | promoted (i : Bool) (val : UInt64)
  | demote (i : Bool) (env : Env)
  | write (i : Bool)
  | resumeIo (i : Bool) (val : UInt64)
  | fenced (i : Bool) (val : UInt64)
  | connect (env : Bool → Env) (r : Bool) (version : Nat)
deriving Inhabited

/-- `receive_state()` of a peer with equal UUIDs, while waiting for its parameters -/
def Node.connect (n : Node) (env : Env) (peer : Role) : Option Node :=
  { n with state := { n.state with conn := .wfReportParams } }.setState env false
    { n.state with conn := .connected, peer := peer, pdsk := .upToDate }

def step (c : Cluster) : Event → Option Cluster
  | .lose i env conn =>
      let n := c.node i
      if .connected ≤ n.state.conn ∧ conn < .connected then
        (n.setState env true { n.state with conn := conn }).map (c.set i)
      else none
  | .afterStateCh i val =>
      match (c.node i).work with
      | [] => none
      | (os, ns) :: work =>
          some (c.set i (afterStateCh c.protocol { c.node i with work := work } os ns val))
  | .promote i env outdate =>
      let n := c.node i
      if ¬ n.promoting ∧ n.work = [] then
        let change : Change :=
          { role := some .primary, pdsk := if outdate then some .outdated else none }
        match n.setState env false (applyMaskVal n.state change) with
        | none => none
        | some n' => if n'.state = n.state then none else some (c.set i { n' with promoting := true })
      else none
  | .promoted i val =>
      let n := c.node i
      if n.promoting ∧ n.work = [] then some (c.set i (becamePrimary n val)) else none
  | .demote i env =>
      let n := c.node i
      if ¬ n.promoting ∧ n.work = [] then
        match n.setState env false (applyMaskVal n.state { role := some .secondary }) with
        | none => none
        | some n' =>
            if n'.state = n.state then none
            else some (c.set i { n' with uuid := { n'.uuid with current := n'.uuid.current &&& ~~~1 } })
      else none
  | .write i =>
      let n := c.node i
      if n.state.role = .primary ∧ ¬ n.promoting ∧ ¬ n.state.isSusp then
        some (c.set i { n with wrote := n.wrote || decide (n.state.conn < .connected) })
      else none
  | .resumeIo i val =>
      -- the work of earlier changes may still be queued
      let n := thawAlone (c.node i) val
      some (c.set i { n with state := { n.state with susp := false, suspNod := false, suspFen := false } })
  | .fenced i val =>
      -- the fence-peer handler was successful
      let n := c.node i
      if n.state.suspFen ∧ n.state.conn < .connected ∧ n.work = [] then
        let n := thawAlone n val
        some (c.set i { n with state := { n.state with pdsk := .outdated, suspFen := false } })
      else none
  | .connect env r version =>
      if c.Waiting ∧ ∀ i, (c.compare r version i).hg = 0 then
        match (c.node false).connect (env false) (c.node true).state.role,
            (c.node true).connect (env true) (c.node false).state.role with
        | some a, some b => some { c with node := fun i => if i then b else a }
        | _, _ => none
      else none

end Drbd.Divergence
