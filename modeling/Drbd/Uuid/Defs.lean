import Mathlib.Tactic.Common

/-!
# Data generations

Each node keeps four UUIDs of its data: the current one, the one its bitmap is relative to, and two
older ones. Bit 0 of the current UUID says that the node was Primary. What the nodes do on connect
follows from comparing their UUIDs.
-/

namespace Drbd.Uuid

/-- `md.uuid[]` -/
structure Uuids where
  current : UInt64
  bitmap : UInt64
  historyStart : UInt64
  historyEnd : UInt64
deriving Repr, DecidableEq

/-- `enum drbd_uuid_index` -/
inductive Index
  | current
  | bitmap
  | historyStart
  | historyEnd
deriving Repr, DecidableEq

def Uuids.get (u : Uuids) : Index → UInt64
  | .current => u.current
  | .bitmap => u.bitmap
  | .historyStart => u.historyStart
  | .historyEnd => u.historyEnd

def Uuids.put (u : Uuids) (val : UInt64) : Index → Uuids
  | .current => { u with current := val }
  | .bitmap => { u with bitmap := val }
  | .historyStart => { u with historyStart := val }
  | .historyEnd => { u with historyEnd := val }

def uuidJustCreated : UInt64 := 4
def uuidNewBmOffset : UInt64 := 0x0001000000000000

/-- `uuid & ~((u64)1)` -/
def base (uuid : UInt64) : UInt64 := uuid &&& ~~~1

/-! ## Changing them -/

def drbdUuidMoveHistory (u : Uuids) : Uuids := { u with historyEnd := u.historyStart }

/-- `_drbd_uuid_set()`, on a node that is Primary or not -/
def uuidSet (primary : Bool) (u : Uuids) (idx : Index) (val : UInt64) : Uuids :=
  match idx with
  | .current => u.put (if primary then val ||| 1 else val &&& ~~~1) .current
  | idx => u.put val idx

/-- `drbd_uuid_set()`: what was there goes to the history. -/
def drbdUuidSet (primary : Bool) (u : Uuids) (idx : Index) (val : UInt64) : Uuids :=
  if u.get idx ≠ 0 then
    let moved := drbdUuidMoveHistory u
    uuidSet primary (moved.put (moved.get idx) .historyStart) idx val
  else uuidSet primary u idx val

/-- `drbd_uuid_new_current()` with the random number drawn -/
def drbdUuidNewCurrent (primary : Bool) (u : Uuids) (val : UInt64) : Uuids :=
  uuidSet primary (u.put u.current .bitmap) .current val

def drbdUuidSetBm (u : Uuids) (val : UInt64) : Uuids :=
  if u.bitmap = 0 ∧ val = 0 then u
  else if val = 0 then
    ((drbdUuidMoveHistory u).put u.bitmap .historyStart).put 0 .bitmap
  else u.put (val &&& ~~~1) .bitmap

/-! ## Comparing them -/

/-- What `drbd_uuid_compare()` reads. -/
structure View where
  self : Uuids
  peer : Uuids
  peerFlags : UInt64
  crashedPrimary : Bool
  resolveConflicts : Bool
  agreedProVersion : Nat

/-- What it returns, with the number of the rule and both arrays as they are afterwards. -/
structure Verdict where
  hg : Int
  ruleNr : Nat
  self : Uuids
  peer : Uuids
deriving Repr, DecidableEq

/-- A verdict that corrects nothing. -/
def View.verdict (v : View) (ruleNr : Nat) (hg : Int) : Verdict := ⟨hg, ruleNr, v.self, v.peer⟩

@[simp] theorem View.verdict_hg (v : View) (n : Nat) (hg : Int) : (v.verdict n hg).hg = hg := rfl
@[simp] theorem View.verdict_self (v : View) (n : Nat) (hg : Int) : (v.verdict n hg).self = v.self := rfl
@[simp] theorem View.verdict_peer (v : View) (n : Nat) (hg : Int) : (v.verdict n hg).peer = v.peer := rfl

/-- One of the nodes has no data yet. -/
def justCreatedRules (v : View) : Option Verdict :=
  let self := base v.self.current
  let peer := base v.peer.current
  if self = uuidJustCreated ∧ peer = uuidJustCreated then some (v.verdict 10 0)
  else if (self = uuidJustCreated ∨ self = 0) ∧ peer ≠ uuidJustCreated then some (v.verdict 20 (-2))
  else if self ≠ uuidJustCreated ∧ (peer = uuidJustCreated ∨ peer = 0) then some (v.verdict 30 2)
  else none

/-- The correction for a resync whose end was missed. -/
def missedFinish (u : Uuids) : Uuids :=
  ((drbdUuidMoveHistory u).put u.bitmap .historyStart).put 0 .bitmap

/-- Both nodes have the same current UUID. -/
def sameCurrentRules (v : View) : Verdict :=
  if v.peer.bitmap = 0 ∧ v.self.bitmap ≠ 0 then
    if v.agreedProVersion < 91 then v.verdict 30 (-1091)
    else if base v.self.bitmap = base v.peer.historyStart ∧
        base v.self.historyStart = base v.peer.historyEnd then
      ⟨1, 34, missedFinish v.self, v.peer⟩
    else v.verdict 36 1
  else if v.self.bitmap = 0 ∧ v.peer.bitmap ≠ 0 then
    if v.agreedProVersion < 91 then v.verdict 30 (-1091)
    else if base v.self.historyStart = base v.peer.bitmap ∧
        base v.self.historyEnd = base v.peer.historyStart then
      ⟨-1, 35, v.self, missedFinish v.peer⟩
    else v.verdict 37 (-1)
  else
    -- common power failure: who was Primary then?
    match v.crashedPrimary, decide (v.peerFlags &&& 2 ≠ 0) with
    | false, false => v.verdict 40 0
    | true, false => v.verdict 40 1
    | false, true => v.verdict 40 (-1)
    | true, true => v.verdict 40 (if v.resolveConflicts then -1 else 1)

/-- The last `P_SYNC_UUID` did not get from the source to the target. -/
def LostSyncUuid (version : Nat) (source target : Uuids) : Prop :=
  if version < 96 then base target.historyStart = base source.historyEnd
  else base source.historyStart + uuidNewBmOffset = base source.bitmap

instance (version : Nat) (source target : Uuids) : Decidable (LostSyncUuid version source target) :=
  inferInstanceAs (Decidable (ite _ _ _))

/-- The correction for it, on the source's array. -/
def undoSyncStart (u : Uuids) : Uuids := (u.put u.historyStart .bitmap).put u.historyEnd .historyStart

/-- The peer knows my current UUID. -/
def peerKnowsRules (v : View) : Option Verdict :=
  let self := base v.self.current
  if self = base v.peer.bitmap then some (v.verdict 50 (-1))
  else if self = base v.peer.historyStart ∧ LostSyncUuid v.agreedProVersion v.peer v.self then
    if v.agreedProVersion < 91 then some (v.verdict 51 (-1091))
    else some ⟨-1, 51, v.self, undoSyncStart v.peer⟩
  else if self = base v.peer.historyStart ∨ self = base v.peer.historyEnd then some (v.verdict 60 (-2))
  else none

/-- I know the peer's current UUID. -/
def selfKnowsRules (v : View) : Option Verdict :=
  let peer := base v.peer.current
  if base v.self.bitmap = peer then some (v.verdict 70 1)
  else if base v.self.historyStart = peer ∧ LostSyncUuid v.agreedProVersion v.self v.peer then
    if v.agreedProVersion < 91 then some (v.verdict 71 (-1091))
    else some ⟨1, 71, undoSyncStart v.self, v.peer⟩
  else if base v.self.historyStart = peer ∨ base v.self.historyEnd = peer then some (v.verdict 80 2)
  else none

/-- One of the older UUIDs is on both sides. -/
def ShareHistory (u w : Uuids) : Prop :=
  (base u.historyStart = base w.historyStart ∨ base u.historyStart = base w.historyEnd) ∨
    (base u.historyEnd = base w.historyStart ∨ base u.historyEnd = base w.historyEnd)

instance (u w : Uuids) : Decidable (ShareHistory u w) := inferInstanceAs (Decidable (_ ∨ _))

/-- Neither current UUID is known to the other node. -/
def splitBrainRules (v : View) : Verdict :=
  if base v.self.bitmap = base v.peer.bitmap ∧ base v.self.bitmap ≠ 0 then v.verdict 90 100
  else if ShareHistory v.self v.peer then v.verdict 100 (-100)
  else v.verdict 100 (-1000)

/-- `drbd_uuid_compare()` -/
def drbdUuidCompare (v : View) : Verdict :=
  match justCreatedRules v with
  | some r => r
  | none =>
      if base v.self.current = base v.peer.current then sameCurrentRules v
      else
        match peerKnowsRules v with
        | some r => r
        | none =>
            match selfKnowsRules v with
            | some r => r
            | none => splitBrainRules v

/-! ## What the peer learns -/

/-- `p_uuid[]`, without the number of bits -/
structure PeerUuids where
  uuid : Uuids
  flags : UInt64
deriving Repr, DecidableEq

/-- What a node reports about its data. -/
structure Report where
  uuid : Uuids
  discardMyData : Bool
  crashedPrimary : Bool
  /-- the disk, while it is negotiated, is D_INCONSISTENT -/
  inconsistent : Bool
deriving Repr, DecidableEq

def uuidFlags (discardMyData crashedPrimary inconsistent : Bool) : UInt64 :=
  (if discardMyData then 1 else 0) ||| (if crashedPrimary then 2 else 0)
    ||| (if inconsistent then 4 else 0)

def drbdSendUuids (n : Report) : PeerUuids where
  uuid := n.uuid
  flags := uuidFlags n.discardMyData n.crashedPrimary n.inconsistent

/-- A node's view after it has the peer's report. -/
def Report.view (n : Report) (peer : PeerUuids) (resolveConflicts : Bool) (version : Nat) : View where
  self := n.uuid
  peer := peer.uuid
  peerFlags := peer.flags
  crashedPrimary := n.crashedPrimary
  resolveConflicts := resolveConflicts
  agreedProVersion := version

/-! ## A resync -/

/-- A node while it is connected: its own data and `p_uuid`. -/
structure Endpoint where
  own : Report
  pUuid : PeerUuids
deriving Repr, DecidableEq

/-- The nodes after the comparison that started the resync. -/
def Endpoint.compared (n : Report) (r : Verdict) (peer : PeerUuids) : Endpoint where
  own := { n with uuid := r.self }
  pUuid := { peer with uuid := r.peer }

/-- The UUID of the sync, from the UUID of the bitmap or drawn at random -/
def syncUuid (u : Uuids) (random : UInt64) : UInt64 :=
  if u.bitmap ≠ 0 ∧ u.bitmap ≠ uuidJustCreated then u.bitmap + uuidNewBmOffset else random

/-- `drbd_gen_and_send_sync_uuid()` -/
def drbdGenAndSendSyncUuid (primary : Bool) (n : Endpoint) (random : UInt64) : Endpoint :=
  { n with own := { n.own with
      uuid := drbdUuidSet primary n.own.uuid .bitmap (syncUuid n.own.uuid random) } }

/-- `receive_sync_uuid()`; current is not rotated into the history. -/
def receiveSyncUuid (primary : Bool) (n : Endpoint) (uuid : UInt64) : Endpoint :=
  { n with own := { n.own with
      uuid := uuidSet primary (uuidSet primary n.own.uuid .current uuid) .bitmap 0 } }

/-- The target takes over the older UUIDs of the source, and its current one. -/
def takeOver (primary : Bool) (u peer : Uuids) : Uuids :=
  let u := uuidSet primary u .bitmap peer.bitmap
  let u := uuidSet primary u .historyStart peer.historyStart
  let u := uuidSet primary u .historyEnd peer.historyEnd
  let u := drbdUuidSet primary u .bitmap u.current
  uuidSet primary u .current peer.current

/-- `drbd_resync_finished()` without failed blocks, and the clearing of the crashed-primary flags
when the connection state is C_CONNECTED after it -/
def drbdResyncFinished (target primary : Bool) (n : Endpoint) : Endpoint :=
  let u := if target then takeOver primary n.own.uuid n.pUuid.uuid else n.own.uuid
  let u := drbdUuidSetBm u 0
  { own := { n.own with uuid := u, crashedPrimary := false }
    pUuid := { uuid := u, flags := n.pUuid.flags &&& ~~~2 } }

end Drbd.Uuid
