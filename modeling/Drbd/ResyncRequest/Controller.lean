import Drbd.Lib.Bytes
import Drbd.Lib.MovingMean
import Drbd.ResyncRequest.InFlight

/-!
# The resync controller

`drbd_rs_controller` aims at a number of sectors in flight, and spreads what is missing over a cyclic plan. The plan's
total is kept beside it.
-/

namespace Drbd.ResyncRequest

open Lib

def DRBD_RESYNC_RATE_MAX : Nat := 4 * 2 ^ 20
def DRBD_C_PLAN_AHEAD_MAX : Nat := 300
def DRBD_C_DELAY_TARGET_MAX : Nat := 100
def DRBD_C_FILL_TARGET_MAX : Nat := 2 ^ 20
def DRBD_C_MAX_RATE_MAX : Nat := 4 * 2 ^ 20

/-- What the controller reads of `disk_conf`. -/
structure DiskConf where
  resyncRate : Nat
  cPlanAhead : Nat
  cDelayTarget : Nat
  cFillTarget : Nat
  cMaxRate : Nat
deriving DecidableEq

/-- Within the limits of `drbd_limits.h`. -/
structure DiskConf.Within (dc : DiskConf) : Prop where
  resyncRate : 1 ≤ dc.resyncRate ∧ dc.resyncRate ≤ DRBD_RESYNC_RATE_MAX
  cPlanAhead : dc.cPlanAhead ≤ DRBD_C_PLAN_AHEAD_MAX
  cDelayTarget : 1 ≤ dc.cDelayTarget ∧ dc.cDelayTarget ≤ DRBD_C_DELAY_TARGET_MAX
  cFillTarget : dc.cFillTarget ≤ DRBD_C_FILL_TARGET_MAX
  cMaxRate : 250 ≤ dc.cMaxRate ∧ dc.cMaxRate ≤ DRBD_C_MAX_RATE_MAX

/-- A tenth of a second, in ticks. -/
def SLEEP_TIME (hz : Nat) : Nat := hz / 10

/-- A division that faults. -/
def quotient (a b : Nat) : Option Nat := if b = 0 then none else some (a / b)

/-- The same for signed numbers. -/
def signedQuotient (a b : Int) : Option Int := if b = 0 then none else some (a.tdiv b)

/-! ## The plan -/

structure FifoBuffer where
  headIndex : Nat
  size : Nat
  /-- sum of all values -/
  total : Int
  values : List Int
  length_values : values.length = size
  headIndex_lt : 0 < size → headIndex < size
deriving DecidableEq

namespace FifoBuffer

def fifoSet (fb : FifoBuffer) (value : Int) : FifoBuffer :=
  { fb with
    values := fb.values.map fun _ => value
    length_values := by rw [List.length_map, fb.length_values] }

def fifoPush (fb : FifoBuffer) (value : Int) : Int × FifoBuffer :=
  let next := fb.headIndex + 1
  (fb.values.getD fb.headIndex 0,
    { fb with
      values := fb.values.set fb.headIndex value
      headIndex := if fb.size ≤ next then 0 else next
      length_values := by rw [List.length_set, fb.length_values]
      headIndex_lt := fun h => by split <;> omega })

def fifoAddVal (fb : FifoBuffer) (value : Int) : FifoBuffer :=
  { fb with
    values := fb.values.map fun v => signed 32 (v + value)
    length_values := by rw [List.length_map, fb.length_values] }

def fifoAlloc (fifoSize : Nat) : FifoBuffer :=
  ⟨0, fifoSize, 0, List.replicate fifoSize 0, List.length_replicate, id⟩

/-- The part of `drbd_rs_controller_reset` about the plan. -/
def drbdRsControllerReset (fb : FifoBuffer) : FifoBuffer := { fb with total := 0 }.fifoSet 0

/-- The values in the order in which they are popped. -/
def planned (fb : FifoBuffer) : List Int := fb.values.drop fb.headIndex ++ fb.values.take fb.headIndex

end FifoBuffer

/-! ## The controller -/

/-- The variables of `drbd_rs_controller` at its end. -/
structure RsControl where
  want : Nat
  correction : Int
  cps : Int
  currCorr : Int
  reqSect : Int
  plan : FifoBuffer
deriving DecidableEq

/-- The sectors that should be in flight; the products are of 32 bits. -/
def rsWant (hz : Nat) (dc : DiskConf) (steps : Nat) (rsInFlight : Int) (sectIn : Nat) : Option Nat :=
  if unsigned 32 (rsInFlight + sectIn) = 0 then
    -- at start of resync
    (quotient (unsigned 32 (dc.resyncRate * 2 * SLEEP_TIME hz : Nat)) hz).map fun sectors =>
      unsigned 32 (sectors * steps : Nat)
  else if dc.cFillTarget ≠ 0 then some dc.cFillTarget
  else quotient (unsigned 32 (sectIn * dc.cDelayTarget * hz : Nat)) (SLEEP_TIME hz * 10)

def drbdRsController (hz : Nat) (dc : DiskConf) (plan : FifoBuffer) (rsInFlight : Int) (sectIn : Nat) :
    Option RsControl := do
  let steps := plan.size
  let want ← rsWant hz dc steps rsInFlight sectIn
  let correction := signed 32 (want - rsInFlight - plan.total)
  let cps ← signedQuotient correction steps
  let plan := plan.fifoAddVal cps
  let plan := { plan with total := signed 32 (plan.total + signed 32 (cps * steps)) }
  let (currCorr, plan) := plan.fifoPush 0
  let plan := { plan with total := signed 32 (plan.total - currCorr) }
  let reqSect := signed 32 (sectIn + currCorr)
  let reqSect := if reqSect < 0 then 0 else reqSect
  let maxSect := signed 32 (← quotient (unsigned 32 (dc.cMaxRate * 2 * SLEEP_TIME hz : Nat)) hz)
  let reqSect := if maxSect < reqSect then maxSect else reqSect
  return ⟨want, correction, cps, currCorr, reqSect, plan⟩

/-- What `drbd_rs_number_requests` asks for before `max-buffers` is looked at, and the plan after it. -/
def rsWanted (hz : Nat) (dc : DiskConf) (plan : FifoBuffer) (rsInFlight : Int) (sectIn : Nat) :
    Option (Int × FifoBuffer) :=
  if plan.size ≠ 0 then
    (drbdRsController hz dc plan rsInFlight sectIn).map fun c => (Int.shiftRight c.reqSect 3, c.plan)
  else (signedQuotient (signed 32 (SLEEP_TIME hz * dc.resyncRate : Nat)) (4 * hz : Nat)).map fun number =>
    (number, plan)

/-! ## The plan over time -/

/-- The configuration and the plan of a device with a disk. -/
structure RsPlanner where
  dc : DiskConf
  rsPlanS : FifoBuffer
deriving DecidableEq

inductive PlannerEvent
  /-- `drbd_adm_disk_opts` and `receive_SyncParam`: the new `disk_conf` is seen first, the new plan after it -/
  | diskConf (dc : DiskConf)
  | newPlan
  | numberRequests (rsInFlight : Int) (sectIn : Nat)
  | reset

namespace RsPlanner

/-- The length of a plan for a configuration. -/
def fifoSize (hz : Nat) (dc : DiskConf) : Nat := unsigned 32 (dc.cPlanAhead * 10 * SLEEP_TIME hz : Nat) / hz

def step (hz : Nat) (s : RsPlanner) : PlannerEvent → Option RsPlanner
  | .diskConf dc => some { s with dc := dc }
  | .newPlan =>
      let size := fifoSize hz s.dc
      some (if size ≠ s.rsPlanS.size then { s with rsPlanS := .fifoAlloc size } else s)
  | .numberRequests rsInFlight sectIn =>
      (rsWanted hz s.dc s.rsPlanS rsInFlight sectIn).map fun w => { s with rsPlanS := w.2 }
  | .reset => some { s with rsPlanS := s.rsPlanS.drbdRsControllerReset }

/-- What `drbd_adm_attach` leaves. -/
def attach (hz : Nat) (dc : DiskConf) : RsPlanner := ⟨dc, .fifoAlloc (fifoSize hz dc)⟩

end RsPlanner

/-! ## What the variables stand for -/

/-- The bound on the sectors of one turn. -/
def maxSect (hz : Nat) (dc : DiskConf) : Nat := dc.cMaxRate * 2 * SLEEP_TIME hz / hz

/-- The value of `want`, in numbers of any size. -/
def wanted (hz : Nat) (dc : DiskConf) (steps : Nat) (rsInFlight : Int) (sectIn : Nat) : Nat :=
  if rsInFlight + sectIn = 0 then dc.resyncRate * 2 * SLEEP_TIME hz / hz * steps
  else if dc.cFillTarget ≠ 0 then dc.cFillTarget
  else sectIn * dc.cDelayTarget * hz / (SLEEP_TIME hz * 10)

/-- The turn `c` has computed in 32 bits what it should. -/
structure RsControl.Exact (hz : Nat) (dc : DiskConf) (plan : FifoBuffer) (rsInFlight : Int) (sectIn : Nat)
    (c : RsControl) : Prop where
  want : c.want = wanted hz dc plan.size rsInFlight sectIn
  correction : c.correction = c.want - rsInFlight - plan.total
  cps : c.cps = c.correction.tdiv plan.size
  total : c.plan.total = c.plan.values.sum
  reqSect : 0 ≤ c.reqSect ∧ c.reqSect ≤ maxSect hz dc

/-- No turn asks for more blocks than this. -/
def mostBlocks : Nat := 104857

/-- The most of `drbd_get_max_buffers`, which it gives while there is no `net_conf`. -/
def mostBuffers : Nat := 1000000

/-- What `rs_in_flight` may be when the controller looks at it. -/
def InReach (rsInFlight : Int) : Prop :=
  -(8 * (mostBlocks + 1) : Nat) ≤ rsInFlight ∧ rsInFlight ≤ (mostBuffers / 2 + 8 * (mostBlocks + 1) : Nat)

/-- The configuration is within its limits, and no more comes in than the maximum rate. -/
def Allowed (hz : Nat) (s : RsPlanner) : PlannerEvent → Prop
  | .diskConf dc => dc.Within
  | .numberRequests rsInFlight sectIn => InReach rsInFlight ∧ sectIn ≤ maxSect hz s.dc
  | _ => True

/-- The product for the delay stays within 32 bits, where it is used. -/
def DelayFits (hz : Nat) (s : RsPlanner) : PlannerEvent → Prop
  | .numberRequests rsInFlight sectIn =>
      s.rsPlanS.size = 0 ∨ rsInFlight + sectIn = 0 ∨ s.dc.cFillTarget ≠ 0 ∨ sectIn * s.dc.cDelayTarget * hz < 2 ^ 32
  | _ => True

end Drbd.ResyncRequest
