import Drbd.Lib.System
import Drbd.State.Defs
import Mathlib.Algebra.Ring.Int.Defs
import Mathlib.Algebra.Ring.Nat
import Mathlib.Logic.Relation

/-!
# Resync-after dependencies

A device may be configured to resync only after another device. The configuration is part of the disk
configuration, so it exists while a backing device is attached. An attach validates the dependency and
publishes it later; disk-options does both at once under `global_state_lock`. The administrative
commands are serialized by `genl_lock()`; a disk can be lost at any time.
-/

namespace Drbd.ResyncAfter

open State

structure Device where
  minor : Nat
  state : DrbdState
  /-- `ldev->disk_conf->resync_after`, as long as there is an `ldev` -/
  ldev : Option Int
deriving Repr, DecidableEq

/-- `drbd_devices`, in the order of the minors -/
abbrev Devices := List Device

def minorToDevice (ds : Devices) (minor : Int) : Option Device :=
  ds.find? fun d => (d.minor : Int) = minor

/-! ## Following the dependencies -/

/-- What makes the devices that resync after this one wait. -/
def Blocks (s : DrbdState) : Prop :=
  (.syncSource ≤ s.conn ∧ s.conn ≤ .pausedSyncT) ∨ s.aftrIsp ∨ s.peerIsp ∨ s.userIsp

instance (s : DrbdState) : Decidable (Blocks s) := inferInstanceAs (Decidable (_ ∨ _))

/-- `_drbd_may_sync_now()`; no result: the loop is still running after `fuel` rounds. -/
def maySyncNow (ds : Devices) : (fuel : Nat) → (odev : Device) → Option Bool
  | 0, _ => none
  | fuel + 1, odev =>
      match odev.ldev with
      | none => some true
      | some resyncAfter =>
          if odev.state.disk = .diskless then some true
          else if resyncAfter = -1 then some true
          else
            match minorToDevice ds resyncAfter with
            | none => some true
            | some odev => if Blocks odev.state then some false else maySyncNow ds fuel odev

inductive RetCode
  | noError
  | resyncAfter
  | resyncAfterCycle
deriving Repr, DecidableEq

/-- The loop of `drbd_resync_after_valid()` -/
def checkForLoops (ds : Devices) (device : Nat) : (fuel : Nat) → (odev : Option Device) → Option RetCode
  | 0, _ => none
  | _ + 1, none => some .noError
  | fuel + 1, some odev =>
      if odev.minor = device then some .resyncAfterCycle
      else
        match odev.ldev with
        | none => some .noError
        | some resyncAfter =>
            if odev.state.disk = .diskless then some .noError
            else if resyncAfter = -1 then some .noError
            else checkForLoops ds device fuel (minorToDevice ds resyncAfter)

def minorMask : Int := 2 ^ 20 - 1

/-- `drbd_resync_after_valid()` -/
def resyncAfterValid (ds : Devices) (fuel : Nat) (device : Nat) (oMinor : Int) : Option RetCode :=
  if oMinor = -1 then some .noError
  else if oMinor < -1 ∨ oMinor > minorMask then some .resyncAfter
  else checkForLoops ds device fuel (minorToDevice ds oMinor)

/-! ## Pausing and resuming -/

/-- Put the device back under its minor. -/
def store (ds : Devices) (d' : Device) : Devices :=
  ds.map fun d => if d.minor = d'.minor then d' else d

/-- `__drbd_set_state(_NS(odev, aftr_isp, b), CS_HARD, NULL)` -/
def setAftrIsp (env : Env) (d : Device) (b : Bool) : Rv × Device :=
  let r := drbdSetState env true d.state { d.state with aftrIsp := b }
  (r.1, { d with state := r.2 })

def Unconfigured (s : DrbdState) : Prop := s.conn = .standAlone ∧ s.disk = .diskless

instance (s : DrbdState) : Decidable (Unconfigured s) := inferInstanceAs (Decidable (_ ∧ _))

/-- The new `aftr_isp` of a device that `_drbd_pause_after()` comes to, if it sets it. -/
def pauseChoice (fuel : Nat) (ds : Devices) (odev : Device) : Option (Option Bool) :=
  if Unconfigured odev.state then some none
  else (maySyncNow ds fuel odev).map fun may => if may then none else some true

/-- The same for `_drbd_resume_next()`. -/
def resumeChoice (fuel : Nat) (ds : Devices) (odev : Device) : Option (Option Bool) :=
  if Unconfigured odev.state then some none
  else if odev.state.aftrIsp then
    (maySyncNow ds fuel odev).map fun may => if may then some false else none
  else some none

/-- One device of `idr_for_each_entry()`: whether there was something to do, and the devices then. -/
def visit (choice : Devices → Device → Option (Option Bool)) (env : Nat → Env) (ds : Devices) (odev : Device) :
    Option (Bool × Devices) :=
  (choice ds odev).map fun
    | none => (false, ds)
    | some b =>
        let r := setAftrIsp (env odev.minor) odev b
        (r.1 ≠ .nothingToDo, store ds r.2)

/-- The loop over all devices of `_drbd_pause_after()` and `_drbd_resume_next()`. -/
def forEach (choice : Devices → Device → Option (Option Bool)) (env : Nat → Env) :
    List Nat → Devices → Option (Bool × Devices)
  | [], ds => some (false, ds)
  | minor :: minors, ds =>
      match minorToDevice ds minor with
      | none => forEach choice env minors ds
      | some odev => do
          let (rv, ds) ← visit choice env ds odev
          let (rvs, ds) ← forEach choice env minors ds
          return (rv || rvs, ds)

/-- `_drbd_pause_after()` -/
def pauseAfter (env : Nat → Env) (fuel : Nat) (ds : Devices) : Option (Bool × Devices) :=
  forEach (pauseChoice fuel) env (ds.map (·.minor)) ds

/-- `_drbd_resume_next()` -/
def resumeNext (env : Nat → Env) (fuel : Nat) (ds : Devices) : Option (Bool × Devices) :=
  forEach (resumeChoice fuel) env (ds.map (·.minor)) ds

/-- `drbd_resync_after_changed()`; `rounds` bounds its loop, `fuel` those of `_drbd_may_sync_now()`. -/
def resyncAfterChanged (env : Nat → Env) (fuel : Nat) : (rounds : Nat) → Devices → Option Devices
  | 0, _ => none
  | rounds + 1, ds => do
      let (paused, ds) ← pauseAfter env fuel ds
      let (resumed, ds) ← resumeNext env fuel ds
      if paused || resumed then resyncAfterChanged env fuel rounds ds else some ds

/-! ## The administrative commands -/

/-- What the holder of `genl_lock()` is doing. -/
inductive Admin
  | idle
  /-- an attach that found its resync-after dependency valid -/
  | validated (minor : Nat) (resyncAfter : Int)
  /-- an attach past the point of no return -/
  | published (minor : Nat)
deriving Repr, DecidableEq

structure System where
  devices : Devices
  admin : Admin

inductive Event
  | newMinor (minor : Nat)
  | delMinor (minor : Nat)
  /-- `drbd_adm_attach()` up to its call of `drbd_resync_after_valid()` -/
  | attach (minor : Nat) (resyncAfter : Int) (fuel : Nat)
  /-- `device->ldev = nbc` -/
  | publish
  /-- the error exits of `drbd_adm_attach()` after the validation -/
  | attachFail
  | attachDone
  | diskOpts (minor : Nat) (resyncAfter : Int) (env : Nat → Env) (fuel rounds : Nat)
  /-- any state change: a detach, an I/O error, the peer, a resync that starts or ends -/
  | setState (minor : Nat) (ns : DrbdState)
  /-- `drbd_ldev_destroy()` -/
  | ldevDestroy (minor : Nat)
  /-- `suspend_other_sg()` -/
  | suspendOtherSg (env : Nat → Env) (fuel : Nat)
  /-- `resume_next_sg()` -/
  | resumeNextSg (env : Nat → Env) (fuel : Nat)

def newState : DrbdState where
  role := .secondary
  peer := .unknown
  conn := .standAlone
  disk := .diskless
  pdsk := .unknown
  susp := false
  aftrIsp := false
  peerIsp := false
  userIsp := false
  suspNod := false
  suspFen := false

/-- Insert a device in the order of the minors. -/
def idrInsert (d : Device) : Devices → Devices
  | [] => [d]
  | e :: ds => if d.minor < e.minor then d :: e :: ds else e :: idrInsert d ds

/-- A device gets a disk by an attach only; D_ATTACHING comes before the new `ldev`. -/
def DiskChange (admin : Admin) (d : Device) (ns : DrbdState) : Prop :=
  d.state.disk = .diskless → ns.disk = .diskless ∨
    (ns.disk = .attaching ∧ d.ldev = none ∧ ∃ r, admin = .validated d.minor r)

instance (minor : Nat) : ∀ admin : Admin, Decidable (∃ r, admin = .validated minor r)
  | .validated m r =>
      if h : m = minor then isTrue ⟨r, by rw [h]⟩
      else isFalse (fun ⟨_, hr⟩ => h (Admin.validated.inj hr).1)
  | .idle => isFalse (fun ⟨_, hr⟩ => Admin.noConfusion hr)
  | .published _ => isFalse (fun ⟨_, hr⟩ => Admin.noConfusion hr)

instance (admin : Admin) (d : Device) (ns : DrbdState) : Decidable (DiskChange admin d ns) :=
  inferInstanceAs (Decidable (_ → _))

def step (s : System) : Event → Option System
  | .newMinor minor =>
      if s.admin = .idle ∧ minorToDevice s.devices minor = none ∧ (minor : Int) ≤ minorMask then
        some { s with devices := idrInsert ⟨minor, newState, none⟩ s.devices }
      else none
  | .delMinor minor => do
      let d ← minorToDevice s.devices minor
      if s.admin = .idle ∧ Unconfigured d.state ∧ d.state.role = .secondary then
        some { s with devices := s.devices.filter fun e => e.minor ≠ minor }
      else none
  | .attach minor resyncAfter fuel => do
      let d ← minorToDevice s.devices minor
      if s.admin = .idle ∧ d.state.disk = .diskless ∧ d.ldev = none ∧
          resyncAfterValid s.devices fuel minor resyncAfter = some .noError then
        some { s with admin := .validated minor resyncAfter }
      else none
  | .publish =>
      match s.admin with
      | .validated minor resyncAfter => do
          let d ← minorToDevice s.devices minor
          some { devices := store s.devices { d with ldev := some resyncAfter }, admin := .published minor }
      | _ => none
  | .attachFail =>
      match s.admin with
      | .idle => none
      | .validated minor _ | .published minor => do
          let d ← minorToDevice s.devices minor
          some {
            devices := store s.devices { d with state := { d.state with disk := .diskless } }
            admin := .idle }
  | .attachDone =>
      match s.admin with
      | .published _ => some { s with admin := .idle }
      | _ => none
  | .diskOpts minor resyncAfter env fuel rounds => do
      let d ← minorToDevice s.devices minor
      if s.admin = .idle ∧ d.ldev.isSome ∧ .inconsistent ≤ d.state.disk ∧
          resyncAfterValid s.devices fuel minor resyncAfter = some .noError then
        let ds ← resyncAfterChanged env fuel rounds (store s.devices { d with ldev := some resyncAfter })
        some { s with devices := ds }
      else none
  | .setState minor ns => do
      let d ← minorToDevice s.devices minor
      if DiskChange s.admin d ns then some { s with devices := store s.devices { d with state := ns } } else none
  | .ldevDestroy minor => do
      let d ← minorToDevice s.devices minor
      if d.state.disk = .diskless then some { s with devices := store s.devices { d with ldev := none } }
      else none
  | .suspendOtherSg env fuel => (pauseAfter env fuel s.devices).map fun r => { s with devices := r.2 }
  | .resumeNextSg env fuel => (resumeNext env fuel s.devices).map fun r => { s with devices := r.2 }

/-- The module has just been loaded. -/
def start : System := ⟨[], .idle⟩

/-! ## The graph of the dependencies -/

def Attached (d : Device) : Prop := d.ldev.isSome ∧ d.state.disk ≠ .diskless

instance (d : Device) : Decidable (Attached d) := inferInstanceAs (Decidable (_ ∧ _))

/-- The attached device `a` resyncs after the attached device `b`. -/
def DependsOn (ds : Devices) (a b : Int) : Prop :=
  ∃ d e, minorToDevice ds a = some d ∧ minorToDevice ds b = some e ∧ Attached d ∧ Attached e ∧ d.ldev = some b

def Acyclic (ds : Devices) : Prop := ∀ a, ¬ Relation.TransGen (DependsOn ds) a a

end Drbd.ResyncAfter
