import Drbd.Admission.Defs
import Drbd.Lib.System

/-!
# Intervals on their way through the activity log

Any number of callers admit intervals, on the fast path, one extent after the other or without blocking, commit what is
to be changed, and complete the intervals later. What happens under `al_lock` is one event, and so is each look at the
cache without it.
-/

namespace Drbd.Admission

open Lru

/-- `struct drbd_interval`, which is known by its address. -/
structure Interval where
  addr : Nat
  sector : Nat
  size : Nat
  aligned : size % 512 = 0
  inRange : sector + size / 512 ≤ 2 ^ 42

theorem Interval.eq_iff {i j : Interval} : i = j ↔ i.addr = j.addr ∧ i.sector = j.sector ∧ i.size = j.size := by
  cases i
  cases j
  exact Interval.mk.injEq .. ▸ Iff.rfl

instance : DecidableEq Interval := fun _ _ => decidable_of_iff' _ Interval.eq_iff

def Interval.extents (i : Interval) : List Nat := Noblock.extents i.sector i.size

/-- How far an interval is: in `drbd_al_begin_io_prepare`, with the extents to come and the element that
`need_transaction` has not been looked up for yet; or with all references, until its caller has committed; or on its
way to disk. -/
inductive Stage
  | fetching (rest : List Nat) (looking : Option (Nat × Nat)) (needTransaction : Bool)
  | taken
  | proceeding
deriving DecidableEq, Repr

/-- An interval that was started, with the extents it has a reference to. -/
structure Entry where
  i : Interval
  caller : Nat
  held : List Nat
  stage : Stage
deriving DecidableEq

/-- Where a caller is in `drbd_al_begin_io_commit`. -/
inductive CommitStage
  | outside
  | waiting
  | locked
  | writing
  | unlocking
deriving DecidableEq, Repr

structure AlSystem where
  al : LruCache
  rs : Resync
  entries : List Entry
  commits : Nat → CommitStage

/-- `find_active_resync_extent` -/
def findActiveResyncExtent (rs : Resync) (enr : Nat) : Option Nat :=
  (lcFind rs.lc (enr / AL_EXT_PER_BM_SECT)).filter fun j => rs.noWrites j

/-- `_al_get`; no result is a fired `BUG_ON`. -/
def alGet (al : LruCache) (rs : Resync) (enr : Nat) (nonblock : Bool) : Option (LruCache × Resync × Option Nat) :=
  match findActiveResyncExtent rs enr with
  | some j => some (al, { rs with priority := Function.update rs.priority j true }, none)
  | none => (if nonblock then lcTryGet al enr else lcGet al enr).map fun r => (r.1, rs, r.2)

/-- The loop of `drbd_al_complete_io`, and whether no extent was found inactive. -/
def completeExtents (al : LruCache) : List Nat → Option (LruCache × Bool)
  | [] => some (al, true)
  | enr :: rest =>
      match lcFind al enr with
      | none => (completeExtents al rest).map fun r => (r.1, false)
      | some i => (lcPut al i).bind fun r => completeExtents r.1 rest

namespace AlSystem

/-- `drbd_al_begin_io_fastpath` -/
def fastpath (s : AlSystem) (c : Nat) (i : Interval) : Option AlSystem :=
  if firstExtent i.sector ≠ lastExtent i.sector i.size then some s
  else
    (alGet s.al s.rs (firstExtent i.sector) true).map fun r =>
      { s with
        al := r.1
        rs := r.2.1
        entries := if r.2.2.isSome then ⟨i, c, [firstExtent i.sector], .proceeding⟩ :: s.entries else s.entries }

/-- A round of the wait in `drbd_al_begin_io_prepare`. -/
def get (s : AlSystem) (k : Nat) : Option AlSystem :=
  match s.entries[k]? with
  | some ⟨i, c, held, .fetching (enr :: rest) none needTransaction⟩ =>
      (alGet s.al s.rs enr false).map fun r =>
        { s with
          al := r.1
          rs := r.2.1
          entries :=
            match r.2.2 with
            | none => s.entries
            | some j => ⟨i, c, held ++ [enr], .fetching rest (some (enr, j)) needTransaction⟩ :: s.entries.eraseIdx k }
  | _ => none

/-- Where `drbd_al_begin_io_prepare` goes on with `need_transaction`. -/
def afterLook (rest : List Nat) (needTransaction : Bool) : Stage :=
  if rest ≠ [] then .fetching rest none needTransaction
  else if needTransaction then .taken
  else .proceeding

/-- `if (al_ext->lc_number != enr) need_transaction = true` -/
def look (s : AlSystem) (k : Nat) : Option AlSystem :=
  match s.entries[k]? with
  | some ⟨i, c, held, .fetching rest (some (enr, j)) needTransaction⟩ =>
      let needTransaction := needTransaction || (s.al.lcElement j).lcNumber ≠ enr
      some { s with entries := ⟨i, c, held, afterLook rest needTransaction⟩ :: s.entries.eraseIdx k }
  | _ => none

/-- `drbd_al_begin_io_nonblock` -/
def nonblock (s : AlSystem) (c : Nat) (i : Interval) : Option AlSystem :=
  (drbdAlBeginIoNonblock s.al s.rs i.sector i.size).map fun r =>
    { s with
      al := r.1
      rs := r.2.1
      entries := if r.2.2.isNone then ⟨i, c, i.extents, .taken⟩ :: s.entries else s.entries }

def enter (s : AlSystem) (c : Nat) (stage : CommitStage) : AlSystem :=
  { s with commits := Function.update s.commits c stage }

/-- After `drbd_al_begin_io_commit` the caller's intervals are on their way. -/
def proceed (s : AlSystem) (c : Nat) : AlSystem :=
  { s with
    entries := s.entries.map fun e => if e.caller = c ∧ e.stage = .taken then { e with stage := .proceeding } else e
    commits := Function.update s.commits c .outside }

/-- `drbd_al_complete_io` -/
def complete (s : AlSystem) (k : Nat) : Option AlSystem :=
  match s.entries[k]? with
  | some ⟨i, _, _, .proceeding⟩ =>
      (completeExtents s.al i.extents).map fun r => { s with al := r.1, entries := s.entries.eraseIdx k }
  | _ => none

end AlSystem

inductive AlEvent
  | fastpath (c : Nat) (i : Interval)
  | prepare (c : Nat) (i : Interval)
  | get (k : Nat)
  | look (k : Nat)
  | nonblock (c : Nat) (i : Interval)
  | commit (c : Nat)
  /-- `pending_changes == 0` -/
  | nothingPending (c : Nat)
  | tryLock (c : Nat)
  /-- double check: it may have been committed by someone else -/
  | doubleCheck (c : Nat)
  | committed (c : Nat)
  | unlock (c : Nat)
  | complete (k : Nat)
  | resync (rs : Resync)

/-- The caller whose event it is, if it cannot be while it commits. -/
def AlEvent.caller (s : AlSystem) : AlEvent → Option Nat
  | .fastpath c _ | .prepare c _ | .nonblock c _ | .commit c => some c
  | .get k | .look k => (s.entries[k]?).map (·.caller)
  | .nothingPending _ | .tryLock _ | .doubleCheck _ | .committed _ | .unlock _ | .complete _ | .resync _ => none

def AlSystem.apply (s : AlSystem) : AlEvent → Option AlSystem
  | .fastpath c i => s.fastpath c i
  | .prepare c i => some { s with entries := ⟨i, c, [], .fetching i.extents none false⟩ :: s.entries }
  | .get k => s.get k
  | .look k => s.look k
  | .nonblock c i => s.nonblock c i
  | .commit c => some (s.enter c .waiting)
  | .nothingPending c =>
      if s.commits c = .waiting ∧ s.al.pendingChanges = 0 then some (s.proceed c) else none
  | .tryLock c =>
      if s.commits c = .waiting then
        let (al, locked) := lcTryLockForTransaction s.al
        some (if locked then { s with al := al }.enter c .locked else { s with al := al })
      else none
  | .doubleCheck c =>
      if s.commits c = .locked then some (s.enter c (if s.al.pendingChanges ≠ 0 then .writing else .unlocking))
      else none
  | .committed c =>
      if s.commits c = .writing then (lcCommitted s.al).map fun al => { s with al := al }.enter c .unlocking
      else none
  | .unlock c =>
      if s.commits c = .unlocking then some ({ s with al := lcUnlock s.al }.proceed c) else none
  | .complete k => s.complete k
  | .resync rs => some { s with rs := rs }

/-- A caller that commits does nothing else meanwhile. -/
def AlSystem.step (s : AlSystem) (ev : AlEvent) : Option AlSystem :=
  if (ev.caller s).all fun c => s.commits c = .outside then s.apply ev else none

/-- A new activity log. -/
def AlSystem.create (maxPendingChanges eCount : Nat) (rs : Resync) : AlSystem where
  al := lcCreate maxPendingChanges eCount
  rs := rs
  entries := []
  commits := fun _ => .outside

end Drbd.Admission
