import Drbd.Lru.Defs

/-!
# The remaining operations of lru_cache.c

and the system of all of them: any operation may follow any other.
-/

namespace Drbd.Lru

namespace LruCache

/-- `list_move(&e->list, &lc->free)`. -/
def moveFree (lc : LruCache) (i : Nat) : LruCache :=
  { lc.unlink i with free := i :: lc.free.erase i }

/-- `hlist_del_init`. -/
def unhash (lc : LruCache) (i : Nat) : LruCache :=
  { lc with lcSlot := fun s => (lc.lcSlot s).filter (· ≠ i) }

end LruCache

def lcGetCumulative (lc : LruCache) (enr : Nat) : Option (LruCache × Option Nat) :=
  lcGetFlags lc enr true true

def lcTryGet (lc : LruCache) (enr : Nat) : Option (LruCache × Option Nat) :=
  lcGetFlags lc enr false false

/-- One turn of the loop in `lc_committed`. -/
def commitElement (lc : LruCache) (i : Nat) : LruCache :=
  let lc := { lc with changed := lc.changed + 1 }
  let lc := lc.setElement i { lc.lcElement i with lcNumber := (lc.lcElement i).lcNewNumber }
  lc.moveInUse i

/-- `lc_committed`. -/
def lcCommitted (lc : LruCache) : Option LruCache :=
  if lc.nrElements = 0 then none
  else some { lc.toBeChanged.foldl commitElement lc with pendingChanges := 0 }

/-- `lc_del`. -/
def lcDel (lc : LruCache) (i : Nat) : Option LruCache :=
  if lc.nrElements ≤ i ∨ (lc.lcElement i).refcnt ≠ 0 then none
  else
    let lc := lc.setElement i { lc.lcElement i with lcNumber := LC_FREE, lcNewNumber := LC_FREE }
    some ((lc.unhash i).moveFree i)

/-- `lc_set`; an index that is out of range is ignored. -/
def lcSet (lc : LruCache) (enr : Nat) (index : Int) : Option LruCache :=
  if index < 0 ∨ index ≥ lc.nrElements then some lc
  else
    let i := index.toNat
    let e := lc.lcElement i
    if e.lcNumber ≠ e.lcNewNumber ∨ e.refcnt ≠ 0 then none
    else
      let lc := (lc.setElement i { e with lcNumber := enr, lcNewNumber := enr }).unhash i
      if enr = LC_FREE then some (lc.moveFree i) else some ((lc.rehash i enr).moveLru i)

/-- `lc_reset`. -/
def lcReset (lc : LruCache) : LruCache :=
  { lcCreate lc.maxPendingChanges lc.nrElements with
    lcElement := fun i => if i < lc.nrElements then .fresh else lc.lcElement i
    lcSlot := fun s => if s < lc.nrElements then [] else lc.lcSlot s }

/-- `lc_try_lock`: only a clean cache can be locked. -/
def lcTryLock (lc : LruCache) : LruCache × Bool :=
  if lc.lcDirty ∨ lc.lcLocked ∨ lc.lcStarving then (lc, false) else ({ lc with lcLocked := true }, true)

/-- `lc_try_lock_for_transaction`. -/
def lcTryLockForTransaction (lc : LruCache) : LruCache × Bool :=
  ({ lc with lcLocked := true }, !lc.lcLocked)

/-- `lc_unlock`. -/
def lcUnlock (lc : LruCache) : LruCache :=
  { lc with lcDirty := false, lcLocked := false }

inductive Op
  | get (enr : Nat)
  | getCumulative (enr : Nat)
  | tryGet (enr : Nat)
  | put (i : Nat)
  | committed
  | del (i : Nat)
  | set (enr : Nat) (index : Int)
  | reset
  | tryLock
  | tryLockForTransaction
  | unlock
deriving Repr, DecidableEq

/-- The cache with the time at which each element was last released: its count went to zero, or it
was given a label without being used. -/
structure Timed where
  lc : LruCache
  clock : Nat
  released : Nat → Nat

/-- The cache after an operation, and the element the operation released. -/
def apply (lc : LruCache) : Op → Option (LruCache × Option Nat)
  | .get enr => (lcGet lc enr).map fun r => (r.1, none)
  | .getCumulative enr => (lcGetCumulative lc enr).map fun r => (r.1, none)
  | .tryGet enr => (lcTryGet lc enr).map fun r => (r.1, none)
  | .put i => (lcPut lc i).map fun r => (r.1, if r.2 = 0 then some i else none)
  | .committed => (lcCommitted lc).map fun lc => (lc, none)
  | .del i => (lcDel lc i).map fun lc => (lc, none)
  | .set enr index => (lcSet lc enr index).map fun lc' =>
      (lc', if 0 ≤ index ∧ index < lc.nrElements ∧ enr ≠ LC_FREE then some index.toNat else none)
  | .reset => some (lcReset lc, none)
  | .tryLock => some ((lcTryLock lc).1, none)
  | .tryLockForTransaction => some ((lcTryLockForTransaction lc).1, none)
  | .unlock => some (lcUnlock lc, none)

def step (t : Timed) (op : Op) : Option Timed :=
  (apply t.lc op).map fun r =>
    { lc := r.1
      clock := t.clock + 1
      released := match r.2 with
        | none => t.released
        | some i => Function.update t.released i (t.clock + 1) }

/-- The documented preconditions: labels are real; an element that is put is used and committed; an
element that is deleted or set is unused; and `lc_set` restores a recorded state, in which no label
occurs twice. -/
def Allowed (t : Timed) : Op → Prop
  | .get enr | .getCumulative enr | .tryGet enr => enr ≠ LC_FREE
  | .put i => i < t.lc.nrElements ∧ (t.lc.lcElement i).refcnt ≠ 0 ∧
      (t.lc.lcElement i).lcNumber = (t.lc.lcElement i).lcNewNumber
  | .del i => i < t.lc.nrElements ∧ (t.lc.lcElement i).refcnt = 0
  | .set enr index => 0 ≤ index → index < t.lc.nrElements →
      (t.lc.lcElement index.toNat).refcnt = 0 ∧
      (t.lc.lcElement index.toNat).lcNumber = (t.lc.lcElement index.toNat).lcNewNumber ∧
      (enr ≠ LC_FREE → ∀ j < t.lc.nrElements, j ≠ index.toNat → (t.lc.lcElement j).lcNewNumber ≠ enr)
  | _ => True

/-- A new cache. -/
def create (maxPendingChanges eCount : Nat) : Timed := ⟨lcCreate maxPendingChanges eCount, 0, fun _ => 0⟩

end Drbd.Lru
