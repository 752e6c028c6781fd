import Mathlib.Algebra.Ring.Int.Defs
import Mathlib.Algebra.Ring.Nat
import Mathlib.Logic.Function.Basic

/-!
# The LRU cache of lru_cache.c

Elements are named by their index; the element array, the four lists and the hash chains are kept as
the source has them, with the head of a list first. A `BUG_ON` that fires stops the machine: the
operation has no result.
-/

namespace Drbd.Lru

/-- The label of an element that tracks nothing. -/
def LC_FREE : Nat := 2 ^ 32 - 1

/-- `struct lc_element`; its index is its place in the element array. `refcnt` is an `unsigned` that never wraps: no
element has 2^32 references out at a time. -/
structure LcElement where
  refcnt : Nat
  lcNumber : Nat
  lcNewNumber : Nat
deriving DecidableEq, Repr

def LcElement.fresh : LcElement := ⟨0, LC_FREE, LC_FREE⟩

/-- `struct lru_cache`: lists, limits, statistics, flag bits, hash slots and elements. -/
structure LruCache where
  lru : List Nat
  free : List Nat
  inUse : List Nat
  toBeChanged : List Nat
  nrElements : Nat
  maxPendingChanges : Nat
  pendingChanges : Nat
  used : Nat
  hits : Nat
  misses : Nat
  starving : Nat
  locked : Nat
  changed : Nat
  lcDirty : Bool
  lcLocked : Bool
  lcStarving : Bool
  lcSlot : Nat → List Nat
  lcElement : Nat → LcElement

/-- `lc_create`, all allocations successful: `list_add` pushes each new element at the head. -/
def lcCreate (maxPendingChanges eCount : Nat) : LruCache where
  lru := []
  free := (List.range eCount).reverse
  inUse := []
  toBeChanged := []
  nrElements := eCount
  maxPendingChanges := maxPendingChanges
  pendingChanges := 0
  used := 0
  hits := 0
  misses := 0
  starving := 0
  locked := 0
  changed := 0
  lcDirty := false
  lcLocked := false
  lcStarving := false
  lcSlot := fun _ => []
  lcElement := fun _ => .fresh

namespace LruCache

/-- Store an element; every field update of the source goes through here. -/
def setElement (lc : LruCache) (i : Nat) (e : LcElement) : LruCache :=
  { lc with lcElement := Function.update lc.lcElement i e }

/-- The first half of `list_move`: take the element off whichever list it is on. -/
def unlink (lc : LruCache) (i : Nat) : LruCache :=
  { lc with
    lru := lc.lru.erase i
    free := lc.free.erase i
    inUse := lc.inUse.erase i
    toBeChanged := lc.toBeChanged.erase i }

/-- `list_move(&e->list, &lc->in_use)`. -/
def moveInUse (lc : LruCache) (i : Nat) : LruCache :=
  { lc.unlink i with inUse := i :: lc.inUse.erase i }

/-- `list_move(&e->list, &lc->lru)`. -/
def moveLru (lc : LruCache) (i : Nat) : LruCache :=
  { lc.unlink i with lru := i :: lc.lru.erase i }

/-- `list_move(&e->list, &lc->to_be_changed)`. -/
def moveToBeChanged (lc : LruCache) (i : Nat) : LruCache :=
  { lc.unlink i with toBeChanged := i :: lc.toBeChanged.erase i }

/-- Unlink from the hash chain, if hashed, and `hlist_add_head` to the chain of `number`. -/
def rehash (lc : LruCache) (i number : Nat) : LruCache :=
  { lc with
    lcSlot := fun s =>
      let chain := (lc.lcSlot s).filter (· ≠ i)
      if s = number % lc.nrElements then i :: chain else chain }

end LruCache

/-- `__lc_find`: the first element of the chain with the new number decides. -/
def lcFindAny (lc : LruCache) (enr : Nat) (includeChanging : Bool) : Option Nat :=
  match (lc.lcSlot (enr % lc.nrElements)).find? (fun i => (lc.lcElement i).lcNewNumber = enr) with
  | none => none
  | some i =>
      if (lc.lcElement i).lcNewNumber = (lc.lcElement i).lcNumber ∨ includeChanging then some i
      else none

/-- `lc_find`: ignores elements still pending transaction commit. -/
def lcFind (lc : LruCache) (enr : Nat) : Option Nat :=
  lcFindAny lc enr false

/-- The element `lc_prepare_for_change` recycles: the first free one, else the last of the lru list. -/
def lcUnusedElement (lc : LruCache) : Option Nat :=
  match lc.free with
  | i :: _ => some i
  | [] => lc.lru.getLast?

/-- `lc_prepare_for_change`. -/
def lcPrepareForChange (lc : LruCache) (newNumber : Nat) : Option (LruCache × Nat) :=
  match lcUnusedElement lc with
  | none => none
  | some i =>
      let lc := lc.setElement i { lc.lcElement i with lcNewNumber := newNumber }
      let lc := lc.rehash i newNumber
      some (lc.moveToBeChanged i, i)

/-- `__lc_get`. The outer `Option` is a fired `BUG_ON`, the inner one the returned pointer. -/
def lcGetFlags (lc : LruCache) (enr : Nat) (mayChange mayUseUncommitted : Bool) :
    Option (LruCache × Option Nat) :=
  if lc.nrElements = 0 then none
  else if lc.lcStarving then some ({ lc with starving := lc.starving + 1 }, none)
  else match lcFindAny lc enr true with
  | some i =>
      let e := lc.lcElement i
      if e.lcNewNumber ≠ e.lcNumber then
        if mayUseUncommitted then
          let lc := lc.setElement i { e with refcnt := e.refcnt + 1 }
          some ({ lc with hits := lc.hits + 1 }, some i)
        else some (lc, none)
      else
        let lc := { lc with hits := lc.hits + 1, used := if e.refcnt = 0 then lc.used + 1 else lc.used }
        let lc := lc.setElement i { e with refcnt := e.refcnt + 1 }
        some (lc.moveInUse i, some i)
  | none =>
      let lc := { lc with misses := lc.misses + 1 }
      if !mayChange then some (lc, none)
      else
        let lc := { lc with lcDirty := true }
        if lc.lcLocked then some ({ lc with locked := lc.locked + 1 }, none)
        else if lcUnusedElement lc = none then some ({ lc with lcStarving := true }, none)
        else if lc.pendingChanges ≥ lc.maxPendingChanges then some (lc, none)
        else match lcPrepareForChange lc enr with
        | none => none
        | some (lc, i) =>
            if (lc.lcElement i).refcnt ≠ 0 then none
            else
              let lc := { lc with lcStarving := false }
              let lc := lc.setElement i { lc.lcElement i with refcnt := 1 }
              some ({ lc with used := lc.used + 1, pendingChanges := lc.pendingChanges + 1 }, some i)

/-- `lc_get`. -/
def lcGet (lc : LruCache) (enr : Nat) : Option (LruCache × Option Nat) :=
  lcGetFlags lc enr true false

/-- `lc_put`: gives the new reference count. -/
def lcPut (lc : LruCache) (i : Nat) : Option (LruCache × Nat) :=
  let e := lc.lcElement i
  if lc.nrElements ≤ i ∨ e.refcnt = 0 ∨ e.lcNumber ≠ e.lcNewNumber then none
  else
    let lc := lc.setElement i { e with refcnt := e.refcnt - 1 }
    if e.refcnt - 1 = 0 then
      let lc := lc.moveLru i
      some ({ lc with used := lc.used - 1, lcStarving := false }, 0)
    else some (lc, e.refcnt - 1)

end Drbd.Lru
