import Drbd.Lib.SearchTree
import Drbd.Lib.System
import Mathlib.Algebra.Ring.Int.Defs
import Mathlib.Algebra.Ring.Nat

/-!
# The interval tree

The requests of a device by where they start, in a red-black tree whose nodes know the highest end
below them. The tree itself is the kernel's: `Rb` says what is asked of it.
-/

namespace Drbd.Interval

open Lib

/-- Sectors from `sector` on; the size is in bytes. -/
structure Range where
  sector : Nat
  size : Nat
  aligned : size % 512 = 0
  fits : sector + size / 512 < 2 ^ 64
deriving DecidableEq

/-- `sector + (size >> 9)`, in 64 bits. -/
def Range.stop (r : Range) : Nat := (r.sector + r.size / 512) % 2 ^ 64

/-- `struct drbd_interval` with its address; the `end` is with the node. -/
structure DrbdInterval extends Range where
  addr : Nat
  pos : 0 < size
deriving DecidableEq

abbrev RbTree := Tree DrbdInterval Nat

/-- `update_interval_end`, from the ends of the children. -/
def updateIntervalEnd (left : Option Nat) (this : DrbdInterval) (right : Option Nat) : Nat :=
  let last := this.stop
  let last := match left with
    | some left => if last < left then left else last
    | none => last
  match right with
  | some right => if last < right then right else last
  | none => last

/-- Where to go on from `here`, on the way to an interval. -/
def direction (sector addr : Nat) (here : DrbdInterval) : Ordering :=
  if sector < here.sector then .lt
  else if here.sector < sector then .gt
  else if addr < here.addr then .lt
  else if here.addr < addr then .gt
  else .eq

/-- The kernel's tree. `insert` is `rb_insert_color` and `rb_augment_insert`, from the tree before and
after linking; `erase` is `rb_augment_erase_begin`, `rb_erase` and `rb_augment_erase_end`.
They may rotate, and call back for every node on a rotated path. -/
structure Rb where
  insert : RbTree → RbTree → RbTree
  erase : RbTree → DrbdInterval → RbTree
  insert_inorder : ∀ {root linked leaf : RbTree} {cut}, Tree.link cut leaf root = some linked →
    (insert root linked).inorder = linked.inorder
  insert_called : ∀ {root linked leaf : RbTree} {cut}, Tree.link cut leaf root = some linked →
    Tree.Reaugmented updateIntervalEnd root (insert root linked)
  erase_inorder : ∀ {root : RbTree} {this}, this ∈ root.inorder →
    (erase root this).inorder = root.inorder.erase this
  erase_called : ∀ {root : RbTree} {this}, this ∈ root.inorder →
    Tree.Reaugmented updateIntervalEnd root (erase root this)

/-- The new node has no end of its own until it is called back for. -/
def drbdInsertInterval (rb : Rb) (root : RbTree) (this : DrbdInterval) : RbTree × Bool :=
  match Tree.link (direction this.sector this.addr) (.node .nil this 0 .nil) root with
  | none => (root, false)
  | some linked => (rb.insert root linked, true)

def drbdContainsInterval (root : RbTree) (sector addr : Nat) : Bool :=
  root.contains (direction sector addr)

def drbdRemoveInterval (rb : Rb) (root : RbTree) (this : DrbdInterval) : RbTree :=
  rb.erase root this

def drbdFindOverlap (q : Range) : RbTree → Option DrbdInterval
  | .nil => none
  | .node left here _ right =>
      -- overlap, if any, must be on the left side
      if left.summary.any (fun last => decide (q.sector < last)) then drbdFindOverlap q left
      else if here.sector < q.stop ∧ q.sector < here.stop then some here
      else if here.sector ≤ q.sector then drbdFindOverlap q right
      else none

/-- What `rb_next` goes through from a node on. -/
def following (root : RbTree) (i : DrbdInterval) : List DrbdInterval :=
  (root.inorder.dropWhile (· ≠ i)).tail

def nextOverlapIn (q : Range) : List DrbdInterval → Option DrbdInterval
  | [] => none
  | i :: rest =>
      if q.stop ≤ i.sector then none
      else if q.sector < i.stop then some i
      else nextOverlapIn q rest

def drbdNextOverlap (root : RbTree) (i : DrbdInterval) (q : Range) : Option DrbdInterval :=
  nextOverlapIn q (following root i)

/-- `drbd_for_each_overlap` from `i` on; nothing if it takes more turns than that. -/
def forEachOverlap (root : RbTree) (q : Range) : Nat → Option DrbdInterval → Option (List DrbdInterval)
  | _, none => some []
  | 0, some _ => none
  | turns + 1, some i => (forEachOverlap root q turns (drbdNextOverlap root i q)).map (i :: ·)

/-! ## Any sequence of changes -/

inductive Op
  | insert (this : DrbdInterval)
  | remove (this : DrbdInterval)
deriving DecidableEq

/-- Only what is in the tree is removed from it. -/
def step (rb : Rb) (root : RbTree) : Op → Option RbTree
  | .insert this => some (drbdInsertInterval rb root this).1
  | .remove this => if this ∈ root.inorder then some (drbdRemoveInterval rb root this) else none

/-- Which intervals are there: the abstract meaning of a tree. -/
def Op.members (s : Set DrbdInterval) : Op → Set DrbdInterval
  | .insert this =>
      {i | i ∈ s ∨ (i = this ∧ ∀ j ∈ s, ¬ (j.sector = this.sector ∧ j.addr = this.addr))}
  | .remove this => {i | i ∈ s ∧ i ≠ this}

/-- By sector and address. -/
def Before (i j : DrbdInterval) : Prop := i.sector < j.sector ∨ (i.sector = j.sector ∧ i.addr < j.addr)

/-- Half-open intervals that meet. -/
def Overlaps (q : Range) (i : DrbdInterval) : Prop := i.sector < q.stop ∧ q.sector < i.stop

instance (q : Range) : DecidablePred (Overlaps q) := fun _ => inferInstanceAs (Decidable (_ ∧ _))

end Drbd.Interval
