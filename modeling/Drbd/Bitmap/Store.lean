import Drbd.Bitmap.Lemmas.Words
import Drbd.Bitmap.Lemmas.Pages
import Drbd.Lib.System

/-!
# The bitmap as a store

The bitmap together with its capacity and its area on the meta-data disk: resizing, setting and
clearing all of it, writing it out and reading it back. Every operation of the store is one event.
-/

namespace Drbd.Bitmap

/-- The pages that hold `bits` bits. -/
def pagesOf (bits : Nat) : Nat :=
  ((bits + 63) / 64 + 511) / 512

/-- The bitmap with `bm_dev_capacity`, and the bitmap area of the meta-data disk. -/
structure Store extends DrbdBitmap where
  bmDevCapacity : Nat
  disk : Nat → BitVec 64

/-- The mask of the used bits in the word of the last bit; zero when there is no such partial word. -/
def usedMask (bmBits : Nat) : BitVec 64 :=
  BitVec.ofNat 64 (2 ^ (bmBits % 64) - 1)

def bmSetSurplus (b : DrbdBitmap) : DrbdBitmap :=
  let mask := usedMask b.bmBits
  if mask = 0 then b
  else
    let w := b.bmBits / 64
    b.setWord w (b.word w ||| ~~~mask)

/-- `bm_count_bits`, for a bitmap that has a page. It also masks the last word. -/
def bmCountBits (b : DrbdBitmap) : DrbdBitmap × Nat :=
  let mask := usedMask b.bmBits
  let idx := b.bmNumberOfPages - 1
  let bits := ((List.range idx).map fun page =>
    ((List.range 512).map fun i => hweightLong (b.word (page * 512 + i))).sum).sum
  let lastWord := (b.bmBits - 1) % bitsPerPage / 64
  let bits := bits + ((List.range lastWord).map fun i => hweightLong (b.word (idx * 512 + i))).sum
  let last := b.word (idx * 512 + lastWord) &&& mask
  (b.setWord (idx * 512 + lastWord) last, bits + hweightLong last)

/-- `bm_memset`: the words from `offset` on, each page touched is marked. -/
def bmMemset (b : DrbdBitmap) (offset : Nat) (c : BitVec 64) (len : Nat) : DrbdBitmap :=
  if b.bmWords < offset + len then b
  else
    { b with
      word := fun w => if offset ≤ w ∧ w < offset + len then c else b.word w
      needWriteout := fun page =>
        decide (max offset (page * 512) < min (offset + len) (page * 512 + 512)) || b.needWriteout page }

/-- `drbd_bm_set_all`. -/
def drbdBmSetAll (b : DrbdBitmap) : DrbdBitmap :=
  if b.bmBits = 0 then b
  else
    let b := (bmClearSurplus (bmMemset b 0 (BitVec.allOnes 64) b.bmWords)).1
    { b with bmSet := b.bmBits }

/-- `drbd_bm_clear_all`. -/
def drbdBmClearAll (b : DrbdBitmap) : DrbdBitmap :=
  if b.bmBits = 0 then b
  else { bmMemset b 0 0 b.bmWords with bmSet := 0 }

/-! ## Resizing -/

/-- What a resize meets: the room for the bitmap if a disk is attached, whether memory can be had, and
what the pages hold that it gets. -/
structure Surroundings where
  bitsOnDisk : Option Nat
  memory : Bool
  page : Nat → BitVec 64

inductive BmError
  | enospc
  | enomem
deriving DecidableEq, Repr

/-- `bm_realloc_pages`: the old pages are kept, new ones come as they are, with no flag up. -/
def bmReallocPages (b : DrbdBitmap) (page : Nat → BitVec 64) : DrbdBitmap :=
  { b with
    word := fun w => if w / 512 < b.bmNumberOfPages then b.word w else page w
    needWriteout := fun p => decide (p < b.bmNumberOfPages) && b.needWriteout p
    lazyWriteout := fun p => decide (p < b.bmNumberOfPages) && b.lazyWriteout p }

/-- The locked part of `drbd_bm_resize` and the recount after it. -/
def bmResizeTo (b : DrbdBitmap) (bits : Nat) (setNewBits : Bool) (page : Nat → BitVec 64) : DrbdBitmap :=
  let growing := b.bmBits < bits
  let old := if b.bmBits ≠ 0 ∧ growing ∧ setNewBits then bmSetSurplus b else b
  let new := { bmReallocPages old page with bmBits := bits }
  let words := new.bmWords - b.bmWords
  let new :=
    if growing then
      if setNewBits then
        { bmMemset new b.bmWords (BitVec.allOnes 64) words with bmSet := b.bmSet + (bits - b.bmBits) }
      else bmMemset new b.bmWords 0 words
    else new
  let new := (bmClearSurplus new).1
  if growing then new
  else
    let (new, n) := bmCountBits new
    { new with bmSet := n }

/-- `drbd_bm_resize`. The capacity is cut to whole 16 MiB. -/
def drbdBmResize (s : Store) (cSize : Nat) (setNewBits : Bool) (env : Surroundings) : Except BmError Store :=
  let capacity := cSize - cSize % 32768
  if capacity = s.bmDevCapacity then .ok s
  else if capacity = 0 then .ok { s with bmSet := 0, bmBits := 0, bmDevCapacity := 0 }
  else
    let bits := (capacity + 7) / 8 * 8 / 8
    if env.bitsOnDisk.any (· < bits) then .error .enospc
    else if pagesOf bits ≠ s.bmNumberOfPages ∧ env.memory = false then .error .enomem
    else .ok { s with
      toDrbdBitmap := bmResizeTo s.toDrbdBitmap bits setNewBits env.page
      bmDevCapacity := capacity }

/-! ## Bitmap I/O -/

/-- One page of `bm_rw` writing; `all` is `BM_WRITE_ALL_PAGES`. -/
def Store.writePage (all : Bool) (s : Store) (page : Nat) : Store :=
  if !all && s.testPageUnchanged page then s
  else
    { s with
      toDrbdBitmap := s.setPageUnchanged page
      disk := fun w => if w / 512 = page then s.word w else s.disk w }

/-- `drbd_bm_write` and `drbd_bm_write_all`. -/
def drbdBmWrite (s : Store) (all : Bool) : Store :=
  (List.range s.bmNumberOfPages).foldl (Store.writePage all) s

/-- One page of `bm_rw` reading. -/
def Store.readPage (s : Store) (page : Nat) : Store :=
  { s with
    toDrbdBitmap := { s.setPageUnchanged page with
      word := fun w => if w / 512 = page then s.disk w else s.word w } }

/-- `drbd_bm_read`; the recount of a bitmap without a page follows a null pointer. -/
def drbdBmRead (s : Store) : Option Store :=
  if s.bmBits = 0 then none
  else
    let s := (List.range s.bmNumberOfPages).foldl Store.readPage s
    let (b, n) := bmCountBits s.toDrbdBitmap
    some { s with toDrbdBitmap := { b with bmSet := n } }

/-! ## The store as a system -/

inductive Op
  | resize (cSize : Nat) (setNewBits : Bool) (env : Surroundings)
  | setBits (s e : Nat)
  | clearBits (s e : Nat)
  | setBitsBulk (s e : Nat)
  | mergeLel (offset : Nat) (buffer : List (BitVec 64))
  | setAll
  | clearAll
  | writeRead (all : Bool)

/-- One operation; a refused resize changes nothing. -/
def step (s : Store) : Op → Option Store
  | .resize cSize setNewBits env =>
      match drbdBmResize s cSize setNewBits env with
      | .ok s' => some s'
      | .error _ => some s
  | .setBits lo hi => some { s with toDrbdBitmap := (drbdBmSetBits s.toDrbdBitmap lo hi).1 }
  | .clearBits lo hi => some { s with toDrbdBitmap := (drbdBmClearBits s.toDrbdBitmap lo hi).1 }
  | .setBitsBulk lo hi => some { s with toDrbdBitmap := drbdBmSetBitsBulk s.toDrbdBitmap lo hi }
  | .mergeLel offset buffer => some { s with toDrbdBitmap := drbdBmMergeLel s.toDrbdBitmap offset buffer }
  | .setAll => some { s with toDrbdBitmap := drbdBmSetAll s.toDrbdBitmap }
  | .clearAll => some { s with toDrbdBitmap := drbdBmClearAll s.toDrbdBitmap }
  | .writeRead all => drbdBmRead (drbdBmWrite s all)

/-- What the callers promise: `_drbd_bm_set_bits` and `drbd_bm_merge_lel` are called within the bitmap. -/
def Contract (s : Store) : Op → Prop
  | .setBitsBulk lo hi => lo ≤ hi ∧ hi < s.bmBits
  | .mergeLel offset buffer => offset + buffer.length ≤ s.bmWords
  | _ => True

/-- `drbd_bm_init`, over a disk that holds anything. -/
def drbdBmInit (disk : Nat → BitVec 64) : Store where
  bmBits := 0
  bmSet := 0
  word := fun _ => 0
  needWriteout := fun _ => false
  lazyWriteout := fun _ => false
  bmDevCapacity := 0
  disk := disk

/-! ## What the store is for -/

/-- A set of dirty blocks among `len` blocks. -/
structure Blocks where
  len : Nat
  dirty : Nat → Bool

/-- The length a resize gives, if it is not refused. -/
def newLen (len cSize : Nat) (env : Surroundings) : Nat :=
  let n := cSize / 32768 * 4096
  if n = 0 then 0
  else if env.bitsOnDisk.any (· < n) then len
  else if pagesOf n ≠ pagesOf len ∧ env.memory = false then len
  else n

/-- What the contract of each operation says of the blocks. -/
def Blocks.apply (m : Blocks) : Op → Blocks
  | .resize cSize setNewBits env =>
      let n := newLen m.len cSize env
      ⟨n, fun i => decide (i < n) && if i < m.len then m.dirty i else setNewBits⟩
  | .setBits lo hi => { m with dirty := fun i => decide (i < m.len) && (decide (lo ≤ i ∧ i ≤ hi) || m.dirty i) }
  | .clearBits lo hi => { m with dirty := fun i => !decide (lo ≤ i ∧ i ≤ hi) && m.dirty i }
  | .setBitsBulk lo hi => { m with dirty := fun i => decide (lo ≤ i ∧ i ≤ hi) || m.dirty i }
  | .mergeLel offset buffer =>
      { m with dirty := fun i =>
          (decide (offset ≤ i / 64) && (buffer.getD (i / 64 - offset) 0).getLsbD (i % 64)) || m.dirty i }
  | .setAll => { m with dirty := fun i => decide (i < m.len) }
  | .clearAll => { m with dirty := fun _ => false }
  | .writeRead _ => m

/-- The blocks the store stands for. -/
def Store.blocks (s : Store) : Blocks :=
  ⟨s.bmBits, fun i => decide (i < s.bmBits) && s.bit i⟩

end Drbd.Bitmap
