import Drbd.Lib.Bytes
import Mathlib.Data.BitVec
import Mathlib.Logic.Function.Basic

/-!
# The in-core bitmap of drbd_bitmap.c

One bit for each 4 kB block, stored in little-endian words of 64 bits and pages of 32768 bits. Each
page carries the two change flags that decide whether it has to be written out.
-/

namespace Drbd.Bitmap

open Lib

/-- `BITS_PER_LONG`. -/
def bitsPerLong : Nat := 64

/-- `BITS_PER_PAGE`. -/
def bitsPerPage : Nat := 2 ^ 15

/-- `struct drbd_bitmap`, less its locks; the page flags are `BM_PAGE_NEED_WRITEOUT` and
`BM_PAGE_LAZY_WRITEOUT`. -/
structure DrbdBitmap where
  bmBits : Nat
  bmSet : Nat
  word : Nat → BitVec 64
  needWriteout : Nat → Bool
  lazyWriteout : Nat → Bool

namespace DrbdBitmap

/-- The bit of one block. -/
def bit (b : DrbdBitmap) (i : Nat) : Bool :=
  (b.word (i / 64)).getLsbD (i % 64)

/-- `bm_words` of a 64-bit machine. -/
def bmWords (b : DrbdBitmap) : Nat :=
  (b.bmBits + 63) / 64

/-- `bm_test_page_unchanged`. -/
def testPageUnchanged (b : DrbdBitmap) (page : Nat) : Bool :=
  !b.needWriteout page && !b.lazyWriteout page

/-- `bm_set_page_need_writeout`. -/
def setPageNeedWriteout (b : DrbdBitmap) (page : Nat) : DrbdBitmap :=
  { b with needWriteout := Function.update b.needWriteout page true }

/-- `bm_set_page_lazy_writeout`. -/
def setPageLazyWriteout (b : DrbdBitmap) (page : Nat) : DrbdBitmap :=
  { b with lazyWriteout := Function.update b.lazyWriteout page true }

/-- `bm_set_page_unchanged`. -/
def setPageUnchanged (b : DrbdBitmap) (page : Nat) : DrbdBitmap :=
  { b with
    needWriteout := Function.update b.needWriteout page false
    lazyWriteout := Function.update b.lazyWriteout page false }

def setWord (b : DrbdBitmap) (w : Nat) (x : BitVec 64) : DrbdBitmap :=
  { b with word := Function.update b.word w x }

/-- `__set_bit_le` or `__clear_bit_le`, by the value. -/
def putBit (b : DrbdBitmap) (i : Nat) (val : Bool) : DrbdBitmap :=
  let w := b.word (i / 64)
  let m := BitVec.twoPow 64 (i % 64)
  b.setWord (i / 64) (if val then w ||| m else w &&& ~~~m)

end DrbdBitmap

/-! ## Changing a range of bits -/

/-- The local variables of `__bm_change_bits_to`, both counts being of type `int`. -/
structure ChangeLoop where
  b : DrbdBitmap
  lastPage : Option Nat
  c : Int
  changedTotal : Int

/-- What the loop does when it leaves a page: mark it if some bit flipped, and account. The flips of one page
fit in `c`, those of all pages need not fit in the total. -/
def ChangeLoop.leavePage (l : ChangeLoop) : ChangeLoop :=
  match l.lastPage with
  | none => { l with changedTotal := signed 32 (l.changedTotal + l.c), c := 0 }
  | some page =>
      let b := if l.c < 0 then l.b.setPageLazyWriteout page
        else if l.c > 0 then l.b.setPageNeedWriteout page else l.b
      { l with b := b, changedTotal := signed 32 (l.changedTotal + l.c), c := 0 }

/-- One round of the loop. -/
def ChangeLoop.change (val : Bool) (l : ChangeLoop) (bitnr : Nat) : ChangeLoop :=
  let page := bitnr / bitsPerPage
  let l := if l.lastPage = some page then l else { l.leavePage with lastPage := some page }
  let old := l.b.bit bitnr
  let c := if val then (if old then l.c else l.c + 1) else (if old then l.c - 1 else l.c)
  { l with b := l.b.putBit bitnr val, c := c }

/-- `bm_set += c`, where `c` is an `int`: below zero the sum wraps. -/
def addToCount (bmSet : Nat) (c : Int) : Nat :=
  if 0 ≤ bmSet + c then (bmSet + c).toNat else unsigned 64 (bmSet + c)

/-- `bm_change_bits_to`: bits `s` to `e` inclusive, cut to the bitmap; gives the signed number of bits
changed. A bitmap of no bits has no pages and is left alone. -/
def bmChangeBitsTo (b : DrbdBitmap) (s e : Nat) (val : Bool) : DrbdBitmap × Int :=
  if b.bmBits = 0 then (b, 0)
  else
    let e := if b.bmBits ≤ e then b.bmBits - 1 else e
    let l := ((List.range' s (e + 1 - s)).foldl (ChangeLoop.change val) ⟨b, none, 0, 0⟩).leavePage
    ({ l.b with bmSet := addToCount l.b.bmSet l.changedTotal }, l.changedTotal)

/-- `drbd_bm_set_bits`. -/
def drbdBmSetBits (b : DrbdBitmap) (s e : Nat) : DrbdBitmap × Int :=
  bmChangeBitsTo b s e true

/-- `drbd_bm_clear_bits`. -/
def drbdBmClearBits (b : DrbdBitmap) (s e : Nat) : DrbdBitmap × Int :=
  let (b, c) := bmChangeBitsTo b s e false
  (b, -c)

/-! ## Whole words -/

def hweightLong (w : BitVec 64) : Nat :=
  (List.range 64).countP w.getLsbD

/-- One word of the loop of `bm_set_full_words_within_one_page`. -/
def fillWord (page : Nat) : DrbdBitmap × Nat → Nat → DrbdBitmap × Nat
  | (b, changed), i =>
      let w := page * 512 + i
      let bits := hweightLong (b.word w)
      (b.setWord w (BitVec.allOnes 64), changed + (64 - bits))

def bmSetFullWordsWithinOnePage (b : DrbdBitmap) (page first last : Nat) : DrbdBitmap :=
  let (b, changed) := (List.range' first (last - first)).foldl (fillWord page) (b, 0)
  if changed = 0 then b
  else { b.setPageLazyWriteout page with bmSet := b.bmSet + changed }

/-- One page of the loop of `_drbd_bm_set_bits`, with the first word to set there. -/
def fillPage : DrbdBitmap × Nat → Nat → DrbdBitmap × Nat
  | (b, firstWord), page => (bmSetFullWordsWithinOnePage b page firstWord 512, 0)

/-- `_drbd_bm_set_bits`: single bits up to the next word, full words page by page, single bits. -/
def drbdBmSetBitsBulk (b : DrbdBitmap) (s e : Nat) : DrbdBitmap :=
  if e - s ≤ 3 * bitsPerLong then (bmChangeBitsTo b s e true).1
  else
    let sl := (s + 63) / 64 * 64
    let el := (e + 1) / 64 * 64
    let b := if sl = 0 then b else (bmChangeBitsTo b s (sl - 1) true).1
    let firstPage := sl / bitsPerPage
    let lastPage := el / bitsPerPage
    let (b, firstWord) := (List.range' firstPage (lastPage - firstPage)).foldl fillPage
      (b, sl / 64 % 512)
    let lastWord := el / 64 % 512
    let b := if lastWord = 0 then b else bmSetFullWordsWithinOnePage b lastPage firstWord lastWord
    if el ≤ e then (bmChangeBitsTo b el e true).1 else b

/-- `bm_clear_surplus`: the bits of the last word past the end; gives the number of bits cleared. -/
def bmClearSurplus (b : DrbdBitmap) : DrbdBitmap × Nat :=
  let mask : BitVec 64 := BitVec.ofNat 64 (2 ^ (b.bmBits % 64) - 1)
  if mask = 0 then (b, 0)
  else
    let w := b.bmBits / 64
    (b.setWord w (b.word w &&& mask), hweightLong (b.word w &&& ~~~mask))

/-- One word of the loop of `drbd_bm_merge_lel`. -/
def mergeWord (b : DrbdBitmap) (offset : Nat) (lel : BitVec 64) : DrbdBitmap :=
  let word := b.word offset ||| lel
  { b.setWord offset word with
    bmSet := b.bmSet + (hweightLong word - hweightLong (b.word offset))
    needWriteout := Function.update b.needWriteout (offset / 512) true }

def mergeWords (b : DrbdBitmap) (offset : Nat) : List (BitVec 64) → DrbdBitmap
  | [] => b
  | lel :: rest => mergeWords (mergeWord b offset lel) (offset + 1) rest

def drbdBmMergeLel (b : DrbdBitmap) (offset : Nat) (buffer : List (BitVec 64)) : DrbdBitmap :=
  if buffer = [] then b
  else
    let b := mergeWords b offset buffer
    if offset + buffer.length = b.bmWords then
      let (b, cleared) := bmClearSurplus b
      { b with bmSet := b.bmSet - cleared }
    else b

/-- `drbd_bm_get_lel`. -/
def drbdBmGetLel (b : DrbdBitmap) (offset number : Nat) : List (BitVec 64) :=
  (List.range' offset number).map b.word

/-! ## Whole pages -/

def DrbdBitmap.bmNumberOfPages (b : DrbdBitmap) : Nat :=
  (b.bmWords + 511) / 512

/-- One page of the loop of `bm_memset_unchanged`, for the value 0. -/
def clearIfUnchanged (b : DrbdBitmap) (page : Nat) : DrbdBitmap :=
  if b.testPageUnchanged page then
    ({ b with word := fun w => if w / 512 = page ∧ w < b.bmWords then 0 else b.word w }).setPageNeedWriteout page
  else b

/-- The locked part of `drbd_bm_clear_unchanged`. -/
def bmMemsetUnchanged (b : DrbdBitmap) : DrbdBitmap :=
  (List.range b.bmNumberOfPages).foldl clearIfUnchanged b

/-- `drbd_bm_count_bits`; a bit in a page past the last one is a `BUG_ON`. -/
def drbdBmCountBits (b : DrbdBitmap) (s e : Nat) : Option Nat :=
  if s ≤ e ∧ b.bmNumberOfPages ≤ e / bitsPerPage then none
  else some ((List.range' s (e + 1 - s)).countP fun i => decide (i < b.bmBits) && b.bit i)

/-- A number kept in an `int` and stored in an `unsigned long`. -/
def ulongOfInt (c : Nat) : Nat :=
  ((BitVec.ofNat 32 c).signExtend 64).toNat

/-- `drbd_bm_clear_unchanged`. A bitmap of no bits has no pages and is left alone. -/
def drbdBmClearUnchanged (b : DrbdBitmap) : Option DrbdBitmap :=
  if b.bmBits = 0 then some b
  else
    let b := bmMemsetUnchanged b
    (drbdBmCountBits b 0 b.bmBits).map fun c => { b with bmSet := ulongOfInt c }

/-! ## Reading -/

/-- The answers of `drbd_bm_test_bit`. -/
inductive TestBit
  | isSet
  | isClear
  | outOfBounds
deriving DecidableEq, Repr

/-- `drbd_bm_test_bit`: the first bit out of bounds gives -1, any later one 0. -/
def drbdBmTestBit (b : DrbdBitmap) (bitnr : Nat) : TestBit :=
  if bitnr < b.bmBits then (if b.bit bitnr then .isSet else .isClear)
  else if bitnr = b.bmBits then .outOfBounds
  else .isClear

/-- `find_next_bit_le` or `find_next_zero_bit_le` on the page of `bmFo`, from `bmFo` to the page's end. -/
def findInPage (b : DrbdBitmap) (bmFo : Nat) (findZeroBit : Bool) : Option Nat :=
  (List.range' bmFo (bitsPerPage - bmFo % bitsPerPage)).find? (fun i => b.bit i != findZeroBit)

/-- The page loop of `__bm_find_next`, with the number of pages it may still visit. -/
def bmFindNextLoop (b : DrbdBitmap) (findZeroBit : Bool) : Nat → Nat → Option Nat
  | 0, _ => none
  | pages + 1, bmFo =>
      if bmFo < b.bmBits then
        match findInPage b bmFo findZeroBit with
        | some i => if b.bmBits ≤ i then none else some i
        | none => bmFindNextLoop b findZeroBit pages (bmFo - bmFo % bitsPerPage + bitsPerPage)
      else none

/-- `__bm_find_next`; `none` is `DRBD_END_OF_BITMAP`. -/
def bmFindNext (b : DrbdBitmap) (bmFo : Nat) (findZeroBit : Bool) : Option Nat :=
  if b.bmBits < bmFo then none
  else bmFindNextLoop b findZeroBit (b.bmBits / bitsPerPage + 1) bmFo

end Drbd.Bitmap
