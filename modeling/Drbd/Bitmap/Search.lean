import Drbd.Bitmap.Lemmas.Find
import Drbd.Lib.Bytes
import Drbd.Lib.Faults

/-!
# The search, page by page

`__bm_find_next` and its copy for snapshots as they map pages and search within them. They find what
`bmFindNext` finds, and ask for no page that is not there.
-/

namespace Drbd.Bitmap.Search

open Lib

def DRBD_END_OF_BITMAP : Nat := 2 ^ 64 - 1

/-- The loop of `bm_realloc_pages` over `want` pages. The page array has `bytes` bytes, which is an `unsigned int`;
a pointer stored past its end is a fault. -/
def storePages (want : Nat) : Option Nat :=
  let bytes := unsigned 32 (8 * want : Nat)
  (List.range want).foldlM (fun stored i => if 8 * i + 8 ≤ bytes then some (stored + 1) else none) 0

/-- A bitmap with its pages, which `bm_realloc_pages` has given it. -/
structure PagedBitmap extends DrbdBitmap where
  stored : (storePages toDrbdBitmap.bmNumberOfPages).isSome = true

/-- `bm_bit_to_page_idx`; no result is a fired `BUG_ON`. -/
def bmBitToPageIdx (b : DrbdBitmap) (bitnr : Nat) : Option Nat :=
  let pageNr := (bitnr >>> 15) % 2 ^ 32
  if b.bmNumberOfPages ≤ pageNr then none else some pageNr

/-- The bits of a mapped page. -/
def bmMapPidx (b : DrbdBitmap) (idx bit : Nat) : Bool :=
  (b.word (idx * 512 + bit / 64)).getLsbD (bit % 64)

/-- The next bit that is set, or `size`. -/
def findNextBitLe (addr : Nat → Bool) (size offset : Nat) : Nat :=
  ((List.range' offset (size - offset)).find? addr).getD size

def findNextZeroBitLe (addr : Nat → Bool) (size offset : Nat) : Nat :=
  ((List.range' offset (size - offset)).find? fun i => !addr i).getD size

/-- The page loop, for a number of rounds; an error is the bit whose page is not there. -/
def findNextLoop (b : DrbdBitmap) (findZeroBit : Bool) : Nat → Nat → Option (Except Nat Nat)
  | 0, _ => none
  | rounds + 1, bmFo =>
      if bmFo < b.bmBits then
        let bitOffset := bmFo - bmFo % bitsPerPage
        match bmBitToPageIdx b bmFo with
        | none => some (.error bmFo)
        | some idx =>
            let i := if findZeroBit then findNextZeroBitLe (bmMapPidx b idx) bitsPerPage (bmFo % bitsPerPage)
              else findNextBitLe (bmMapPidx b idx) bitsPerPage (bmFo % bitsPerPage)
            if i < bitsPerPage then
              let bmFo := (bitOffset + i) % 2 ^ 64
              if b.bmBits ≤ bmFo then some (.ok DRBD_END_OF_BITMAP) else some (.ok bmFo)
            else findNextLoop b findZeroBit rounds ((bitOffset + bitsPerPage) % 2 ^ 64)
      else some (.ok DRBD_END_OF_BITMAP)

/-- What `__bm_find_next` and `__sbm_find_next` have in common. -/
def findNext (b : PagedBitmap) (bmFo : Nat) (findZeroBit : Bool) (rounds : Nat) : Option (Except Nat Nat) :=
  if b.bmBits < bmFo then some (.ok DRBD_END_OF_BITMAP) else findNextLoop b.toDrbdBitmap findZeroBit rounds bmFo

structure DrbdDevice where
  bitmap : PagedBitmap

structure DrbdSnapshotDevice where
  bitmap : PagedBitmap

/-- `__bm_find_next` -/
def DrbdDevice.bmFindNext (device : DrbdDevice) (bmFo : Nat) (findZeroBit : Bool) (rounds : Nat) :
    Option (Except Nat Nat) :=
  findNext device.bitmap bmFo findZeroBit rounds

/-- `__sbm_find_next` -/
def DrbdSnapshotDevice.sbmFindNext (sdev : DrbdSnapshotDevice) (bmFo : Nat) (findZeroBit : Bool) (rounds : Nat) :
    Option (Except Nat Nat) :=
  findNext sdev.bitmap bmFo findZeroBit rounds

variable {b : DrbdBitmap} {z : Bool} {bmFo rounds want : Nat}

/-! ## The pages there can be -/

/-- The page array has to be addressed by an `unsigned int`. -/
theorem storePages_isSome_iff : (storePages want).isSome = true ↔ want < 2 ^ 29 := by
  unfold storePages
  dsimp only
  have hbytes : want < 2 ^ 29 → unsigned 32 (8 * want : Nat) = 8 * want := fun h => by
    unfold unsigned
    omega
  have hwrap : ¬ want < 2 ^ 29 → unsigned 32 (8 * want : Nat) < 8 * want := fun h => by
    unfold unsigned
    omega
  generalize unsigned 32 (8 * want : Nat) = bytes at hbytes hwrap
  rcases foldlM_checked (I := fun _ => True) (P := fun i => 8 * i + 8 ≤ bytes)
    (fun stored i _ hi => ⟨stored + 1, if_pos hi, trivial⟩) (fun stored i _ hi => if_neg hi) (List.range want)
    (a := 0) trivial with ⟨hall, n, hsome, _⟩ | ⟨⟨i, hi, hpast⟩, hnone⟩
  · rw [hsome]
    refine ⟨fun _ => ?_, fun _ => rfl⟩
    by_contra hlarge
    have := hwrap hlarge
    have := hall (want - 1) (List.mem_range.2 (by omega))
    omega
  · rw [hnone]
    refine ⟨fun h => (by cases h), fun h => ?_⟩
    have := hbytes h
    have := List.mem_range.1 hi
    omega

theorem PagedBitmap.bmBits_lt (b : PagedBitmap) : b.bmBits < 2 ^ 44 := by
  have hpages := storePages_isSome_iff.1 b.stored
  unfold DrbdBitmap.bmNumberOfPages DrbdBitmap.bmWords at hpages
  omega

theorem bmBitToPageIdx_eq (hb : b.bmBits < 2 ^ 44) (h : bmFo < b.bmBits) :
    bmBitToPageIdx b bmFo = some (bmFo / bitsPerPage) := by
  unfold bmBitToPageIdx DrbdBitmap.bmNumberOfPages DrbdBitmap.bmWords
  simp only [Nat.shiftRight_eq_div_pow, bitsPerPage]
  rw [if_neg (by omega), Nat.mod_eq_of_lt (by omega)]

/-! ## Within a page -/

theorem bmMapPidx_eq (b : DrbdBitmap) (idx : Nat) {i : Nat} : bmMapPidx b idx i = b.bit (bitsPerPage * idx + i) := by
  unfold bmMapPidx DrbdBitmap.bit bitsPerPage
  rw [show (2 ^ 15 * idx + i) / 64 = idx * 512 + i / 64 by omega, show (2 ^ 15 * idx + i) % 64 = i % 64 by omega]

/-- Both searches of a page, counted from the start of the bitmap. -/
theorem findInPage_eq (b : DrbdBitmap) (z : Bool) (bmFo : Nat) :
    ((List.range' (bmFo % bitsPerPage) (bitsPerPage - bmFo % bitsPerPage)).find? fun i =>
      bmMapPidx b (bmFo / bitsPerPage) i != z).map (bmFo - bmFo % bitsPerPage + ·) = findInPage b bmFo z := by
  have hdiv := Nat.div_add_mod bmFo bitsPerPage
  have hstart : bmFo - bmFo % bitsPerPage = bitsPerPage * (bmFo / bitsPerPage) := by omega
  have hrange : List.range' bmFo (bitsPerPage - bmFo % bitsPerPage) =
      (List.range' (bmFo % bitsPerPage) (bitsPerPage - bmFo % bitsPerPage)).map
        (bitsPerPage * (bmFo / bitsPerPage) + ·) := by
    rw [List.map_add_range', hdiv]
  unfold findInPage
  rw [hrange, List.find?_map, hstart]
  congr 2
  funext i
  rw [Function.comp_apply, bmMapPidx_eq]

/-- The position in the page, or its end. -/
theorem pageSearch_eq (b : DrbdBitmap) (z : Bool) (idx offset : Nat) :
    (if z then findNextZeroBitLe (bmMapPidx b idx) bitsPerPage offset
      else findNextBitLe (bmMapPidx b idx) bitsPerPage offset) =
    ((List.range' offset (bitsPerPage - offset)).find? fun i => bmMapPidx b idx i != z).getD bitsPerPage := by
  cases z with
  | true =>
      rw [if_pos rfl]
      unfold findNextZeroBitLe
      simp only [Bool.bne_true]
  | false =>
      rw [if_neg Bool.false_ne_true]
      unfold findNextBitLe
      simp only [Bool.bne_false]

/-! ## The loop -/

/-- With a round for each page left and one more, the loop ends and has found what there is. -/
theorem findNextLoop_eq (hb : b.bmBits < 2 ^ 44) (h : b.bmBits / bitsPerPage < bmFo / bitsPerPage + rounds) :
    findNextLoop b z (rounds + 1) bmFo =
      some (.ok ((bmFindNextLoop b z rounds bmFo).getD DRBD_END_OF_BITMAP)) := by
  induction rounds generalizing bmFo with
  | zero =>
      have hge : ¬ bmFo < b.bmBits := fun hlt => by
        have := Nat.div_le_div_right (c := bitsPerPage) (Nat.le_of_lt hlt)
        omega
      rw [findNextLoop, if_neg hge]
      rfl
  | succ rounds ih =>
      rw [findNextLoop, bmFindNextLoop]
      by_cases hlt : bmFo < b.bmBits
      · rw [if_pos hlt, if_pos hlt, bmBitToPageIdx_eq hb hlt]
        dsimp only
        rw [pageSearch_eq, ← findInPage_eq]
        have hmod : bmFo % bitsPerPage < bitsPerPage := Nat.mod_lt _ (by decide)
        cases hfind : (List.range' (bmFo % bitsPerPage) (bitsPerPage - bmFo % bitsPerPage)).find? fun i =>
            bmMapPidx b (bmFo / bitsPerPage) i != z with
        | some i =>
            have hi := List.mem_range'_1.1 (List.mem_of_find?_eq_some hfind)
            have hsmall : bmFo - bmFo % bitsPerPage + i < 2 ^ 64 := by
              have : bitsPerPage = 2 ^ 15 := rfl
              omega
            rw [Option.getD_some, Option.map_some, if_pos (by omega)]
            dsimp only
            rw [Nat.mod_eq_of_lt hsmall]
            split <;> rfl
        | none =>
            have hnext : bmFo - bmFo % bitsPerPage + bitsPerPage < 2 ^ 64 := by
              have : bitsPerPage = 2 ^ 15 := rfl
              omega
            rw [Option.getD_none, Option.map_none, if_neg (Nat.lt_irrefl _)]
            dsimp only
            rw [Nat.mod_eq_of_lt hnext]
            refine ih ?_
            simp only [bitsPerPage] at h ⊢
            omega
      · rw [if_neg hlt, if_neg hlt]
        rfl

/-- Enough rounds give the result of the search over the bits. -/
theorem findNext_eq (b : PagedBitmap) (bmFo : Nat) (z : Bool) (h : b.bmBits / bitsPerPage + 1 < rounds) :
    findNext b bmFo z rounds = some (.ok ((Bitmap.bmFindNext b.toDrbdBitmap bmFo z).getD DRBD_END_OF_BITMAP)) := by
  unfold findNext Bitmap.bmFindNext
  by_cases hfar : b.bmBits < bmFo
  · rw [if_pos hfar, if_pos hfar]
    rfl
  · rw [if_neg hfar, if_neg hfar]
    obtain ⟨rounds, rfl⟩ := Nat.exists_eq_succ_of_ne_zero (Nat.ne_zero_of_lt h)
    rw [findNextLoop_eq b.bmBits_lt (Nat.lt_of_lt_of_le (Nat.lt_of_succ_lt_succ h) (Nat.le_add_left _ _))]
    rw [bmFindNextLoop_pages (b.bmBits / bitsPerPage + 1) (Nat.lt_of_succ_lt_succ h) (Nat.lt_succ_self _)]

/-- The search from `bmFo` on is exact: the least bit that is not `z`, or the end of the bitmap. -/
def Exact (b : DrbdBitmap) (z : Bool) (bmFo r : Nat) : Prop :=
  (r < b.bmBits ∧ IsNext b z bmFo b.bmBits r) ∨
    (r = DRBD_END_OF_BITMAP ∧ ∀ j, bmFo ≤ j → j < b.bmBits → b.bit j = z)

theorem findNext_exact (b : PagedBitmap) (bmFo : Nat) (z : Bool) :
    ∃ r, Exact b.toDrbdBitmap z bmFo r ∧
      ∀ rounds, b.bmBits / bitsPerPage + 1 < rounds → findNext b bmFo z rounds = some (.ok r) := by
  refine ⟨_, ?_, fun rounds hrounds => findNext_eq b bmFo z hrounds⟩
  cases hfind : Bitmap.bmFindNext b.toDrbdBitmap bmFo z with
  | some i =>
      have hnext := bmFindNext_some hfind
      exact .inl ⟨hnext.lt, hnext⟩
  | none => exact .inr ⟨rfl, bmFindNext_none hfind⟩

/-- Both searches end, find the least matching bit below `bm_bits` if there is one, and map no page that is not
there. -/
theorem bm_find_next_exact (device : DrbdDevice) (sdev : DrbdSnapshotDevice) (bmFo : Nat) (findZeroBit : Bool) :
    (∃ r, Exact device.bitmap.toDrbdBitmap findZeroBit bmFo r ∧
      ∀ rounds, device.bitmap.bmBits / bitsPerPage + 1 < rounds →
        device.bmFindNext bmFo findZeroBit rounds = some (.ok r)) ∧
    ∃ r, Exact sdev.bitmap.toDrbdBitmap findZeroBit bmFo r ∧
      ∀ rounds, sdev.bitmap.bmBits / bitsPerPage + 1 < rounds →
        sdev.sbmFindNext bmFo findZeroBit rounds = some (.ok r) :=
  ⟨findNext_exact device.bitmap bmFo findZeroBit, findNext_exact sdev.bitmap bmFo findZeroBit⟩

/-- A bitmap of one page, with its last bit set. -/
def onePage : PagedBitmap where
  bmBits := 32768
  bmSet := 1
  word := fun w => if w = 511 then BitVec.twoPow 64 63 else 0
  needWriteout := fun _ => false
  lazyWriteout := fun _ => false
  stored := storePages_isSome_iff.2 (Nat.lt_of_le_of_lt (Nat.le_refl 1) (Nat.one_lt_two_pow (Nat.succ_ne_zero 28)))

theorem bm_find_next_exact_one_page :
    (DrbdDevice.mk onePage).bmFindNext 0 false 3 = some (.ok 32767) ∧
      (DrbdSnapshotDevice.mk onePage).sbmFindNext 0 false 3 = some (.ok 32767) := by
  have hlast : ∀ r, Exact onePage.toDrbdBitmap false 0 r → r = 32767 := by
    rintro r (⟨hlt, hnext⟩ | ⟨-, hnone⟩)
    · have hbit : ((if r / 64 = 511 then BitVec.twoPow 64 63 else 0 : BitVec 64).getLsbD (r % 64)) ≠ false := hnext.hit
      split at hbit
      · simp at hbit
        omega
      · simp at hbit
    · have hbit := hnone 32767 (by decide) (by decide)
      cases hbit
  obtain ⟨⟨r, hr, hrounds⟩, r', hr', hrounds'⟩ := bm_find_next_exact ⟨onePage⟩ ⟨onePage⟩ 0 false
  obtain rfl := hlast r hr
  obtain rfl := hlast r' hr'
  exact ⟨hrounds 3 (by decide), hrounds' 3 (by decide)⟩

end Drbd.Bitmap.Search
