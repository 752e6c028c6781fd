import Drbd.Bitmap.Lemmas.Find
import Drbd.Bitmap.Lemmas.Invariant
import Drbd.ResyncRequest.Defs

/-!
# Requests and resync extents

`make_resync_request` stops merging at the border of an extent. `make_sync_request_send` does not: it
cuts a run of dirty bits into pieces of the maximal size, counted from where the run begins.
-/

namespace Drbd.ResyncRequest

open Bitmap

variable {n capacity maxBioSize : Nat} {b : DrbdBitmap} {bit last : Nat}

/-! ## Bits and sectors -/

theorem bmBitToSect_eq (bit : Nat) : bmBitToSect bit = 8 * bit := by
  rw [bmBitToSect, Nat.shiftLeft_eq]
  omega

theorem bmSectToExt_eq (sector : Nat) : bmSectToExt sector = sector / 32768 := by
  rw [bmSectToExt, Nat.shiftRight_eq_div_pow]

/-- The request for the bits from `bit` to `last`. -/
def requestOf (capacity bit last : Nat) : Request :=
  ⟨bmBitToSect bit, clip capacity (bmBitToSect bit) (BM_BLOCK_SIZE * (last - bit + 1))⟩

theorem clip_sectors (hle : bit ≤ last) (hin : 8 * last < capacity) :
    8 * last < 8 * bit + (requestOf capacity bit last).size >>> 9 ∧
      8 * bit + (requestOf capacity bit last).size >>> 9 ≤ 8 * last + 8 := by
  simp only [requestOf, clip, BM_BLOCK_SIZE, bmBitToSect_eq, Nat.shiftRight_eq_div_pow, Nat.shiftLeft_eq]
  split <;> omega

/-- A request is in one extent if and only if its first and its last bit are. -/
theorem oneExtent_iff (hle : bit ≤ last) (hin : 8 * last < capacity) :
    (requestOf capacity bit last).OneExtent ↔ last / 4096 = bit / 4096 := by
  obtain ⟨hlow, hhigh⟩ := clip_sectors hle hin
  have hsector : (requestOf capacity bit last).sector = 8 * bit := bmBitToSect_eq bit
  unfold Request.OneExtent
  rw [hsector]
  simp only [bmSectToExt_eq]
  constructor
  · intro h
    have := h (8 * last) (by omega) hlow
    omega
  · intro h s hs hlt
    omega

theorem isSet_iff {i : Nat} : drbdBmTestBit b i = .isSet ↔ i < b.bmBits ∧ b.bit i = true := by
  unfold drbdBmTestBit
  split
  · rename_i h
    cases b.bit i <;> simp [h]
  · rename_i h
    split <;> simp [h]

theorem inside_capacity {b : BitmapWith n} (hcap : n ≤ (capacity + 7) / 8) (h : bit < b.bmBits) :
    8 * bit < capacity := by
  have := b.bits
  omega

/-- What a search has found and the test has not seen cleared. -/
theorem isSet_of_find {found tested : BitmapWith n} {start : Nat}
    (hfind : bmFindNext found.toDrbdBitmap start false = some bit)
    (htest : drbdBmTestBit tested.toDrbdBitmap bit ≠ .isClear) :
    IsNext found.toDrbdBitmap false start n bit ∧ tested.bit bit = true := by
  have hnext := bmFindNext_some hfind
  rw [found.bits] at hnext
  refine ⟨hnext, ?_⟩
  have hlt : bit < tested.bmBits := by
    rw [tested.bits]
    exact hnext.lt
  unfold drbdBmTestBit at htest
  rw [if_pos hlt] at htest
  by_contra hclear
  exact htest (if_neg hclear)

/-! ## `make_resync_request` -/

theorem mergeResync_spec (b : DrbdBitmap) (maxBioSize sector n bit size align : Nat)
    (hbit : bit < b.bmBits) :
    ∃ last, mergeResync b maxBioSize sector n bit size align = (last, size + BM_BLOCK_SIZE * (last - bit)) ∧
      bit ≤ last ∧ last < b.bmBits ∧ last / 4096 = bit / 4096 := by
  have hstop : ∃ last, (bit, size) = (last, size + BM_BLOCK_SIZE * (last - bit)) ∧ bit ≤ last ∧
      last < b.bmBits ∧ last / 4096 = bit / 4096 :=
    ⟨bit, by simp, le_refl _, hbit, rfl⟩
  induction n generalizing bit size align with
  | zero => exact hstop
  | succ n ih =>
      unfold mergeResync
      split
      · exact hstop
      split
      · exact hstop
      split
      · exact hstop
      rename_i hborder
      split
      · exact hstop
      rename_i hset
      obtain ⟨hin, _⟩ := isSet_iff.1 (not_not.1 hset)
      rw [BM_BLOCKS_PER_BM_EXT_MASK, Nat.and_two_pow_sub_one_eq_mod] at hborder
      obtain ⟨last, heq, hle, hlt, hext⟩ := ih (bit + 1) (size + BM_BLOCK_SIZE)
        (if BM_BLOCK_SIZE <<< align ≤ size + BM_BLOCK_SIZE then align + 1 else align) hin
        ⟨bit + 1, by simp, le_refl _, hin, rfl⟩
      refine ⟨last, ?_, by omega, hlt, by omega⟩
      dsimp only
      rw [heq]
      simp only [BM_BLOCK_SIZE]
      congr 1
      omega

/-- Whatever the bitmap looks like at each moment, the requests stay in the extent they lock. -/
theorem makeResyncRequest_oneExtent (hcap : n ≤ (capacity + 7) / 8) (maxBioSize number : Nat) (again : Bool)
    (rounds : List (ResyncRound n)) (fo i : Nat) :
    ∀ r ∈ (makeResyncRequest capacity maxBioSize number again rounds fo i).requests, r.OneExtent := by
  induction rounds generalizing again fo i with
  | nil => exact fun _ h => nomatch h
  | cons r rounds ih =>
      unfold makeResyncRequest
      split
      · exact fun _ h => nomatch h
      split
      · exact fun _ h => nomatch h
      split
      · exact fun _ h => nomatch h
      rename_i bit hfind
      have hnext := bmFindNext_some hfind
      dsimp only
      split
      · exact fun _ h => nomatch h
      split
      · exact ih true _ _
      · have hbit : bit < r.tested.bmBits := by
          have := hnext.lt
          rw [r.found.bits] at this
          rw [r.tested.bits]
          exact this
        obtain ⟨last, hmerge, hle, hlt, hext⟩ := mergeResync_spec r.tested.toDrbdBitmap maxBioSize
          (bmBitToSect bit) (number - i) bit BM_BLOCK_SIZE 1 hbit
        rw [hmerge]
        dsimp only
        split
        · intro req hreq
          rcases List.mem_cons.1 hreq with rfl | hreq
          · have hreq : (⟨bmBitToSect bit, clip capacity (bmBitToSect bit)
                (BM_BLOCK_SIZE + BM_BLOCK_SIZE * (last - bit))⟩ : Request) = requestOf capacity bit last := by
              rw [requestOf, Nat.mul_add, Nat.mul_one, Nat.add_comm]
            rw [hreq]
            exact (oneExtent_iff hle (inside_capacity hcap hlt)).2 hext
          · exact ih false _ _ req hreq
        · exact fun _ h => nomatch h
        · exact fun _ h => nomatch h

/-! ## `make_sync_request_send` -/

/-- The most bits of one request. -/
def mostBits (maxBioSize : Nat) : Nat := max 1 (maxBioSize / BM_BLOCK_SIZE)

/-- The bits from `a` to `m` are dirty, and the one before `a` is not. -/
structure DirtyRun (b : DrbdBitmap) (a m : Nat) : Prop where
  le : a ≤ m
  lt : m < b.bmBits
  dirty : ∀ i, a ≤ i → i ≤ m → b.bit i = true
  first : a = 0 ∨ b.bit (a - 1) = false

/-- Two runs with a bit in common begin alike. -/
theorem DirtyRun.unique {a a' m m' : Nat} (h : DirtyRun b a m) (h' : DirtyRun b a' m') (ha : a ≤ m')
    (ha' : a' ≤ m) : a = a' := by
  rcases Nat.lt_trichotomy a a' with hlt | heq | hlt
  · rcases h'.first with hzero | hclear
    · omega
    · rw [h.dirty (a' - 1) (by omega) (by omega)] at hclear
      cases hclear
  · exact heq
  · rcases h.first with hzero | hclear
    · omega
    · rw [h'.dirty (a - 1) (by omega) (by omega)] at hclear
      cases hclear

/-- A run that ends inside another begins where that one does. -/
theorem DirtyRun.same {a a' m m' : Nat} (h : DirtyRun b a m) (h' : DirtyRun b a' m') (hle : m' ≤ m)
    (hdirty : ∀ i, m' ≤ i → i ≤ m → b.bit i = true) : a = a' := by
  refine h.unique ⟨by have := h'.le; omega, h.lt, fun i h1 h2 => ?_, h'.first⟩ h.le (by have := h'.le; omega)
  by_cases hlow : i ≤ m'
  · exact h'.dirty i h1 hlow
  · exact hdirty i (by omega) h2

/-- A request is one piece of a run. -/
structure Piece (b : DrbdBitmap) (k bit last : Nat) : Prop where
  run : ∃ a, DirtyRun b a bit ∧ k ∣ bit - a
  le : bit ≤ last
  lt : last < b.bmBits
  dirty : ∀ i, bit ≤ i → i ≤ last → b.bit i = true
  short : last < bit + k
  full : last + 1 = bit + k ∨ ¬ (last + 1 < b.bmBits ∧ b.bit (last + 1) = true)

theorem mergeSend_spec (b : DrbdBitmap) (maxBioSize fuel bit n : Nat) (hbit : bit < b.bmBits)
    (hset : b.bit bit = true) (hn : n + 1 ≤ mostBits maxBioSize) (hfuel : b.bmBits - bit ≤ fuel) :
    ∃ last, mergeSend b maxBioSize fuel bit (BM_BLOCK_SIZE * (n + 1))
        = (last, BM_BLOCK_SIZE * (last - bit + n + 1)) ∧
      bit ≤ last ∧ last < b.bmBits ∧ (∀ i, bit ≤ i → i ≤ last → b.bit i = true) ∧
      last - bit + n + 1 ≤ mostBits maxBioSize ∧
      (last - bit + n + 1 = mostBits maxBioSize ∨ ¬ (last + 1 < b.bmBits ∧ b.bit (last + 1) = true)) := by
  induction fuel generalizing bit n with
  | zero => omega
  | succ fuel ih =>
      have hone : ∀ i, bit ≤ i → i ≤ bit → b.bit i = true := fun i h1 h2 => by
        rw [show i = bit by omega]
        exact hset
      unfold mergeSend
      split
      · rename_i hmax
        refine ⟨bit, by simp, le_refl _, hbit, hone, by omega, .inl ?_⟩
        simp only [mostBits, BM_BLOCK_SIZE] at hmax hn ⊢
        omega
      rename_i hmax
      split
      · rename_i htest
        exact ⟨bit, by simp, le_refl _, hbit, hone, by omega, .inr fun h => htest (isSet_iff.2 h)⟩
      rename_i htest
      obtain ⟨hin, hnext⟩ := isSet_iff.1 (not_not.1 htest)
      obtain ⟨last, heq, hle, hlt, hall, hmost, hend⟩ := ih (bit + 1) (n + 1) hin hnext
        (by simp only [mostBits, BM_BLOCK_SIZE] at hmax hn ⊢; omega) (by omega)
      refine ⟨last, ?_, by omega, hlt, fun i h1 h2 => ?_, by omega, ?_⟩
      · rw [show BM_BLOCK_SIZE * (n + 1) + BM_BLOCK_SIZE = BM_BLOCK_SIZE * (n + 1 + 1) from rfl, heq,
          show last - (bit + 1) + (n + 1) + 1 = last - bit + n + 1 by omega]
      · rcases Nat.eq_or_lt_of_le h1 with rfl | h1
        · exact hset
        · exact hall i h1 h2
      · rcases hend with hend | hend
        · exact .inl (by omega)
        · exact .inr hend

/-- Where a search may start so that what it finds begins a piece. -/
def Cut (b : DrbdBitmap) (k start : Nat) : Prop :=
  start = 0 ∨ ¬ (start < b.bmBits ∧ b.bit start = true) ∨ ∃ a, DirtyRun b a start ∧ k ∣ start - a

theorem Cut.found {k start : Nat} (h : Cut b k start) (hnext : IsNext b false start b.bmBits bit) :
    ∃ a, DirtyRun b a bit ∧ k ∣ bit - a := by
  have hset : b.bit bit = true := by simpa using hnext.hit
  have hone : ∀ i, bit ≤ i → i ≤ bit → b.bit i = true := fun i h1 h2 => by
    rw [show i = bit by omega]
    exact hset
  have hge := hnext.ge
  by_cases heq : bit = start
  · subst heq
    rcases h with hzero | hclear | hrun
    · exact ⟨bit, ⟨le_refl _, hnext.lt, hone, .inl hzero⟩, by simp⟩
    · exact absurd ⟨hnext.lt, hset⟩ hclear
    · exact hrun
  · refine ⟨bit, ⟨le_refl _, hnext.lt, hone, .inr (hnext.least (bit - 1) (by omega) (by omega))⟩, by simp⟩

theorem Piece.cut {k : Nat} (h : Piece b k bit last) : Cut b k (last + 1) := by
  have hle := h.le
  rcases h.full with hfull | hend
  · by_cases hmore : last + 1 < b.bmBits ∧ b.bit (last + 1) = true
    · obtain ⟨a, hrun, hdvd⟩ := h.run
      have hrunLe := hrun.le
      refine .inr (.inr ⟨a, ⟨by omega, hmore.1, fun i h1 h2 => ?_, hrun.first⟩, ?_⟩)
      · by_cases hlow : i ≤ bit
        · exact hrun.dirty i h1 hlow
        · rcases Nat.eq_or_lt_of_le h2 with rfl | h2
          · exact hmore.2
          · exact h.dirty i (by omega) (by omega)
      · rw [show last + 1 - a = bit - a + k by omega]
        exact Nat.dvd_add hdvd (Nat.dvd_refl k)
    · exact .inr (.inl hmore)
  · exact .inr (.inl hend)

/-- The bitmap is the same in every search and every test. -/
def Unchanging (b : BitmapWith n) (rounds : List (SendRound n)) : Prop :=
  ∀ r ∈ rounds, r.found = b ∧ r.tested = b

/-- What one round finds, if it finds anything. -/
theorem piece_of_find {b : BitmapWith n} {start : Nat} (maxBioSize : Nat)
    (hcut : Cut b.toDrbdBitmap (mostBits maxBioSize) start)
    (hfind : bmFindNext b.toDrbdBitmap start false = some bit) :
    ∃ last, mergeSend b.toDrbdBitmap maxBioSize b.bmBits bit BM_BLOCK_SIZE
        = (last, BM_BLOCK_SIZE * (last - bit + 1)) ∧
      Piece b.toDrbdBitmap (mostBits maxBioSize) bit last ∧ drbdBmTestBit b.toDrbdBitmap bit = .isSet := by
  have hnext := bmFindNext_some hfind
  have hset : b.bit bit = true := by simpa using hnext.hit
  obtain ⟨last, hmerge, hle, hlt, hdirty, hmost, hend⟩ := mergeSend_spec b.toDrbdBitmap maxBioSize b.bmBits
    bit 0 hnext.lt hset (by unfold mostBits; omega) (by omega)
  refine ⟨last, hmerge, ⟨hcut.found hnext, hle, hlt, hdirty, by omega, ?_⟩, isSet_iff.2 ⟨hnext.lt, hset⟩⟩
  exact hend.imp_left fun h => by omega

theorem next_start (hle : bit ≤ last) :
    (if BM_BLOCK_SIZE < BM_BLOCK_SIZE * (last - bit + 1) then last + 1 else bit + 1) = last + 1 := by
  rcases Nat.eq_or_lt_of_le hle with rfl | hlt
  · rw [ite_self]
  · refine if_pos ?_
    show 4096 < 4096 * (last - bit + 1)
    omega

/-- Every request is a piece of a run. -/
theorem sendRounds_pieces {b : BitmapWith n} {rounds : List (SendRound n)}
    (maxBioSize weight : Nat) (again : Bool) {start : Nat} (i : Nat) (hsame : Unchanging b rounds)
    (hcut : Cut b.toDrbdBitmap (mostBits maxBioSize) start) :
    ∀ req ∈ (sendRounds capacity maxBioSize weight true again rounds start i).requests,
      ∃ bit last, req = requestOf capacity bit last ∧ Piece b.toDrbdBitmap (mostBits maxBioSize) bit last := by
  induction rounds generalizing again start i with
  | nil => exact fun _ h => nomatch h
  | cons r rounds ih =>
      obtain ⟨hfound, htested⟩ := hsame r List.mem_cons_self
      unfold sendRounds
      rw [hfound, htested]
      split
      · exact fun _ h => nomatch h
      split
      · exact fun _ h => nomatch h
      split
      · exact fun _ h => nomatch h
      rename_i bit hfind
      obtain ⟨last, hmerge, hpiece, htest⟩ := piece_of_find maxBioSize hcut hfind
      have hle := hpiece.le
      dsimp only
      rw [htest, if_neg (by decide), hmerge]
      dsimp only
      split
      · exact fun _ h => nomatch h
      split
      · intro req hreq
        exact ⟨bit, last, List.mem_singleton.1 hreq, hpiece⟩
      · intro req hreq
        rcases List.mem_cons.1 hreq with rfl | hreq
        · exact ⟨bit, last, rfl, hpiece⟩
        · refine ih false _ (fun r hr => hsame r (List.mem_cons_of_mem _ hr)) ?_ req hreq
          rw [next_start hle]
          exact hpiece.cut

/-! ## All pieces -/

theorem count_gap {p : Nat → Bool} {lo hi : Nat} (hle : lo ≤ hi) (hclear : ∀ i, lo ≤ i → i < hi → p i = false) :
    (List.range hi).countP p = (List.range lo).countP p := by
  rw [← Nat.add_sub_cancel' hle, countP_range_add]
  refine Nat.add_eq_left.2 (List.countP_eq_zero.2 fun i hi => ?_)
  rw [hclear _ (by omega) (by have := List.mem_range.1 hi; omega)]
  decide

theorem count_run {p : Nat → Bool} {lo hi : Nat} (hle : lo ≤ hi) (hset : ∀ i, lo ≤ i → i < hi → p i = true) :
    (List.range hi).countP p = (List.range lo).countP p + (hi - lo) := by
  have hall : (List.range (hi - lo)).countP (fun i => p (lo + i)) = hi - lo := by
    rw [List.countP_eq_length.2 fun i hi => ?_, List.length_range]
    exact hset _ (by omega) (by have := List.mem_range.1 hi; omega)
  calc (List.range hi).countP p = (List.range (lo + (hi - lo))).countP p := by rw [Nat.add_sub_cancel' hle]
    _ = _ := by rw [countP_range_add, hall]

theorem count_lt {p : Nat → Bool} {lo n x : Nat} (hlo : lo ≤ x) (hx : x < n) (hset : p x = true) :
    (List.range lo).countP p < (List.range n).countP p := by
  have hone : (List.range (x + 1)).countP p = (List.range x).countP p + 1 := by
    rw [count_run (p := p) (Nat.le_succ x) fun i h1 h2 => by rw [show i = x by omega]; exact hset]
    omega
  have hmono : ∀ {m n : Nat}, m ≤ n → (List.range m).countP p ≤ (List.range n).countP p := by
    intro m n hle
    rw [← Nat.add_sub_cancel' hle, countP_range_add]
    exact Nat.le_add_right _ _
  have h1 := hmono hlo
  have h2 := hmono (show x + 1 ≤ n from hx)
  omega

/-- A round in which nothing goes wrong. -/
abbrev smoothRound (b : BitmapWith n) : SendRound n := ⟨true, b, b, true, true, true⟩

/-- It sends the request that its search and its tests lead to. -/
theorem sendRounds_smooth {b : BitmapWith n} {start i weight : Nat} (locks : Bool) (rounds : List (SendRound n))
    (hi : i < weight) (hfind : bmFindNext b.toDrbdBitmap start false = some bit)
    (hlast : (mergeSend b.toDrbdBitmap maxBioSize b.bmBits bit BM_BLOCK_SIZE).1 = last) :
    sendRounds capacity maxBioSize weight locks false (smoothRound b :: rounds) start i =
      (sendRounds capacity maxBioSize weight locks false rounds (last + 1) (i + (last - bit) + 1)).cons
        (requestOf capacity bit last) := by
  have hnext := bmFindNext_some hfind
  have hset : b.bit bit = true := by simpa using hnext.hit
  obtain ⟨last', hmerge, hle, _⟩ := mergeSend_spec b.toDrbdBitmap maxBioSize b.bmBits bit 0 hnext.lt hset
    (by unfold mostBits; omega) (by omega)
  rw [Nat.zero_add, Nat.mul_one, Nat.add_zero] at hmerge
  rw [hmerge] at hlast
  subst hlast
  rw [sendRounds]
  dsimp only
  rw [if_neg (by simp only [Bool.not_false, true_and]; omega), if_neg (by simp), hfind]
  dsimp only
  rw [isSet_iff.2 ⟨hnext.lt, hset⟩, if_neg (by decide), hmerge]
  dsimp only
  rw [if_neg (by simp), if_neg (by simp), next_start hle]
  rfl

/-- If nothing goes wrong, every dirty bit gets into a request. -/
theorem sendRounds_complete {b : BitmapWith n} (maxBioSize k : Nat) {start : Nat} {x : Nat}
    (hcut : Cut b.toDrbdBitmap (mostBits maxBioSize) start) (hfuel : b.bmBits - start < k)
    (hstart : start ≤ x) (hx : x < b.bmBits) (hset : b.bit x = true) :
    ∃ bit last, Piece b.toDrbdBitmap (mostBits maxBioSize) bit last ∧ bit ≤ x ∧ x ≤ last ∧
      requestOf capacity bit last ∈ (sendRounds capacity maxBioSize ((List.range b.bmBits).countP b.bit) true false
        (List.replicate k (smoothRound b)) start ((List.range start).countP b.bit)).requests := by
  induction k generalizing start with
  | zero => omega
  | succ k ih =>
      rw [List.replicate_succ]
      have hmore := count_lt hstart hx hset
      cases hfind : bmFindNext b.toDrbdBitmap start false with
      | none =>
          have := bmFindNext_none hfind x hstart hx
          rw [hset] at this
          cases this
      | some bit =>
          have hnext := bmFindNext_some hfind
          have hge := hnext.ge
          obtain ⟨last, hmerge, hpiece, _⟩ := piece_of_find maxBioSize hcut hfind
          have hle := hpiece.le
          have hlt := hpiece.lt
          have hbit : bit ≤ x := by
            by_contra hlt
            have := hnext.least x hstart (by omega)
            rw [hset] at this
            cases this
          rw [sendRounds_smooth true _ hmore hfind (by rw [hmerge])]
          by_cases hin : x ≤ last
          · exact ⟨bit, last, hpiece, hbit, hin, List.mem_cons_self⟩
          · have hcount : (List.range start).countP b.bit + (last - bit) + 1
                = (List.range (last + 1)).countP b.bit := by
              rw [count_run (show bit ≤ last + 1 by omega) fun i h1 h2 => hpiece.dirty i h1 (by omega),
                count_gap hge fun i h1 h2 => hnext.least i h1 h2]
              omega
            obtain ⟨bit', last', hpiece', hlow, hhigh, hmem⟩ := ih hpiece.cut (by omega) (by omega)
            refine ⟨bit', last', hpiece', hlow, hhigh, List.mem_cons_of_mem _ ?_⟩
            rw [hcount]
            exact hmem

/-! ## Both -/

/-- Every border of an extent inside a run of dirty bits is a whole number of requests behind the run's
first bit. -/
def BordersBetweenPieces (b : DrbdBitmap) (maxBioSize : Nat) : Prop :=
  ∀ a m, DirtyRun b a m → a < m → 4096 ∣ m → mostBits maxBioSize ∣ m - a

/-- A piece reaches over no border where the borders are between pieces. -/
theorem Piece.oneExtent (hborders : BordersBetweenPieces b maxBioSize)
    (h : Piece b (mostBits maxBioSize) bit last) : last / 4096 = bit / 4096 := by
  obtain ⟨a, hrun, q, hq⟩ := h.run
  have hle := h.le
  have hshort := h.short
  have hrunLe := hrun.le
  by_contra hne
  obtain ⟨m, hm⟩ : ∃ m, m = last / 4096 * 4096 := ⟨_, rfl⟩
  have hinside : bit < m ∧ m ≤ last := by omega
  have hrun' : DirtyRun b a m := by
    refine ⟨by omega, by have := h.lt; omega, fun i h1 h2 => ?_, hrun.first⟩
    by_cases hlow : i ≤ bit
    · exact hrun.dirty i h1 hlow
    · exact h.dirty i (by omega) (by omega)
  have hdvd := hborders a m hrun' (by omega) ⟨last / 4096, by omega⟩
  rw [show m - a = m - bit + (bit - a) by omega, Nat.dvd_add_left ⟨q, hq⟩] at hdvd
  exact absurd (Nat.le_of_dvd (by omega) hdvd) (by omega)

/-- No border of an extent has dirty bits on both sides. -/
def BordersClean (b : DrbdBitmap) : Prop :=
  ∀ m, 0 < m → 4096 ∣ m → m < b.bmBits → ¬ (b.bit (m - 1) = true ∧ b.bit m = true)

/-- A run of dirty bits cannot reach over a border then. -/
theorem BordersClean.oneExtent (hclean : BordersClean b) (hle : bit ≤ last) (hlt : last < b.bmBits)
    (hdirty : ∀ i, bit ≤ i → i ≤ last → b.bit i = true) : last / 4096 = bit / 4096 := by
  by_contra hne
  obtain ⟨m, hm⟩ : ∃ m, m = last / 4096 * 4096 := ⟨_, rfl⟩
  have hinside : bit < m ∧ m ≤ last := by omega
  exact hclean m (by omega) ⟨last / 4096, by omega⟩ (by omega)
    ⟨hdirty (m - 1) (by omega) (by omega), hdirty m (by omega) hinside.2⟩

/-- The bitmap may change in any way, as long as no round has seen dirty bits on both sides of a border. -/
theorem sendRounds_oneExtent (hcap : n ≤ (capacity + 7) / 8) (maxBioSize weight : Nat) (locks again : Bool)
    {rounds : List (SendRound n)} (start i : Nat) (hclean : ∀ r ∈ rounds, BordersClean r.tested.toDrbdBitmap) :
    ∀ req ∈ (sendRounds capacity maxBioSize weight locks again rounds start i).requests, req.OneExtent := by
  induction rounds generalizing again start i with
  | nil => exact fun _ h => nomatch h
  | cons r rounds ih =>
      have ih := fun again start i => ih again start i fun r hr => hclean r (List.mem_cons_of_mem _ hr)
      unfold sendRounds
      split
      · exact fun _ h => nomatch h
      split
      · exact fun _ h => nomatch h
      split
      · exact fun _ h => nomatch h
      rename_i bit hfind
      dsimp only
      split
      · exact ih true _ _
      rename_i htest
      obtain ⟨hnext, hset⟩ := isSet_of_find hfind htest
      obtain ⟨last, hmerge, hle, hlt, hdirty, _⟩ := mergeSend_spec r.tested.toDrbdBitmap maxBioSize
        r.tested.bmBits bit 0 (by rw [r.tested.bits]; exact hnext.lt) hset (by unfold mostBits; omega) (by omega)
      have hext := (hclean r List.mem_cons_self).oneExtent hle hlt hdirty
      have hone : (requestOf capacity bit last).OneExtent :=
        (oneExtent_iff hle (inside_capacity hcap hlt)).2 hext
      rw [Nat.zero_add, Nat.mul_one, Nat.add_zero] at hmerge
      rw [hmerge]
      dsimp only
      split
      · exact fun _ h => nomatch h
      split
      · intro req hreq
        rw [List.mem_singleton.1 hreq]
        exact hone
      · intro req hreq
        rcases List.mem_cons.1 hreq with rfl | hreq
        · exact hone
        · exact ih false _ _ req hreq

/-- The requests of `make_resync_request` always stay in the extent they lock. Those of `make_sync_request_send`
do so, on a bitmap that does not change, exactly where the borders of the extents are between pieces, and on any
other if nothing is dirty on both sides of a border. -/
theorem resync_requests_one_extent {n capacity : Nat} (maxBioSize : Nat) (b : BitmapWith n)
    (hcap : n ≤ (capacity + 7) / 8) :
    (∀ (number fo : Nat) (rounds : List (ResyncRound n)),
      ∀ r ∈ (makeResyncRequest capacity maxBioSize number false rounds fo 0).requests, r.OneExtent) ∧
    ((∀ rounds, Unchanging b rounds →
        ∀ r ∈ (makeSyncRequestSend capacity maxBioSize b rounds).requests, r.OneExtent) ↔
      BordersBetweenPieces b.toDrbdBitmap maxBioSize) ∧
    ∀ rounds : List (SendRound n), (∀ r ∈ rounds, BordersClean r.tested.toDrbdBitmap) →
      ∀ r ∈ (makeSyncRequestSend capacity maxBioSize b rounds).requests, r.OneExtent := by
  refine ⟨fun number fo rounds => makeResyncRequest_oneExtent hcap maxBioSize number false rounds fo 0,
    ⟨fun hall a m hrun hlt hborder => ?_, fun hborders rounds hsame r hr => ?_⟩, fun rounds hclean r hr => ?_⟩
  · obtain ⟨bit, last, hpiece, hlow, hhigh, hmem⟩ := sendRounds_complete maxBioSize (b.bmBits + 1) (.inl rfl)
      (by omega) (Nat.zero_le m) hrun.lt (hrun.dirty m hrun.le (le_refl m))
    have hone := hall (List.replicate (b.bmBits + 1) (smoothRound b))
      (fun r hr => by rw [List.eq_of_mem_replicate hr]; exact ⟨rfl, rfl⟩) (requestOf capacity bit last) (by
        unfold makeSyncRequestSend requestSend
        have hsome := count_lt (p := b.bit) (Nat.zero_le m) hrun.lt (hrun.dirty m hrun.le (le_refl m))
        rw [b.counted, if_neg (by omega)]
        exact hmem)
    have hext := (oneExtent_iff hpiece.le (inside_capacity hcap hpiece.lt)).1 hone
    obtain ⟨a', hrun', hdvd⟩ := hpiece.run
    -- the piece is one of this run, and it cannot reach over the border
    have hsame : a = a' := hrun.same hrun' hlow fun i h1 h2 => hpiece.dirty i h1 (by omega)
    have hbit : bit = m := by
      obtain ⟨q, hq⟩ := hborder
      omega
    rw [hsame, ← hbit]
    exact hdvd
  · unfold makeSyncRequestSend requestSend at hr
    split at hr
    · cases hr
    · obtain ⟨bit, last, rfl, hpiece⟩ := sendRounds_pieces maxBioSize b.bmSet false 0 hsame (.inl rfl) r hr
      exact (oneExtent_iff hpiece.le (inside_capacity hcap hpiece.lt)).2 (hpiece.oneExtent hborders)
  · unfold makeSyncRequestSend requestSend at hr
    split at hr
    · cases hr
    · exact sendRounds_oneExtent hcap maxBioSize b.bmSet true false 0 0 hclean r hr

/-! ## Blocks in a row -/

/-- The bits from `first` on and before `last` in word `w`. -/
def dirtyWord (first last w : Nat) : BitVec 64 :=
  BitVec.ofNat 64 (2 ^ (last - 64 * w) - 1) &&& ~~~ BitVec.ofNat 64 (2 ^ (first - 64 * w) - 1)

theorem getLsbD_dirtyWord (first last i : Nat) :
    (dirtyWord first last (i / 64)).getLsbD (i % 64) = decide (first ≤ i ∧ i < last) := by
  have hlt : i % 64 < 64 := Nat.mod_lt _ (by decide)
  have hlast : i % 64 < last - 64 * (i / 64) ↔ i < last := by omega
  have hfirst : ¬ i % 64 < first - 64 * (i / 64) ↔ first ≤ i := by omega
  simp only [dirtyWord, BitVec.getLsbD_and, BitVec.getLsbD_not, BitVec.getLsbD_ofNat, Nat.testBit_two_pow_sub_one,
    hlt, decide_true, Bool.true_and]
  rw [← decide_not, ← Bool.decide_and]
  exact decide_eq_decide.2 (by rw [hlast, hfirst, and_comm])

theorem countP_between {p : Nat → Bool} {first last n : Nat} (hlast : last ≤ n)
    (hp : ∀ i, p i = decide (first ≤ i ∧ i < last)) : (List.range n).countP p = last - first := by
  have hafter : (List.range n).countP p = (List.range last).countP p :=
    count_gap hlast fun i h1 _ => by rw [hp]; exact decide_eq_false (by omega)
  have hbefore : ∀ k ≤ first, (List.range k).countP p = 0 := fun k hk =>
    count_gap (Nat.zero_le k) fun i _ h2 => by rw [hp]; exact decide_eq_false (by omega)
  rw [hafter]
  rcases Nat.le_total first last with hle | hle
  · rw [count_run hle fun i h1 h2 => by rw [hp]; exact decide_eq_true ⟨h1, h2⟩, hbefore first (le_refl _), Nat.zero_add]
  · rw [hbefore last hle, Nat.sub_eq_zero_of_le hle]

/-- A bitmap of `n` bits, with those from `first` on and before `last` set. -/
def dirtyBlocks (n first last : Nat) : BitmapWith n where
  bmBits := n
  bmSet := min last n - first
  word := dirtyWord first (min last n)
  needWriteout _ := false
  lazyWriteout _ := false
  bits := rfl
  counted := (countP_between (Nat.min_le_right last n) (getLsbD_dirtyWord first (min last n))).symm

theorem bit_dirtyBlocks (n first last i : Nat) :
    (dirtyBlocks n first last).bit i = decide (first ≤ i ∧ i < min last n) :=
  getLsbD_dirtyWord first (min last n) i

/-- A search from before the run finds its first bit. -/
theorem find_dirtyBlocks {first lo : Nat} (hlo : lo ≤ first) (hlt : first < min last n) :
    bmFindNext (dirtyBlocks n first last).toDrbdBitmap lo false = some first := by
  have hset : (dirtyBlocks n first last).bit first = true := by
    rw [bit_dirtyBlocks]
    exact decide_eq_true ⟨le_refl _, hlt⟩
  have hin : first < n := by omega
  have hnext : IsNext (dirtyBlocks n first last).toDrbdBitmap false lo n first := by
    refine ⟨hlo, hin, by rw [hset]; decide, fun j _ hj => ?_⟩
    rw [bit_dirtyBlocks]
    exact decide_eq_false (by omega)
  cases hfind : bmFindNext (dirtyBlocks n first last).toDrbdBitmap lo false with
  | none => exact absurd ((bmFindNext_none hfind first hlo hin).symm.trans hset) (by decide)
  | some i => rw [hnext.unique (bmFindNext_some hfind)]

/-- A search from behind the run finds nothing. -/
theorem find_dirtyBlocks_past {first lo : Nat} (hlo : last ≤ lo) :
    bmFindNext (dirtyBlocks n first last).toDrbdBitmap lo false = none := by
  cases hfind : bmFindNext (dirtyBlocks n first last).toDrbdBitmap lo false with
  | none => rfl
  | some i =>
      have hnext := bmFindNext_some hfind
      have hge := hnext.ge
      have hclear : (dirtyBlocks n first last).bit i = false := by
        rw [bit_dirtyBlocks]
        exact decide_eq_false (by omega)
      exact absurd hclear hnext.hit

/-- Two extents, with two blocks on each side of their border dirty. -/
def borderRun : BitmapWith 8192 := dirtyBlocks 8192 4094 4098

/-- The blocks up to the border are one request of two blocks. -/
theorem borderRun_between : BordersBetweenPieces borderRun.toDrbdBitmap 8192 := by
  rintro a m hrun hlt ⟨q, hq⟩
  have hm : m = 4096 := by
    have : m < 8192 := hrun.lt
    omega
  subst hm
  have hfirst : DirtyRun borderRun.toDrbdBitmap 4094 4096 := by
    refine ⟨by decide, by decide, fun i h1 h2 => ?_, .inr (by decide)⟩
    rw [borderRun, bit_dirtyBlocks]
    exact decide_eq_true ⟨h1, by omega⟩
  rw [hrun.unique hfirst hrun.le hfirst.le]
  decide

theorem resync_requests_one_extent_small :
    (makeSyncRequestSend 65536 8192 borderRun (List.replicate 3 (smoothRound borderRun))).requests =
        [⟨32752, 8192⟩, ⟨32768, 8192⟩] ∧
      (⟨32752, 8192⟩ : Request).OneExtent := by
  have hrequests : (makeSyncRequestSend 65536 8192 borderRun
      (List.replicate 3 (smoothRound borderRun))).requests = [⟨32752, 8192⟩, ⟨32768, 8192⟩] := by
    have hfind : bmFindNext borderRun.toDrbdBitmap 0 false = some 4094 :=
      find_dirtyBlocks (by decide) (by decide)
    have hlast : (mergeSend borderRun.toDrbdBitmap 8192 8192 4094 BM_BLOCK_SIZE).1 = 4095 := by decide
    have hfind' : bmFindNext borderRun.toDrbdBitmap 4096 false = some 4096 := by decide
    have hlast' : (mergeSend borderRun.toDrbdBitmap 8192 8192 4096 BM_BLOCK_SIZE).1 = 4097 := by decide
    rw [makeSyncRequestSend, requestSend, if_neg (by decide), List.replicate_succ,
      sendRounds_smooth true _ (by decide) hfind hlast, List.replicate_succ,
      sendRounds_smooth true _ (by decide) hfind' hlast']
    rfl
  refine ⟨hrequests, ?_⟩
  refine ((resync_requests_one_extent 8192 borderRun (by decide : 8192 ≤ (65536 + 7) / 8)).2.1.2
    borderRun_between) (List.replicate 3 (smoothRound borderRun))
    (fun r hr => by rw [List.eq_of_mem_replicate hr]; exact ⟨rfl, rfl⟩) _ ?_
  rw [hrequests]
  exact List.mem_cons_self

/-- Two extents, with the blocks on both sides of their border dirty. -/
def borderBlocks : BitmapWith 8192 := dirtyBlocks 8192 4095 4097

/-- One request of `make_sync_request_send` over the border: it locks extent 0 and reads from extent 1
too. -/
theorem resync_request_over_border :
    (makeSyncRequestSend 65536 (2 ^ 20) borderBlocks [smoothRound borderBlocks]).requests = [⟨32760, 8192⟩] ∧
      ¬ (⟨32760, 8192⟩ : Request).OneExtent := by
  refine ⟨?_, fun h => ?_⟩
  · have hfind : bmFindNext borderBlocks.toDrbdBitmap 0 false = some 4095 :=
      find_dirtyBlocks (by decide) (by decide)
    have hlast : (mergeSend borderBlocks.toDrbdBitmap (2 ^ 20) 8192 4095 BM_BLOCK_SIZE).1 = 4096 := by decide
    rw [makeSyncRequestSend, requestSend, if_neg (by decide), sendRounds_smooth true _ (by decide) hfind hlast]
    rfl
  · have := h 32768 (by decide) (by decide)
    revert this
    decide

end Drbd.ResyncRequest
