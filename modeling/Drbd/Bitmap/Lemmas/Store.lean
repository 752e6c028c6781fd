import Drbd.Bitmap.Store

/-!
# What the operations of the store keep
-/

namespace Drbd.Bitmap

open Finset

variable {b b' : DrbdBitmap} {s s' : Store}

/-! ## Marks of whole words -/

theorem Marks.trans {b''} (h : Marks b b') (h' : Marks b' b'') : Marks b b'' := by
  intro p hp
  obtain ⟨hp', hbit'⟩ := h' p hp
  obtain ⟨hp'', hbit⟩ := h p hp'
  exact ⟨hp'', fun i hi => (hbit' i hi).trans (hbit i hi)⟩

theorem DrbdBitmap.word_eq_of_bit {w : Nat} (h : ∀ i, i / 64 = w → b'.bit i = b.bit i) :
    b'.word w = b.word w := by
  apply BitVec.eq_of_getLsbD_eq
  intro k hk
  have h := h (w * 64 + k) (by omega)
  rwa [bit, bit, show (w * 64 + k) / 64 = w by omega, show (w * 64 + k) % 64 = k by omega] at h

theorem eq_allOnes_of_hweightLong {w : BitVec 64} (h : hweightLong w = 64) : w = BitVec.allOnes 64 := by
  apply BitVec.eq_of_getLsbD_eq
  intro k hk
  have hall := (List.countP_eq_length (p := w.getLsbD) (l := List.range 64)).1 (by rw [List.length_range]; exact h)
  rw [hall k (List.mem_range.2 hk), BitVec.getLsbD_allOnes, decide_eq_true hk]

/-- A word that needs no change was full. -/
theorem foldl_fillWord_marks (page n first : Nat) (b : DrbdBitmap) (changed : Nat) :
    let r := (List.range' first n).foldl (fillWord page) (b, changed)
    changed ≤ r.2 ∧ r.1.needWriteout = b.needWriteout ∧ r.1.lazyWriteout = b.lazyWriteout ∧
      (∀ i, i / bitsPerPage ≠ page → first + n ≤ 512 → r.1.bit i = b.bit i) ∧
      (r.2 = changed → r.1.word = b.word) := by
  induction n generalizing first b changed with
  | zero => exact ⟨le_refl _, rfl, rfl, fun _ _ _ => rfl, fun _ => rfl⟩
  | succ n ih =>
      rw [List.range'_succ, List.foldl_cons]
      simp only [fillWord]
      obtain ⟨hle, hneed, hlazy, hout, hsame⟩ := ih (first + 1)
        (b.setWord (page * 512 + first) (BitVec.allOnes 64))
        (changed + (64 - hweightLong (b.word (page * 512 + first))))
      refine ⟨by omega, hneed, hlazy, fun i hi hn => ?_, fun hr => ?_⟩
      · rw [hout i hi (by omega), DrbdBitmap.bit, DrbdBitmap.bit, DrbdBitmap.word_setWord, if_neg]
        unfold bitsPerPage at hi
        omega
      · have hfull : hweightLong (b.word (page * 512 + first)) = 64 := by
          have := hweightLong_le (b.word (page * 512 + first))
          omega
        rw [hsame (by omega)]
        funext w
        rw [DrbdBitmap.word_setWord]
        split
        · rename_i hw
          rw [hw, eq_allOnes_of_hweightLong hfull]
        · rfl

theorem Marks.of_page (page : Nat)
    (hflag : ∀ p, b'.testPageUnchanged p = true → b.testPageUnchanged p = true ∧ p ≠ page)
    (hbit : ∀ i, i / bitsPerPage ≠ page → b'.bit i = b.bit i) : Marks b b' := by
  intro p hp
  obtain ⟨hold, hne⟩ := hflag p hp
  exact ⟨hold, fun i hi => hbit i (by rw [hi]; exact hne)⟩

theorem Marks.onePage (b : DrbdBitmap) {page first last : Nat} (hfirst : first ≤ 512) (hlast : last ≤ 512) :
    Marks b (bmSetFullWordsWithinOnePage b page first last) := by
  obtain ⟨_, hneed, hlazy, hout, hsame⟩ := foldl_fillWord_marks page (last - first) first b 0
  unfold bmSetFullWordsWithinOnePage
  generalize (List.range' first (last - first)).foldl (fillWord page) (b, 0) = r at *
  obtain ⟨b₁, changed⟩ := r
  dsimp only at *
  have hflags : ∀ p, b₁.testPageUnchanged p = b.testPageUnchanged p := fun p => by
    rw [DrbdBitmap.testPageUnchanged, DrbdBitmap.testPageUnchanged, hneed, hlazy]
  split
  · rename_i hzero
    refine fun p hp => ⟨by rw [← hflags p]; exact hp, fun i _ => ?_⟩
    rw [DrbdBitmap.bit, DrbdBitmap.bit, hsame hzero]
  · refine Marks.of_page page (fun p hp => ?_) (fun i hi => ?_)
    · have hp : (b₁.setPageLazyWriteout page).testPageUnchanged p = true := hp
      rw [DrbdBitmap.testPageUnchanged_setPageLazyWriteout, hflags, Bool.and_eq_true] at hp
      exact ⟨hp.1, by simpa using hp.2⟩
    · exact hout i hi (by omega)

theorem Marks.pages (n p fw : Nat) (b : DrbdBitmap) (hfw : fw ≤ 512) :
    let r := (List.range' p n).foldl fillPage (b, fw)
    r.2 ≤ 512 ∧ Marks b r.1 := by
  induction n generalizing p fw b with
  | zero => exact ⟨hfw, .refl b⟩
  | succ n ih =>
      rw [List.range'_succ, List.foldl_cons]
      obtain ⟨hfw', hrest⟩ := ih (p + 1) 0 (bmSetFullWordsWithinOnePage b p fw 512) (Nat.zero_le _)
      exact ⟨hfw', (Marks.onePage b hfw (le_refl _)).trans hrest⟩

theorem Marks.setBitsBulk (b : DrbdBitmap) (lo hi : Nat) : Marks b (drbdBmSetBitsBulk b lo hi) := by
  unfold drbdBmSetBitsBulk
  split
  · exact .bmChangeBitsTo b lo hi true
  dsimp only
  generalize hb₁ : (if (lo + 63) / 64 * 64 = 0 then b else _) = b₁
  have h₁ : Marks b b₁ := by
    rw [← hb₁]
    split
    · exact .refl b
    · exact .bmChangeBitsTo b lo _ true
  obtain ⟨hfw, h₂⟩ := Marks.pages ((hi + 1) / 64 * 64 / bitsPerPage - (lo + 63) / 64 * 64 / bitsPerPage)
    ((lo + 63) / 64 * 64 / bitsPerPage) ((lo + 63) / 64 * 64 / 64 % 512) b₁ (by omega)
  generalize (List.range' _ _).foldl fillPage (b₁, _) = r at hfw h₂ ⊢
  obtain ⟨b₂, firstWord⟩ := r
  dsimp only at hfw h₂ ⊢
  generalize hb₃ : (if (hi + 1) / 64 * 64 / 64 % 512 = 0 then b₂ else _) = b₃
  have h₃ : Marks b₂ b₃ := by
    rw [← hb₃]
    split
    · exact .refl b₂
    · exact .onePage b₂ hfw (by omega)
  have h : Marks b b₃ := (h₁.trans h₂).trans h₃
  split
  · exact h.trans (.bmChangeBitsTo b₃ _ hi true)
  · exact h

theorem Marks.mergeWord (b : DrbdBitmap) (offset : Nat) (lel : BitVec 64) :
    Marks b (mergeWord b offset lel) := by
  refine Marks.of_page (offset / 512) (fun p hp => ?_) (fun i hi => ?_)
  · have hp : (b.setPageNeedWriteout (offset / 512)).testPageUnchanged p = true := hp
    rw [DrbdBitmap.testPageUnchanged_setPageNeedWriteout, Bool.and_eq_true] at hp
    exact ⟨hp.1, by simpa using hp.2⟩
  · show ((b.setWord offset (b.word offset ||| lel)).word (i / 64)).getLsbD (i % 64) = _
    rw [DrbdBitmap.word_setWord, if_neg]
    · rfl
    · unfold bitsPerPage at hi
      omega

theorem Marks.mergeWords (b : DrbdBitmap) (offset : Nat) (buffer : List (BitVec 64)) :
    Marks b (mergeWords b offset buffer) := by
  induction buffer generalizing b offset with
  | nil => exact .refl b
  | cons lel rest ih => exact (Marks.mergeWord b offset lel).trans (ih _ _)

/-! ## Nothing is surplus -/

theorem usedMask_eq_zero {n : Nat} (h : n % 64 = 0) : usedMask n = 0 := by
  rw [usedMask, h]
  rfl

theorem bmClearSurplus_aligned (h : b.bmBits % 64 = 0) : bmClearSurplus b = (b, 0) :=
  if_pos (usedMask_eq_zero h)

theorem bmSetSurplus_aligned (h : b.bmBits % 64 = 0) : bmSetSurplus b = b :=
  if_pos (usedMask_eq_zero h)

theorem noSurplus_aligned (h : b.bmBits % 64 = 0) : NoSurplus b := by
  intro i hi hw
  unfold DrbdBitmap.bmWords at hw
  omega

/-! ## The recount -/

theorem sum_map_range (f : Nat → Nat) (n : Nat) : ((List.range n).map f).sum = ∑ i ∈ range n, f i := by
  induction n with
  | zero => rfl
  | succ n ih => rw [List.range_succ, List.map_append, List.sum_append, ih, sum_range_succ]; simp

/-- The recount counts what it leaves: the last word is lost when the bits fill it. -/
theorem bmCountBits_eq (h : b.bmBits % 64 = 0) (hpos : b.bmBits ≠ 0) :
    (bmCountBits b).1 = b.setWord (b.bmBits / 64 - 1) 0 ∧
      (bmCountBits b).2 = (b.setWord (b.bmBits / 64 - 1) 0).weight := by
  have hwords : b.bmWords = b.bmBits / 64 := by unfold DrbdBitmap.bmWords; omega
  have hlast : (b.bmNumberOfPages - 1) * 512 + (b.bmBits - 1) % bitsPerPage / 64 = b.bmBits / 64 - 1 := by
    unfold DrbdBitmap.bmNumberOfPages bitsPerPage
    rw [hwords]
    omega
  have hzero : hweightLong 0 = 0 := by decide
  have hand : b.word (b.bmBits / 64 - 1) &&& 0 = 0 := BitVec.and_zero
  have hweight : b.weight
      = ∑ page ∈ range (b.bmNumberOfPages - 1), ∑ i ∈ range 512, hweightLong (b.word (page * 512 + i))
        + ∑ i ∈ range ((b.bmBits - 1) % bitsPerPage / 64),
            hweightLong (b.word ((b.bmNumberOfPages - 1) * 512 + i))
        + hweightLong (b.word (b.bmBits / 64 - 1)) := by
    rw [DrbdBitmap.weight, show b.bmWords = (b.bmNumberOfPages - 1) * 512
      + (b.bmBits - 1) % bitsPerPage / 64 + 1 by omega, sum_range_succ, sum_range_add, sum_range_mul, hlast]
  have hw := weight_setWord (b := b) 0 (w := b.bmBits / 64 - 1) (by omega)
  unfold bmCountBits
  simp only [usedMask_eq_zero h, hlast, hand, sum_map_range, true_and]
  omega

end Drbd.Bitmap
