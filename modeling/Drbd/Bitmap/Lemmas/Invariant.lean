import Drbd.Bitmap.Lemmas.Store

/-!
# The invariant of the store

The count is right, the bits fill the last word, and a page with its flags down agrees with the disk.
-/

namespace Drbd.Bitmap

open Finset

variable {b b' : DrbdBitmap} {s s' : Store}

structure Inv (s : Store) : Prop where
  counted : Counted s.toDrbdBitmap
  aligned : s.bmBits % 4096 = 0
  capacity : s.bmDevCapacity = s.bmBits * 8
  sync : ∀ w, s.testPageUnchanged (w / 512) = true → w < s.bmWords → s.word w = s.disk w

theorem inv_drbdBmInit (disk : Nat → BitVec 64) : Inv (drbdBmInit disk) where
  counted := by simp [Counted, DrbdBitmap.weight, DrbdBitmap.bmWords, drbdBmInit]
  aligned := rfl
  capacity := rfl
  sync w _ hw := by simp [DrbdBitmap.bmWords, drbdBmInit] at hw

theorem Inv.word_aligned (h : Inv s) : s.bmBits % 64 = 0 := by
  have := h.aligned
  omega

/-- An operation that counts and marks what it changes keeps the invariant. -/
theorem Inv.change (h : Inv s) (hbits : b'.bmBits = s.bmBits) (hcount : Counted b')
    (hmarks : Marks s.toDrbdBitmap b') : Inv { s with toDrbdBitmap := b' } where
  counted := hcount
  aligned := by
    show b'.bmBits % 4096 = 0
    rw [hbits]
    exact h.aligned
  capacity := by
    show s.bmDevCapacity = b'.bmBits * 8
    rw [hbits]
    exact h.capacity
  sync w hp hw := by
    obtain ⟨hold, hbit⟩ := hmarks _ hp
    have hw : w < b'.bmWords := hw
    rw [DrbdBitmap.bmWords_congr hbits] at hw
    show b'.word w = s.disk w
    rw [← h.sync w hold hw]
    refine DrbdBitmap.word_eq_of_bit fun i hi => hbit i ?_
    unfold bitsPerPage
    omega

/-- Two bitmaps of one size with the same bits stand for the same blocks. -/
theorem Store.blocks_eq {m : Blocks} (hlen : s.bmBits = m.len) (hout : ∀ i, m.len ≤ i → m.dirty i = false)
    (hbit : ∀ i, i < m.len → s.bit i = m.dirty i) : s.blocks = m := by
  unfold Store.blocks
  rw [hlen]
  cases m with
  | mk len dirty =>
      refine congrArg (Blocks.mk len) (funext fun i => ?_)
      by_cases hi : i < len
      · rw [decide_eq_true hi, Bool.true_and]
        exact hbit i hi
      · rw [decide_eq_false hi, Bool.false_and]
        exact (hout i (Nat.le_of_not_lt hi)).symm

theorem Store.dirty_blocks {i : Nat} (hi : i < s.bmBits) : s.blocks.dirty i = s.bit i := by
  simp [blocks, hi]

theorem Store.dirty_out {i : Nat} (hi : s.bmBits ≤ i) : s.blocks.dirty i = false := by
  simp [blocks, hi]

/-! ## Filling the bitmap -/

theorem bit_bmMemset (b : DrbdBitmap) {offset len : Nat} {c : BitVec 64} {v : Bool}
    (hc : ∀ k < 64, c.getLsbD k = v) (hin : offset + len ≤ b.bmWords) (i : Nat) :
    (bmMemset b offset c len).bit i
      = if offset * 64 ≤ i ∧ i < (offset + len) * 64 then v else b.bit i := by
  unfold bmMemset
  rw [if_neg (by omega), DrbdBitmap.bit]
  dsimp only
  by_cases h : offset ≤ i / 64 ∧ i / 64 < offset + len
  · rw [if_pos h, if_pos (by omega)]
    exact hc _ (Nat.mod_lt _ (by decide))
  · rw [if_neg h, if_neg (by omega), DrbdBitmap.bit]

theorem getLsbD_allOnes_eq (k : Nat) (hk : k < 64) : (BitVec.allOnes 64).getLsbD k = true := by
  rw [BitVec.getLsbD_allOnes, decide_eq_true hk]

theorem getLsbD_zero_eq (k : Nat) (_ : k < 64) : (0 : BitVec 64).getLsbD k = false :=
  BitVec.getLsbD_zero

theorem bmBits_bmMemset (b : DrbdBitmap) (offset : Nat) (c : BitVec 64) (len : Nat) :
    (bmMemset b offset c len).bmBits = b.bmBits := by
  unfold bmMemset
  split <;> rfl

theorem bmSet_bmMemset (b : DrbdBitmap) (offset : Nat) (c : BitVec 64) (len : Nat) :
    (bmMemset b offset c len).bmSet = b.bmSet := by
  unfold bmMemset
  split <;> rfl

/-- A page with its flags down was not touched. -/
theorem bmMemset_unchanged {offset len w : Nat} {c : BitVec 64} (hin : offset + len ≤ b.bmWords)
    (hp : (bmMemset b offset c len).testPageUnchanged (w / 512) = true) :
    b.testPageUnchanged (w / 512) = true ∧ ¬ (offset ≤ w ∧ w < offset + len) ∧
      (bmMemset b offset c len).word w = b.word w := by
  unfold bmMemset at hp ⊢
  rw [if_neg (by omega)] at hp ⊢
  simp only [DrbdBitmap.testPageUnchanged, Bool.not_or, Bool.and_eq_true, Bool.not_eq_true',
    decide_eq_false_iff_not] at hp ⊢
  have hout : ¬ (offset ≤ w ∧ w < offset + len) := by
    intro hw
    apply hp.1.1
    omega
  exact ⟨⟨hp.1.2, hp.2⟩, hout, if_neg hout⟩

theorem Marks.bmMemset (b : DrbdBitmap) {offset len : Nat} (c : BitVec 64) (hin : offset + len ≤ b.bmWords) :
    Marks b (bmMemset b offset c len) := by
  intro p hp
  have hword := fun w => bmMemset_unchanged (b := b) (c := c) (w := w) hin
  refine ⟨?_, fun i hi => ?_⟩
  · have := (hword (p * 512) (by rw [show p * 512 / 512 = p by omega]; exact hp)).1
    rwa [show p * 512 / 512 = p by omega] at this
  · unfold bitsPerPage at hi
    rw [DrbdBitmap.bit, DrbdBitmap.bit, (hword (i / 64) (by rw [show i / 64 / 512 = p by omega]; exact hp)).2.2]

theorem counted_iff (h : b.bmBits % 64 = 0) : Counted b ↔ b.bmSet = (List.range b.bmBits).countP b.bit := by
  rw [Counted, weight_eq_countP (noSurplus_aligned h)]

theorem countP_const (n : Nat) {p : Nat → Bool} {v : Bool} (h : ∀ i, i < n → p i = v) :
    (List.range n).countP p = if v then n else 0 := by
  cases v with
  | true =>
      rw [if_pos rfl, List.countP_eq_length.2 fun i hi => h i (List.mem_range.1 hi), List.length_range]
  | false =>
      rw [if_neg (by decide), List.countP_eq_zero]
      intro i hi
      rw [h i (List.mem_range.1 hi)]
      decide

/-! ## Each operation -/

theorem Inv.setAll (h : Inv s) : Inv { s with toDrbdBitmap := drbdBmSetAll s.toDrbdBitmap } ∧
    ({ s with toDrbdBitmap := drbdBmSetAll s.toDrbdBitmap } : Store).blocks = s.blocks.apply .setAll := by
  unfold drbdBmSetAll
  split
  · rename_i hzero
    refine ⟨h, Store.blocks_eq rfl (fun i hi => decide_eq_false (Nat.not_lt.2 hi)) (fun i hi => ?_)⟩
    have hi : i < s.bmBits := hi
    omega
  · have hbits := bmBits_bmMemset s.toDrbdBitmap 0 (BitVec.allOnes 64) s.bmWords
    have hin : 0 + s.bmWords ≤ s.bmWords := by omega
    have halign := h.word_aligned
    have hset : ∀ i, i < s.bmBits → (bmMemset s.toDrbdBitmap 0 (BitVec.allOnes 64) s.bmWords).bit i = true := by
      intro i hi
      rw [bit_bmMemset s.toDrbdBitmap getLsbD_allOnes_eq hin i, if_pos]
      unfold DrbdBitmap.bmWords
      omega
    have hmarks := Marks.bmMemset s.toDrbdBitmap (BitVec.allOnes 64) hin
    rw [bmClearSurplus_aligned (by rw [hbits]; exact halign)]
    generalize bmMemset s.toDrbdBitmap 0 (BitVec.allOnes 64) s.bmWords = b at hbits hset hmarks ⊢
    refine ⟨h.change hbits ?_ hmarks, Store.blocks_eq hbits ?_ ?_⟩
    · refine (counted_iff (by rw [← hbits] at halign; exact halign)).2 ?_
      exact (countP_const b.bmBits (fun i hi => hset i (by rw [← hbits]; exact hi))).symm
    · exact fun i hi => decide_eq_false (Nat.not_lt.2 hi)
    · exact fun i hi => (hset i hi).trans (decide_eq_true hi).symm

theorem Inv.clearAll (h : Inv s) : Inv { s with toDrbdBitmap := drbdBmClearAll s.toDrbdBitmap } ∧
    ({ s with toDrbdBitmap := drbdBmClearAll s.toDrbdBitmap } : Store).blocks = s.blocks.apply .clearAll := by
  unfold drbdBmClearAll
  split
  · rename_i hzero
    refine ⟨h, Store.blocks_eq rfl (fun i hi => rfl) (fun i hi => ?_)⟩
    have hi : i < s.bmBits := hi
    omega
  · have hbits := bmBits_bmMemset s.toDrbdBitmap 0 0 s.bmWords
    have hin : 0 + s.bmWords ≤ s.bmWords := by omega
    have halign := h.word_aligned
    have hclear : ∀ i, i < s.bmBits → (bmMemset s.toDrbdBitmap 0 0 s.bmWords).bit i = false := by
      intro i hi
      rw [bit_bmMemset s.toDrbdBitmap getLsbD_zero_eq hin i, if_pos]
      unfold DrbdBitmap.bmWords
      omega
    have hmarks := Marks.bmMemset s.toDrbdBitmap 0 hin
    generalize bmMemset s.toDrbdBitmap 0 0 s.bmWords = b at hbits hclear hmarks ⊢
    refine ⟨h.change hbits ?_ hmarks, Store.blocks_eq hbits (fun i hi => rfl) hclear⟩
    refine (counted_iff (by rw [← hbits] at halign; exact halign)).2 ?_
    exact (countP_const b.bmBits (fun i hi => hclear i (by rw [← hbits]; exact hi))).symm

theorem Inv.changeBits (h : Inv s) {lo hi : Nat} {val : Bool} (hfew : FewFlips s.toDrbdBitmap lo hi val) :
    Inv { s with toDrbdBitmap := (bmChangeBitsTo s.toDrbdBitmap lo hi val).1 } :=
  h.change (bmBits_bmChangeBitsTo s.toDrbdBitmap lo hi val) (h.counted.bmChangeBitsTo hfew)
    (Marks.bmChangeBitsTo s.toDrbdBitmap lo hi val)

/-- An operation that only adds bits. -/
theorem Inv.gains {new} (h : Inv s) (hg : Gains s.toDrbdBitmap b' new) (hmarks : Marks s.toDrbdBitmap b') :
    Inv { s with toDrbdBitmap := b' } :=
  h.change hg.bits (hg.counted h.counted) hmarks

theorem Inv.mergeLel (h : Inv s) {offset : Nat} {buffer : List (BitVec 64)}
    (hin : offset + buffer.length ≤ s.bmWords) :
    Inv { s with toDrbdBitmap := drbdBmMergeLel s.toDrbdBitmap offset buffer } ∧
      ∀ i, (drbdBmMergeLel s.toDrbdBitmap offset buffer).bit i
        = ((decide (offset ≤ i / 64) && (buffer.getD (i / 64 - offset) 0).getLsbD (i % 64)) || s.bit i) := by
  have hg := Gains.mergeBuffer s.toDrbdBitmap buffer hin
  have hlen : ∀ i, (decide (offset ≤ i / 64 ∧ i / 64 < offset + buffer.length)
        && (buffer.getD (i / 64 - offset) 0).getLsbD (i % 64))
      = (decide (offset ≤ i / 64) && (buffer.getD (i / 64 - offset) 0).getLsbD (i % 64)) := by
    intro i
    by_cases hlo : offset ≤ i / 64
    · by_cases hhi : i / 64 < offset + buffer.length
      · rw [decide_eq_true ⟨hlo, hhi⟩, decide_eq_true hlo]
      · rw [List.getD_eq_getElem?_getD, List.getElem?_eq_none (by omega), Option.getD_none,
          getLsbD_zero_eq _ (Nat.mod_lt _ (by decide)), Bool.and_false,
          Bool.and_false]
    · rw [decide_eq_false hlo, decide_eq_false fun h => hlo h.1]
  have hmerge : drbdBmMergeLel s.toDrbdBitmap offset buffer = mergeWords s.toDrbdBitmap offset buffer := by
    unfold drbdBmMergeLel
    split
    · rename_i hnil
      rw [hnil]
      rfl
    · dsimp only
      split
      · rw [bmClearSurplus_aligned (by rw [hg.bits]; exact h.word_aligned)]
        rfl
      · rfl
  rw [hmerge]
  exact ⟨h.gains hg (Marks.mergeWords s.toDrbdBitmap offset buffer), fun i => by rw [hg.bit i, hlen i]⟩

/-! ## Resizing -/

theorem setWord_zero {w : Nat} (h : b.word w = 0) : b.setWord w 0 = b := by
  rw [DrbdBitmap.setWord, ← h, Function.update_eq_self]

theorem countP_range_add (p : Nat → Bool) (m n : Nat) :
    (List.range (m + n)).countP p = (List.range m).countP p + (List.range n).countP fun i => p (m + i) := by
  rw [List.range_add, List.countP_append, List.countP_map]
  rfl

/-- Reallocating keeps the words there were. -/
theorem word_bmReallocPages (b : DrbdBitmap) (page : Nat → BitVec 64) {w : Nat} (hw : w < b.bmWords) :
    (bmReallocPages b page).word w = b.word w := by
  refine if_pos ?_
  unfold DrbdBitmap.bmNumberOfPages
  omega

theorem testPageUnchanged_bmReallocPages (b : DrbdBitmap) (page : Nat → BitVec 64) {w : Nat} (hw : w < b.bmWords) :
    (bmReallocPages b page).testPageUnchanged (w / 512) = b.testPageUnchanged (w / 512) := by
  have hin : w / 512 < b.bmNumberOfPages := by unfold DrbdBitmap.bmNumberOfPages; omega
  simp [DrbdBitmap.testPageUnchanged, bmReallocPages, hin]

/-- The bitmap after a resize holds what it held before, and what the new blocks got. -/
structure Resized (b b' : DrbdBitmap) (bits : Nat) (new : Bool) : Prop where
  len : b'.bmBits = bits
  bit : ∀ i, i < bits → b'.bit i = if i < b.bmBits then b.bit i else new
  counted : Counted b'
  unchanged : ∀ w, w < b'.bmWords → b'.testPageUnchanged (w / 512) = true →
    w < b.bmWords ∧ b.testPageUnchanged (w / 512) = true ∧ b'.word w = b.word w

theorem Resized.grow {bits : Nat} {new : Bool} {page : Nat → BitVec 64} (hcount : Counted b)
    (hold : b.bmBits % 64 = 0) (hbits : bits % 64 = 0) (hlt : b.bmBits < bits) :
    Resized b (bmResizeTo b bits new page) bits new := by
  obtain ⟨c, hc⟩ : ∃ c : BitVec 64, c = if new then BitVec.allOnes 64 else 0 := ⟨_, rfl⟩
  have hcbit : ∀ k < 64, c.getLsbD k = new := by
    rw [hc]
    cases new with
    | true => exact getLsbD_allOnes_eq
    | false => exact getLsbD_zero_eq
  obtain ⟨n, hn⟩ : ∃ n : DrbdBitmap, n = { bmReallocPages b page with bmBits := bits } := ⟨_, rfl⟩
  have hnbits : n.bmBits = bits := by rw [hn]
  have hnwords : n.bmWords = bits / 64 := by unfold DrbdBitmap.bmWords; rw [hnbits]; omega
  have hbwords : b.bmWords = b.bmBits / 64 := by unfold DrbdBitmap.bmWords; omega
  have hin : b.bmWords + (n.bmWords - b.bmWords) ≤ n.bmWords := by omega
  obtain ⟨m, hm⟩ : ∃ m, m = bmMemset n b.bmWords c (n.bmWords - b.bmWords) := ⟨_, rfl⟩
  have hmbits : m.bmBits = bits := by rw [hm, bmBits_bmMemset, hnbits]
  have hmset : m.bmSet = b.bmSet := by rw [hm, bmSet_bmMemset, hn]; rfl
  have hbit : ∀ i, i < bits → m.bit i = if i < b.bmBits then b.bit i else new := by
    intro i hi
    rw [hm, bit_bmMemset n hcbit hin i]
    by_cases hlow : i < b.bmBits
    · rw [if_neg (by omega), if_pos hlow, hn]
      show ((bmReallocPages b page).word (i / 64)).getLsbD (i % 64) = _
      rw [word_bmReallocPages b page (by omega)]
      rfl
    · rw [if_pos (by omega), if_neg hlow]
  have hresult : bmResizeTo b bits new page = { m with bmSet := b.bmSet + if new then bits - b.bmBits else 0 } := by
    unfold bmResizeTo
    simp only [bmSetSurplus_aligned hold, ite_self, if_pos hlt, ← hn]
    cases new with
    | true =>
        simp only [if_true] at hc ⊢
        rw [← hc, ← hm, bmClearSurplus_aligned (by rw [← hmbits] at hbits; exact hbits)]
    | false =>
        simp only [Bool.false_eq_true, if_false, Nat.add_zero] at hc ⊢
        rw [← hc, ← hm, bmClearSurplus_aligned (by rw [hmbits]; exact hbits), ← hmset]
  rw [hresult]
  refine ⟨hmbits, hbit, ?_, fun w hw hp => ?_⟩
  · refine (counted_iff (by rw [← hmbits] at hbits; exact hbits)).2 ?_
    show _ = (List.range m.bmBits).countP m.bit
    rw [hmbits, ← Nat.add_sub_cancel' (Nat.le_of_lt hlt), countP_range_add, Nat.add_sub_cancel_left,
      countP_const (v := new) (bits - b.bmBits) (fun i hi => by rw [hbit _ (by omega), if_neg (by omega)])]
    show b.bmSet + _ = _
    rw [(counted_iff hold).1 hcount]
    congr 1
    refine List.countP_congr fun i hi => ?_
    have hi := List.mem_range.1 hi
    rw [hbit i (by omega), if_pos hi]
  · have hw : w < m.bmWords := hw
    have hp : m.testPageUnchanged (w / 512) = true := hp
    rw [hm] at hp
    obtain ⟨hflag, hout, hword⟩ := bmMemset_unchanged hin hp
    have hwords : m.bmWords = n.bmWords := DrbdBitmap.bmWords_congr (hmbits.trans hnbits.symm)
    have hlow : w < b.bmWords := by omega
    refine ⟨hlow, ?_, ?_⟩
    · rw [hn] at hflag
      rw [← testPageUnchanged_bmReallocPages b page hlow]
      exact hflag
    · show m.word w = b.word w
      rw [hm, hword, hn]
      exact word_bmReallocPages b page hlow

/-- Shrinking recounts; the last word survives only if it has nothing to lose. -/
theorem Resized.shrink {bits : Nat} {new : Bool} {page : Nat → BitVec 64}
    (hold : b.bmBits % 64 = 0) (hbits : bits % 64 = 0) (hpos : bits ≠ 0) (hlt : bits < b.bmBits)
    (hlast : b.word (bits / 64 - 1) = 0) :
    Resized b (bmResizeTo b bits new page) bits new := by
  obtain ⟨n, hn⟩ : ∃ n : DrbdBitmap, n = { bmReallocPages b page with bmBits := bits } := ⟨_, rfl⟩
  have hnbits : n.bmBits = bits := by rw [hn]
  have hnwords : n.bmWords = bits / 64 := by unfold DrbdBitmap.bmWords; rw [hnbits]; omega
  have hbwords : b.bmWords = b.bmBits / 64 := by unfold DrbdBitmap.bmWords; omega
  have hword : ∀ w, w < n.bmWords → n.word w = b.word w := by
    intro w hw
    rw [hn]
    exact word_bmReallocPages b page (by omega)
  have hnlast : n.word (n.bmBits / 64 - 1) = 0 := by
    rw [hnbits, hword _ (by omega), hlast]
  obtain ⟨hcount, hn'⟩ := bmCountBits_eq (b := n) (by rw [hnbits]; exact hbits) (by rw [hnbits]; exact hpos)
  rw [setWord_zero hnlast] at hcount hn'
  have hresult : bmResizeTo b bits new page = { n with bmSet := n.weight } := by
    have hle : ¬ b.bmBits < bits := by omega
    unfold bmResizeTo
    simp only [hle, false_and, and_false, if_false, ← hn]
    rw [bmClearSurplus_aligned (by rw [hnbits]; exact hbits)]
    simp only [hcount, hn']
  rw [hresult]
  refine ⟨hnbits, fun i hi => ?_, counted_of_weight (b := n) rfl rfl rfl, fun w hw hp => ?_⟩
  · rw [if_pos (by omega)]
    show (n.word (i / 64)).getLsbD (i % 64) = _
    rw [hword _ (by omega)]
    rfl
  · have hw : w < n.bmWords := hw
    refine ⟨by omega, ?_, hword w hw⟩
    rw [← testPageUnchanged_bmReallocPages b page (show w < b.bmWords by omega)]
    have hp : n.testPageUnchanged (w / 512) = true := hp
    rw [hn] at hp
    exact hp

end Drbd.Bitmap
