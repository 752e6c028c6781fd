import Drbd.Bitmap.Defs

/-!
# What the bitmap operations do to single bits
-/

namespace Drbd.Bitmap

variable {b : DrbdBitmap}

/-! ## One bit -/

@[simp] theorem DrbdBitmap.bit_setPageNeedWriteout {page i} :
    (b.setPageNeedWriteout page).bit i = b.bit i := rfl

@[simp] theorem DrbdBitmap.bit_setPageLazyWriteout {page i} :
    (b.setPageLazyWriteout page).bit i = b.bit i := rfl

theorem DrbdBitmap.bmWords_congr {b' : DrbdBitmap} (h : b'.bmBits = b.bmBits) :
    b'.bmWords = b.bmWords := by
  rw [bmWords, bmWords, h]

theorem DrbdBitmap.word_setWord (w : Nat) (x : BitVec 64) (i : Nat) :
    (b.setWord w x).word i = if i = w then x else b.word i := by
  by_cases h : i = w
  · subst h; simp [setWord]
  · simp [setWord, h]

theorem DrbdBitmap.bit_putBit (i : Nat) (val : Bool) (j : Nat) :
    (b.putBit i val).bit j = if j = i then val else b.bit j := by
  have hi : i % 64 < 64 := Nat.mod_lt _ (by decide)
  have hj : j % 64 < 64 := Nat.mod_lt _ (by decide)
  by_cases hw : j / 64 = i / 64
  · have hmod : i % 64 = j % 64 ↔ j = i := by omega
    by_cases hji : j = i
    · subst hji
      cases val <;> simp [putBit, setWord, bit, hi]
    · have hne : j % 64 ≠ i % 64 := fun h => hji (hmod.1 h.symm)
      cases val <;> simp [putBit, setWord, bit, hw, hji, hne, hj]
  · have hji : j ≠ i := fun h => hw (by rw [h])
    simp [putBit, setWord, bit, hw, hji]

/-! ## The loop over a range -/

theorem ChangeLoop.bit_leavePage (l : ChangeLoop) (i : Nat) : l.leavePage.b.bit i = l.b.bit i := by
  unfold leavePage
  split
  · rfl
  · dsimp only
    split
    · simp
    · split <;> simp

theorem ChangeLoop.bmBits_leavePage (l : ChangeLoop) : l.leavePage.b.bmBits = l.b.bmBits := by
  unfold leavePage
  split
  · rfl
  · dsimp only
    split
    · rfl
    · split <;> rfl

theorem ChangeLoop.bit_change (val : Bool) (l : ChangeLoop) (n i : Nat) :
    (l.change val n).b.bit i = if i = n then val else l.b.bit i := by
  simp only [change, DrbdBitmap.bit_putBit]
  split
  · rfl
  · split
    · rfl
    · exact l.bit_leavePage i

theorem ChangeLoop.bmBits_change (val : Bool) (l : ChangeLoop) (n : Nat) :
    (l.change val n).b.bmBits = l.b.bmBits := by
  simp only [change, DrbdBitmap.putBit, DrbdBitmap.setWord]
  split
  · rfl
  · exact l.bmBits_leavePage

theorem ChangeLoop.bit_foldl (val : Bool) (ns : List Nat) (l : ChangeLoop) (i : Nat) :
    (ns.foldl (change val) l).b.bit i = if i ∈ ns then val else l.b.bit i := by
  induction ns generalizing l with
  | nil => simp
  | cons n ns ih =>
      rw [List.foldl_cons, ih, bit_change]
      by_cases hin : i ∈ ns <;> by_cases hi : i = n <;> simp [hin, hi]

theorem ChangeLoop.bmBits_foldl (val : Bool) (ns : List Nat) (l : ChangeLoop) :
    (ns.foldl (change val) l).b.bmBits = l.b.bmBits := by
  induction ns generalizing l with
  | nil => rfl
  | cons n ns ih => rw [List.foldl_cons, ih, bmBits_change]

theorem bmBits_bmChangeBitsTo (b : DrbdBitmap) (s e : Nat) (val : Bool) :
    (bmChangeBitsTo b s e val).1.bmBits = b.bmBits := by
  unfold bmChangeBitsTo
  split
  · rfl
  · simp [ChangeLoop.bmBits_leavePage, ChangeLoop.bmBits_foldl]

/-- The part of the range within the bitmap is written, everything else is left as it was. -/
theorem bit_bmChangeBitsTo_cut (b : DrbdBitmap) (s e : Nat) (val : Bool) (i : Nat) :
    (bmChangeBitsTo b s e val).1.bit i = if s ≤ i ∧ i < min (e + 1) b.bmBits then val else b.bit i := by
  have hbit : ∀ (b' : DrbdBitmap) (n : Nat), ({ b' with bmSet := n } : DrbdBitmap).bit i = b'.bit i :=
    fun _ _ => rfl
  by_cases hzero : b.bmBits = 0
  · rw [bmChangeBitsTo, if_pos hzero, if_neg (by omega)]
  simp only [bmChangeBitsTo, if_neg hzero, hbit, ChangeLoop.bit_leavePage, ChangeLoop.bit_foldl]
  refine if_congr ?_ rfl rfl
  rw [List.mem_range'_1]
  split <;> omega

/-- The range is written, everything else is left as it was. -/
theorem bit_bmChangeBitsTo (b : DrbdBitmap) (s e : Nat) (val : Bool) {i : Nat}
    (hi : i < b.bmBits ∨ e < b.bmBits) :
    (bmChangeBitsTo b s e val).1.bit i = if s ≤ i ∧ i ≤ e then val else b.bit i := by
  rw [bit_bmChangeBitsTo_cut]
  exact if_congr (by omega) rfl rfl

@[simp] theorem bmBits_drbdBmSetBits (b : DrbdBitmap) (s e : Nat) :
    (drbdBmSetBits b s e).1.bmBits = b.bmBits := bmBits_bmChangeBitsTo b s e true

@[simp] theorem bmBits_drbdBmClearBits (b : DrbdBitmap) (s e : Nat) :
    (drbdBmClearBits b s e).1.bmBits = b.bmBits := bmBits_bmChangeBitsTo b s e false

theorem bit_drbdBmSetBits (b : DrbdBitmap) (s e : Nat) {i : Nat} (hi : i < b.bmBits) :
    (drbdBmSetBits b s e).1.bit i = (decide (s ≤ i ∧ i ≤ e) || b.bit i) := by
  rw [drbdBmSetBits, bit_bmChangeBitsTo b s e true (.inl hi)]
  by_cases h : s ≤ i ∧ i ≤ e <;> simp [h]

theorem bit_drbdBmClearBits (b : DrbdBitmap) (s e : Nat) {i : Nat} (hi : i < b.bmBits) :
    (drbdBmClearBits b s e).1.bit i = (!decide (s ≤ i ∧ i ≤ e) && b.bit i) := by
  have h := bit_bmChangeBitsTo b s e false (.inl hi)
  rw [drbdBmClearBits, h]
  by_cases h : s ≤ i ∧ i ≤ e <;> simp [h]

end Drbd.Bitmap
