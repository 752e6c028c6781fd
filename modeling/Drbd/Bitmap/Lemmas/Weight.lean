import Drbd.Bitmap.Lemmas.Bits
import Mathlib.Algebra.BigOperators.Intervals
import Mathlib.Algebra.Order.BigOperators.Group.Finset

/-!
# `bm_set` counts the set bits

Each operation that writes a word accounts for the change of its weight, so the count stays right
whatever the range is made of: single bits, full words or merged words.
-/

namespace Drbd.Bitmap

open Finset Lib

variable {b b' : DrbdBitmap}

/-- The number of set bits in all words of the bitmap. -/
def DrbdBitmap.weight (b : DrbdBitmap) : Nat :=
  ∑ w ∈ range b.bmWords, hweightLong (b.word w)

def Counted (b : DrbdBitmap) : Prop :=
  b.bmSet = b.weight

/-! ## Weights of words -/

theorem countP_range_eq_sum (p : Nat → Bool) (n : Nat) :
    (List.range n).countP p = ∑ i ∈ range n, (p i).toNat := by
  induction n with
  | zero => rfl
  | succ n ih =>
      rw [List.range_succ, List.countP_append, ih, sum_range_succ]
      cases h : p n <;> simp [h]

theorem hweightLong_eq_sum (w : BitVec 64) : hweightLong w = ∑ i ∈ range 64, (w.getLsbD i).toNat :=
  countP_range_eq_sum _ _

theorem hweightLong_le (w : BitVec 64) : hweightLong w ≤ 64 := by
  have h := List.countP_le_length (p := w.getLsbD) (l := List.range 64)
  rwa [List.length_range] at h

theorem hweightLong_allOnes : hweightLong (BitVec.allOnes 64) = 64 := by decide

theorem hweightLong_or_le (x y : BitVec 64) : hweightLong x ≤ hweightLong (x ||| y) := by
  simp only [hweightLong_eq_sum]
  refine sum_le_sum fun i _ => ?_
  rw [BitVec.getLsbD_or]
  cases x.getLsbD i <;> simp

/-- A mask splits the weight. -/
theorem hweightLong_mask (x m : BitVec 64) :
    hweightLong (x &&& m) + hweightLong (x &&& ~~~m) = hweightLong x := by
  simp only [hweightLong_eq_sum, ← sum_add_distrib]
  refine sum_congr rfl fun i hi => ?_
  have hi : i < 64 := mem_range.1 hi
  simp only [BitVec.getLsbD_and, BitVec.getLsbD_not, hi, decide_true, Bool.true_and]
  cases x.getLsbD i <;> cases m.getLsbD i <;> rfl

theorem hweightLong_set (x : BitVec 64) {k : Nat} (hk : k < 64) :
    hweightLong (x ||| BitVec.twoPow 64 k) = hweightLong x + if x.getLsbD k then 0 else 1 := by
  have hmem : k ∈ range 64 := mem_range.2 hk
  simp only [hweightLong_eq_sum]
  rw [← add_sum_erase _ _ hmem, ← add_sum_erase _ (fun i => (x.getLsbD i).toNat) hmem]
  have hrest : ∑ i ∈ (range 64).erase k, ((x ||| BitVec.twoPow 64 k).getLsbD i).toNat
      = ∑ i ∈ (range 64).erase k, (x.getLsbD i).toNat := by
    refine sum_congr rfl fun i hi => ?_
    have hne : k ≠ i := fun h => (mem_erase.1 hi).1 h.symm
    simp [BitVec.getLsbD_or, BitVec.getLsbD_twoPow, hne]
  rw [hrest, BitVec.getLsbD_or, BitVec.getLsbD_twoPow]
  cases x.getLsbD k
  · simp [hk]; omega
  · simp [hk]

theorem hweightLong_clear (x : BitVec 64) {k : Nat} (hk : k < 64) :
    hweightLong (x &&& ~~~BitVec.twoPow 64 k) + (if x.getLsbD k then 1 else 0) = hweightLong x := by
  have hone : hweightLong (x &&& BitVec.twoPow 64 k) = if x.getLsbD k then 1 else 0 := by
    simp only [hweightLong_eq_sum, BitVec.getLsbD_and, BitVec.getLsbD_twoPow]
    rw [sum_eq_single_of_mem k (mem_range.2 hk)]
    · cases x.getLsbD k <;> simp [hk]
    · intro i _ hne
      simp [Ne.symm hne]
  rw [← hone, add_comm]
  exact hweightLong_mask x _

/-! ## Writing one word -/

theorem weight_setWord (x : BitVec 64) {w : Nat} (hw : w < b.bmWords) :
    (b.setWord w x).weight + hweightLong (b.word w) = b.weight + hweightLong x := by
  have hmem : w ∈ range b.bmWords := mem_range.2 hw
  have hrest : ∑ i ∈ (range b.bmWords).erase w, hweightLong ((b.setWord w x).word i)
      = ∑ i ∈ (range b.bmWords).erase w, hweightLong (b.word i) := by
    refine sum_congr rfl fun i hi => ?_
    rw [DrbdBitmap.word_setWord, if_neg (mem_erase.1 hi).1]
  have h₁ := add_sum_erase (range b.bmWords) (fun i => hweightLong ((b.setWord w x).word i)) hmem
  have h₂ := add_sum_erase (range b.bmWords) (fun i => hweightLong (b.word i)) hmem
  have hself : (b.setWord w x).word w = x := by rw [DrbdBitmap.word_setWord, if_pos rfl]
  have hwords : (b.setWord w x).bmWords = b.bmWords := DrbdBitmap.bmWords_congr rfl
  have hsum : (b.setWord w x).weight = ∑ i ∈ range b.bmWords, hweightLong ((b.setWord w x).word i) := by
    rw [DrbdBitmap.weight, hwords]
  simp only [hself] at h₁
  rw [hsum, DrbdBitmap.weight]
  omega

theorem DrbdBitmap.word_lt_bmWords {i : Nat} (hi : i < b.bmBits) : i / 64 < b.bmWords := by
  unfold DrbdBitmap.bmWords
  omega

theorem weight_putBit {i : Nat} (val : Bool) (hi : i < b.bmBits) :
    ((b.putBit i val).weight : Int)
      = b.weight + (if val then (if b.bit i then 0 else 1) else (if b.bit i then -1 else 0)) := by
  have hk : i % 64 < 64 := Nat.mod_lt _ (by decide)
  have h := fun x => weight_setWord x (DrbdBitmap.word_lt_bmWords hi)
  unfold DrbdBitmap.putBit
  cases val with
  | true =>
      have hset := hweightLong_set (b.word (i / 64)) hk
      have h := h (b.word (i / 64) ||| BitVec.twoPow 64 (i % 64))
      simp only [if_true] at h ⊢
      cases hbit : b.bit i <;> simp only [DrbdBitmap.bit] at hbit <;> rw [hbit] at hset <;>
        simp only [Bool.false_eq_true, if_true, if_false] at hset ⊢ <;> omega
  | false =>
      have hclear := hweightLong_clear (b.word (i / 64)) hk
      have h := h (b.word (i / 64) &&& ~~~BitVec.twoPow 64 (i % 64))
      simp only [Bool.false_eq_true, if_false] at h ⊢
      cases hbit : b.bit i <;> simp only [DrbdBitmap.bit] at hbit <;> rw [hbit] at hclear <;>
        simp only [Bool.false_eq_true, if_true, if_false] at hclear ⊢ <;> omega

/-! ## The loop over a range -/

/-- What the loop has not yet accounted for. The total wraps, so it is kept up to a multiple of 2^32. -/
def ChangeLoop.debt (l : ChangeLoop) : Int :=
  l.b.weight - (l.changedTotal + l.c)

theorem ChangeLoop.leavePage_eq (l : ChangeLoop) :
    l.leavePage.c = 0 ∧ l.leavePage.changedTotal = signed 32 (l.changedTotal + l.c) ∧
      l.leavePage.b.word = l.b.word ∧ l.leavePage.b.bmSet = l.b.bmSet := by
  unfold leavePage
  split
  · exact ⟨rfl, rfl, rfl, rfl⟩
  · dsimp only
    split
    · exact ⟨rfl, rfl, rfl, rfl⟩
    · split <;> exact ⟨rfl, rfl, rfl, rfl⟩

theorem weight_congr (hbits : b'.bmBits = b.bmBits) (hword : b'.word = b.word) : b'.weight = b.weight := by
  rw [DrbdBitmap.weight, DrbdBitmap.weight, DrbdBitmap.bmWords_congr hbits, hword]

/-- Counting looks at the words only. -/
theorem counted_of_weight (hbits : b'.bmBits = b.bmBits) (hword : b'.word = b.word)
    (h : b'.bmSet = b.weight) : Counted b' := by
  rw [Counted, weight_congr hbits hword, h]

theorem ChangeLoop.debt_leavePage (l : ChangeLoop) : l.leavePage.debt % 2 ^ 32 = l.debt % 2 ^ 32 := by
  obtain ⟨hc, htotal, hword, _⟩ := l.leavePage_eq
  have hmod := signed_emod 32 (l.changedTotal + l.c)
  simp only [debt, weight_congr l.bmBits_leavePage hword, hc, htotal]
  omega

theorem ChangeLoop.debt_change (val : Bool) (l : ChangeLoop) {n : Nat} (hn : n < l.b.bmBits) :
    (l.change val n).debt % 2 ^ 32 = l.debt % 2 ^ 32 ∧ (l.change val n).b.bmSet = l.b.bmSet := by
  -- the page may be left first; either way the same bit is put
  have hput : ∀ l₁ : ChangeLoop, l₁.debt % 2 ^ 32 = l.debt % 2 ^ 32 → l₁.b.bmSet = l.b.bmSet →
      n < l₁.b.bmBits →
      ChangeLoop.debt { l₁ with
        b := l₁.b.putBit n val
        c := if val then (if l₁.b.bit n then l₁.c else l₁.c + 1)
          else (if l₁.b.bit n then l₁.c - 1 else l₁.c) } % 2 ^ 32 = l.debt % 2 ^ 32 ∧
        (l₁.b.putBit n val).bmSet = l.b.bmSet := by
    intro l₁ hdebt hset hn₁
    refine ⟨?_, hset⟩
    rw [← hdebt]
    simp only [debt, weight_putBit val hn₁]
    cases val <;> cases l₁.b.bit n <;> simp <;> omega
  unfold change
  dsimp only
  split
  · exact hput l rfl rfl hn
  · exact hput { l.leavePage with lastPage := _ } l.debt_leavePage l.leavePage_eq.2.2.2
      (by rw [l.bmBits_leavePage]; exact hn)

theorem ChangeLoop.debt_foldl (val : Bool) (ns : List Nat) (l : ChangeLoop)
    (hns : ∀ n ∈ ns, n < l.b.bmBits) :
    (ns.foldl (change val) l).debt % 2 ^ 32 = l.debt % 2 ^ 32 ∧
      (ns.foldl (change val) l).b.bmSet = l.b.bmSet := by
  induction ns generalizing l with
  | nil => exact ⟨rfl, rfl⟩
  | cons n ns ih =>
      obtain ⟨hdebt, hset⟩ := l.debt_change val (hns n List.mem_cons_self)
      obtain ⟨hdebt', hset'⟩ := ih (l.change val n) (fun m hm => by
        rw [bmBits_change]; exact hns m (List.mem_cons_of_mem _ hm))
      exact ⟨hdebt'.trans hdebt, hset'.trans hset⟩

/-- What a call returns and adds to the count is what the weight changes by, as an `int`. -/
theorem bmChangeBitsTo_total (b : DrbdBitmap) (s e : Nat) (val : Bool) :
    (bmChangeBitsTo b s e val).2 = signed 32 (((bmChangeBitsTo b s e val).1.weight : Int) - b.weight) ∧
      (bmChangeBitsTo b s e val).1.bmSet = addToCount b.bmSet (bmChangeBitsTo b s e val).2 := by
  unfold bmChangeBitsTo
  split
  · rw [Int.sub_self]
    exact ⟨rfl, rfl⟩
  dsimp only
  generalize hcut : (if b.bmBits ≤ e then b.bmBits - 1 else e) = e'
  have he' : e' < b.bmBits := by rw [← hcut]; split <;> omega
  generalize hl : (List.range' s (e' + 1 - s)).foldl (ChangeLoop.change val) ⟨b, none, 0, 0⟩ = l
  obtain ⟨hdebt, hset⟩ := ChangeLoop.debt_foldl val (List.range' s (e' + 1 - s)) ⟨b, none, 0, 0⟩
    (fun n hn => by rw [List.mem_range'_1] at hn; dsimp only; omega)
  rw [hl] at hdebt hset
  obtain ⟨_, htotal, hword, hset'⟩ := l.leavePage_eq
  have hweight : ({ l.leavePage.b with
      bmSet := addToCount l.leavePage.b.bmSet l.leavePage.changedTotal } : DrbdBitmap).weight
      = l.b.weight := weight_congr l.bmBits_leavePage hword
  refine ⟨?_, by rw [hset', hset]⟩
  rw [hweight, htotal]
  refine signed_congr ?_
  simp only [ChangeLoop.debt] at hdebt
  omega

end Drbd.Bitmap
