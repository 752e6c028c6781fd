import Drbd.Bitmap.Lemmas.Weight

/-!
# The bits a range flips

The weight moves by the number of bits that a range flips, and the count moves with it as long as an
`int` holds that number.
-/

namespace Drbd.Bitmap

open Finset Lib

variable {b b' : DrbdBitmap} {s e : Nat}

/-! ## The weight, bit by bit -/

theorem sum_range_mul (f : Nat → Nat) (m n : Nat) :
    ∑ i ∈ range (n * m), f i = ∑ w ∈ range n, ∑ k ∈ range m, f (w * m + k) := by
  induction n with
  | zero => rw [Nat.zero_mul, sum_range_zero, sum_range_zero]
  | succ n ih => rw [Nat.add_mul, Nat.one_mul, sum_range_add, sum_range_succ, ih]

theorem weight_eq_sum (b : DrbdBitmap) :
    b.weight = ∑ i ∈ range (b.bmWords * 64), (b.bit i).toNat := by
  rw [sum_range_mul, DrbdBitmap.weight]
  refine sum_congr rfl fun w _ => ?_
  rw [hweightLong_eq_sum]
  refine sum_congr rfl fun k hk => ?_
  have hk : k < 64 := mem_range.1 hk
  rw [DrbdBitmap.bit, show (w * 64 + k) / 64 = w by omega, show (w * 64 + k) % 64 = k by omega]

/-- The bits counted in a range are those of the whole bitmap that lie in it. -/
theorem countP_range' {n s m : Nat} (p : Nat → Bool) (hm : m ≤ n) :
    (List.range' s (m - s)).countP p
      = (List.range n).countP fun i => p i && decide (s ≤ i ∧ i < m) := by
  by_cases hsm : s < m
  · have hsplit : List.range n = List.range' 0 s ++ (List.range' s (m - s) ++ List.range' m (n - m)) := by
      rw [List.range_eq_range', show n = s + ((m - s) + (n - m)) by omega, ← List.range'_append_1,
        ← List.range'_append_1]
      simp only [Nat.zero_add]
      rw [show s + (m - s) = m by omega, show s + (m - s + (n - m)) - m = n - m by omega]
    have hout : ∀ l : List Nat, (∀ i ∈ l, ¬ (s ≤ i ∧ i < m)) →
        l.countP (fun i => p i && decide (s ≤ i ∧ i < m)) = 0 := by
      intro l hl
      refine List.countP_eq_zero.2 fun i hi => ?_
      simp [hl i hi]
    rw [hsplit, List.countP_append, List.countP_append,
      hout (List.range' 0 s) fun i hi => by rw [List.mem_range'_1] at hi; omega,
      hout (List.range' m _) fun i hi => by rw [List.mem_range'_1] at hi; omega, Nat.zero_add, Nat.add_zero]
    refine List.countP_congr fun i hi => ?_
    rw [List.mem_range'_1] at hi
    rw [decide_eq_true (show s ≤ i ∧ i < m by omega), Bool.and_true]
  · rw [show m - s = 0 by omega]
    symm
    refine List.countP_eq_zero.2 fun i _ => ?_
    rw [decide_eq_false (by omega)]
    simp

/-! ## Flips -/

/-- The set bits from `s` to `e`, as far as the bitmap goes. -/
def setBitsIn (b : DrbdBitmap) (s e : Nat) : Nat :=
  (List.range' s (min (e + 1) b.bmBits - s)).countP b.bit

/-- The clear bits from `s` to `e`, as far as the bitmap goes. -/
def clearBitsIn (b : DrbdBitmap) (s e : Nat) : Nat :=
  (List.range' s (min (e + 1) b.bmBits - s)).countP fun i => !b.bit i

theorem bmBits_le_bmWords (b : DrbdBitmap) : b.bmBits ≤ b.bmWords * 64 := by
  unfold DrbdBitmap.bmWords
  omega

/-- Setting gains the clear bits. -/
theorem weight_set (b : DrbdBitmap) (s e : Nat) :
    (bmChangeBitsTo b s e true).1.weight = b.weight + clearBitsIn b s e := by
  have hin : min (e + 1) b.bmBits ≤ b.bmWords * 64 := le_trans (min_le_right _ _) (bmBits_le_bmWords b)
  rw [weight_eq_sum, weight_eq_sum, DrbdBitmap.bmWords_congr (bmBits_bmChangeBitsTo b s e true), clearBitsIn,
    countP_range' _ hin, countP_range_eq_sum, ← sum_add_distrib]
  refine sum_congr rfl fun i _ => ?_
  rw [bit_bmChangeBitsTo_cut]
  by_cases h : s ≤ i ∧ i < min (e + 1) b.bmBits
  · rw [if_pos h, decide_eq_true h]
    cases b.bit i <;> rfl
  · rw [if_neg h, decide_eq_false h]
    cases b.bit i <;> rfl

/-- Clearing loses the set bits. -/
theorem weight_clear (b : DrbdBitmap) (s e : Nat) :
    (bmChangeBitsTo b s e false).1.weight + setBitsIn b s e = b.weight := by
  have hin : min (e + 1) b.bmBits ≤ b.bmWords * 64 := le_trans (min_le_right _ _) (bmBits_le_bmWords b)
  rw [weight_eq_sum, weight_eq_sum, DrbdBitmap.bmWords_congr (bmBits_bmChangeBitsTo b s e false), setBitsIn,
    countP_range' _ hin, countP_range_eq_sum, ← sum_add_distrib]
  refine sum_congr rfl fun i _ => ?_
  rw [bit_bmChangeBitsTo_cut]
  by_cases h : s ≤ i ∧ i < min (e + 1) b.bmBits
  · rw [if_pos h, decide_eq_true h]
    cases b.bit i <;> rfl
  · rw [if_neg h, decide_eq_false h]
    cases b.bit i <;> rfl

/-! ## The count -/

/-- An `int` holds the number of bits that a call flips. -/
def FewFlips (b : DrbdBitmap) (s e : Nat) : Bool → Prop
  | true => clearBitsIn b s e < 2 ^ 31
  | false => setBitsIn b s e ≤ 2 ^ 31

/-- A short range flips few bits. -/
theorem FewFlips.short (b : DrbdBitmap) (hlen : e < s + (2 ^ 31 - 1)) (val : Bool) : FewFlips b s e val := by
  have hcount : ∀ p : Nat → Bool, (List.range' s (min (e + 1) b.bmBits - s)).countP p < 2 ^ 31 := by
    intro p
    have hle := List.countP_le_length (p := p) (l := List.range' s (min (e + 1) b.bmBits - s))
    rw [List.length_range'] at hle
    omega
  cases val with
  | true => exact hcount _
  | false => exact Nat.le_of_lt (hcount _)

/-- The count has moved with the weight. -/
def Recounted (b b' : DrbdBitmap) : Prop :=
  (b'.bmSet + b.weight : Int) = b.bmSet + b'.weight

theorem Recounted.counted (h : Recounted b b') (hb : Counted b) : Counted b' := by
  unfold Recounted at h
  unfold Counted at hb ⊢
  omega

theorem Recounted.trans {b''} (h : Recounted b b') (h' : Recounted b' b'') : Recounted b b'' := by
  unfold Recounted at *
  omega

/-- With few flips the count moves by what the weight moves by. -/
theorem bmSet_bmChangeBitsTo {val : Bool} (hfew : FewFlips b s e val) :
    (bmChangeBitsTo b s e val).1.bmSet
      = addToCount b.bmSet (((bmChangeBitsTo b s e val).1.weight : Int) - b.weight) := by
  obtain ⟨htotal, hset⟩ := bmChangeBitsTo_total b s e val
  rw [hset, htotal]
  congr 1
  cases val with
  | true =>
      have hweight := weight_set b s e
      have hfew : clearBitsIn b s e < 2 ^ 31 := hfew
      exact signed_eq_self (by omega) (by omega)
  | false =>
      have hweight := weight_clear b s e
      have hfew : setBitsIn b s e ≤ 2 ^ 31 := hfew
      exact signed_eq_self (by omega) (by omega)

theorem Recounted.setBits (hfew : FewFlips b s e true) : Recounted b (bmChangeBitsTo b s e true).1 := by
  have hset := bmSet_bmChangeBitsTo hfew
  have hweight := weight_set b s e
  unfold addToCount at hset
  rw [if_pos (by omega)] at hset
  unfold Recounted
  omega

theorem Counted.bmChangeBitsTo {val : Bool} (h : Counted b) (hfew : FewFlips b s e val) :
    Counted (bmChangeBitsTo b s e val).1 := by
  have hset := bmSet_bmChangeBitsTo hfew
  unfold Counted at h ⊢
  unfold addToCount at hset
  rw [if_pos (by omega)] at hset
  omega

/-- The count stays right exactly if an `int` holds the flips. -/
theorem counted_bmChangeBitsTo_iff (h : Counted b) (hcap : b.bmBits ≤ 2 ^ 48) (s e : Nat) (val : Bool) :
    Counted (bmChangeBitsTo b s e val).1 ↔ FewFlips b s e val := by
  refine ⟨fun hcount => ?_, h.bmChangeBitsTo⟩
  obtain ⟨htotal, hset⟩ := bmChangeBitsTo_total b s e val
  have hflips : ∀ p : Nat → Bool, (List.range' s (min (e + 1) b.bmBits - s)).countP p ≤ 2 ^ 48 := by
    intro p
    have hle := List.countP_le_length (p := p) (l := List.range' s (min (e + 1) b.bmBits - s))
    rw [List.length_range'] at hle
    omega
  obtain ⟨total, htotal', hlow, hhigh⟩ : ∃ total, (bmChangeBitsTo b s e val).2 = total ∧
      -2 ^ 31 ≤ total ∧ total < 2 ^ 31 := ⟨_, htotal, le_signed 31 _, signed_lt 31 _⟩
  rw [htotal', addToCount] at hset
  unfold Counted at h hcount
  unfold unsigned at hset
  by_contra hmany
  cases val with
  | true =>
      have hweight := weight_set b s e
      have hmany : 2 ^ 31 ≤ clearBitsIn b s e := Nat.le_of_not_lt hmany
      have hle : clearBitsIn b s e ≤ 2 ^ 48 := hflips _
      split at hset <;> omega
  | false =>
      have hweight := weight_clear b s e
      have hmany : 2 ^ 31 < setBitsIn b s e := Nat.lt_of_not_le hmany
      have hle : setBitsIn b s e ≤ 2 ^ 48 := hflips _
      split at hset <;> omega

end Drbd.Bitmap
