import Mathlib.Algebra.BigOperators.Field
import Mathlib.Algebra.BigOperators.Fin
import Mathlib.Algebra.BigOperators.Intervals
import Mathlib.Algebra.Order.BigOperators.Group.Finset
import Mathlib.Algebra.Order.Field.Basic
import Mathlib.Tactic.FieldSimp
import Mathlib.Tactic.Linarith
import Mathlib.Tactic.Ring

/-!
# Moving means with an input

Each value is the mean of the `n` values before it, and a share of an input. However the input varies within its
bounds, one step moves the value by no more than five shares of the bound, for ever.
-/

namespace Drbd.Lib

open Finset

variable {K : Type*} [Field K]

/-- Starting from zeros, every value is the mean of the last `n`, and `a t / n` on top. -/
structure MovingMean (n : ℕ) (a x : ℕ → K) : Prop where
  zero : ∀ t < n, x t = 0
  mean : ∀ t, n * x (t + n) = ∑ k ∈ range n, x (t + k) + a t

/-- The moving mean of an input. -/
def movingMean (n : ℕ) (a : ℕ → K) (t : ℕ) : K :=
  if _h : n = 0 ∨ t < n then 0
  else (∑ k : Fin n, movingMean n a (t - n + k) + a (t - n)) / n
termination_by t
decreasing_by omega

/-- The answer to an input of one, once. -/
def impulse (n : ℕ) : ℕ → K := movingMean n fun t => if t = 0 then 1 else 0

variable {n : ℕ} {a x : ℕ → K}

theorem movingMean_spec [CharZero K] (hn : 0 < n) (a : ℕ → K) : MovingMean n a (movingMean n a) where
  zero t ht := by
    rw [movingMean, dif_pos (.inr ht)]
  mean t := by
    have hne : (n : K) ≠ 0 := Nat.cast_ne_zero.2 hn.ne'
    rw [movingMean, dif_neg (by omega), mul_div_cancel₀ _ hne, Nat.add_sub_cancel,
      Finset.sum_range fun k => movingMean n a (t + k)]

theorem impulse_spec [CharZero K] (hn : 0 < n) :
    MovingMean n (fun t => if t = 0 then (1 : K) else 0) (impulse n) := movingMean_spec hn _

/-! ## An answer to every input -/

/-- The recurrence of the impulse for a start at `s`. -/
theorem impulse_shift [CharZero K] (hn : 0 < n) (t s : ℕ) :
    n * impulse n (t + n - s) = ∑ k ∈ range n, impulse n (t + k - s) + if s = t then (1 : K) else 0 := by
  have h := impulse_spec (K := K) hn
  rcases Nat.lt_or_ge t s with hlt | hge
  · rw [h.zero (t + n - s) (by omega), Finset.sum_eq_zero fun k hk => h.zero (t + k - s)
      (by have := Finset.mem_range.1 hk; omega), if_neg (by omega), mul_zero, add_zero]
  · obtain ⟨r, rfl⟩ := Nat.exists_eq_add_of_le hge
    simp only [show ∀ k, s + r + k - s = r + k from fun k => by omega, h.mean r]
    congr 1
    by_cases hr : r = 0
    · rw [if_pos hr, if_pos (by omega)]
    · rw [if_neg hr, if_neg (by omega)]

/-- A moving mean is made of the answers to its inputs. -/
theorem MovingMean.eq_sum [CharZero K] (hn : 0 < n) (h : MovingMean n a x) {t N : ℕ} (hN : t < N + n) :
    x t = ∑ s ∈ range N, a s * impulse n (t - s) := by
  have hne : (n : K) ≠ 0 := Nat.cast_ne_zero.2 hn.ne'
  induction t using Nat.strong_induction_on with
  | _ t ih =>
      rcases Nat.lt_or_ge t n with hlt | hge
      · rw [h.zero t hlt]
        refine (Finset.sum_eq_zero fun s _ => ?_).symm
        rw [(impulse_spec hn).zero (t - s) (by omega), mul_zero]
      · obtain ⟨t, rfl⟩ := Nat.exists_eq_add_of_le' hge
        refine mul_left_cancel₀ hne ?_
        have hin : t ∈ range N := Finset.mem_range.2 (by omega)
        calc (n : K) * x (t + n) = ∑ k ∈ range n, x (t + k) + a t := h.mean t
          _ = ∑ k ∈ range n, ∑ s ∈ range N, a s * impulse n (t + k - s) + a t := by
              congr 1
              refine Finset.sum_congr rfl fun k hk => ?_
              have := Finset.mem_range.1 hk
              exact ih (t + k) (by omega) (by omega)
          _ = ∑ s ∈ range N, a s * (∑ k ∈ range n, impulse n (t + k - s) + if s = t then 1 else 0) := by
              simp only [mul_add, Finset.mul_sum, Finset.sum_add_distrib, mul_ite, mul_one, mul_zero]
              rw [Finset.sum_comm, Finset.sum_ite_eq', if_pos hin]
          _ = ∑ s ∈ range N, n * (a s * impulse n (t + n - s)) := by
              refine Finset.sum_congr rfl fun s _ => ?_
              rw [← impulse_shift hn t s]
              ring
          _ = n * ∑ s ∈ range N, a s * impulse n (t + n - s) := (Finset.mul_sum ..).symm

/-! ## The impulse settles -/

/-- The steps of the impulse. -/
def impulseStep (K : Type*) [Field K] (n t : ℕ) : K := impulse n (t + 1) - impulse n t

theorem sum_impulseStep (t m : ℕ) : ∑ k ∈ range m, impulseStep K n (t + k) = impulse n (t + m) - impulse n t :=
  Finset.sum_range_sub (fun k => impulse (K := K) n (t + k)) m

section

variable [LinearOrder K] [IsStrictOrderedRing K]

theorem impulse_bounds (hn : 0 < n) (t : ℕ) : 0 ≤ impulse (K := K) n t ∧ impulse (K := K) n t ≤ 1 / n := by
  have h := impulse_spec (K := K) hn
  have hpos : (0 : K) < n := Nat.cast_pos.2 hn
  have hshare : (0 : K) ≤ 1 / n := by positivity
  induction t using Nat.strong_induction_on with
  | _ t ih =>
      rcases Nat.lt_or_ge t n with hlt | hge
      · rw [h.zero t hlt]
        exact ⟨le_refl _, hshare⟩
      · obtain ⟨t, rfl⟩ := Nat.exists_eq_add_of_le' hge
        have hmean := h.mean t
        by_cases ht : t = 0
        · have hsum : ∑ k ∈ range n, impulse (K := K) n (t + k) = 0 :=
            Finset.sum_eq_zero fun k hk => h.zero _ (by have := Finset.mem_range.1 hk; omega)
          rw [hsum, if_pos ht, zero_add] at hmean
          have hvalue : impulse (K := K) n (t + n) = 1 / n := by
            rw [eq_div_iff hpos.ne', mul_comm]
            exact hmean
          rw [hvalue]
          exact ⟨hshare, le_refl _⟩
        · rw [if_neg ht, add_zero] at hmean
          have hlow : (0 : K) ≤ ∑ k ∈ range n, impulse n (t + k) :=
            Finset.sum_nonneg fun k hk => (ih (t + k) (by have := Finset.mem_range.1 hk; omega)).1
          have hhigh : ∑ k ∈ range n, impulse n (t + k) ≤ n * (1 / n : K) := by
            refine (Finset.sum_le_card_nsmul _ _ (1 / n : K) fun k hk =>
              (ih (t + k) (by have := Finset.mem_range.1 hk; omega)).2).trans_eq ?_
            rw [Finset.card_range, nsmul_eq_mul]
          rw [← hmean] at hlow hhigh
          exact ⟨nonneg_of_mul_nonneg_right hlow hpos, le_of_mul_le_mul_left hhigh hpos⟩

/-- After the impulse, a step is the mean of the `n` before it. -/
theorem impulseStep_mean (hn : 0 < n) {t : ℕ} (ht : 0 < t) :
    n * impulseStep K n (t + n) = impulse n (t + n) - impulse n t := by
  have h := impulse_spec (K := K) hn
  have hhere := h.mean t
  have hnext := h.mean (t + 1)
  rw [if_neg (by omega), add_zero] at hhere
  rw [if_neg (by omega), add_zero] at hnext
  unfold impulseStep
  rw [mul_sub, show t + n + 1 = t + 1 + n by omega, hnext, hhere, ← Finset.sum_sub_distrib]
  rw [← sum_impulseStep t n]
  exact Finset.sum_congr rfl fun k _ => by rw [impulseStep, show t + 1 + k = t + k + 1 by omega]

/-- Weighted by their age, the last `n` steps balance. -/
theorem weighted_impulseStep (hn : 0 < n) {t : ℕ} (ht : 0 < t) :
    ∑ k ∈ range n, ((k : K) + 1) * impulseStep K n (t + k) = 0 := by
  have hmean := (impulse_spec (K := K) hn).mean t
  rw [if_neg (by omega), add_zero] at hmean
  have hparts : ∀ m : ℕ, ∑ k ∈ range m, ((k : K) + 1) * impulseStep K n (t + k) =
      m * impulse n (t + m) - ∑ k ∈ range m, impulse n (t + k) := by
    intro m
    induction m with
    | zero => simp
    | succ m ih =>
        rw [Finset.sum_range_succ, ih, Finset.sum_range_succ]
        unfold impulseStep
        push_cast
        rw [← Nat.add_assoc]
        ring
  rw [hparts n, hmean, sub_self]

/-- The weighted size of the last `n` steps. -/
def unrest (K : Type*) [Field K] [LinearOrder K] (n t : ℕ) : K :=
  ∑ k ∈ range n, ((k : K) + 1) * |impulseStep K n (t + k)|

/-- Every step is paid for by what the unrest loses. -/
theorem impulseStep_le_unrest (hn : 0 < n) {t : ℕ} (ht : 0 < t) :
    |impulseStep K n (t + n)| ≤ unrest K n t - unrest K n (t + 1) := by
  have hpos : (0 : K) < n := Nat.cast_pos.2 hn
  generalize hstep : impulseStep K n = d
  have hmean : n * d (t + n) = ∑ k ∈ range n, d (t + k) := by
    rw [← hstep, sum_impulseStep]
    exact impulseStep_mean hn ht
  have hweighted : ∑ k ∈ range n, ((k : K) + 1) * d (t + k) = 0 := by
    rw [← hstep]
    exact weighted_impulseStep hn ht
  -- moving on by one takes each of the `n` steps off once, and puts the new one on `n` times
  have hmove : unrest K n (t + 1) = unrest K n t - ∑ k ∈ range n, |d (t + k)| + n * |d (t + n)| := by
    unfold unrest
    rw [hstep]
    have hsucc := Finset.sum_range_succ (fun k => (k : K) * |d (t + k)|) n
    rw [Finset.sum_range_succ'] at hsucc
    push_cast at hsucc
    rw [zero_mul, add_zero] at hsucc
    calc ∑ k ∈ range n, ((k : K) + 1) * |d (t + 1 + k)|
        = ∑ k ∈ range n, ((k : K) + 1) * |d (t + (k + 1))| :=
          Finset.sum_congr rfl fun k _ => by rw [show t + 1 + k = t + (k + 1) by omega]
      _ = ∑ k ∈ range n, (k : K) * |d (t + k)| + n * |d (t + n)| := hsucc
      _ = ∑ k ∈ range n, ((k : K) + 1) * |d (t + k)| - ∑ k ∈ range n, |d (t + k)| + n * |d (t + n)| := by
          rw [← Finset.sum_sub_distrib]
          congr 1
          exact Finset.sum_congr rfl fun k _ => by ring
  -- the weights leave less than `n` of `n + 1` parts of the sum
  have hpart : ((n : K) + 1) * |∑ k ∈ range n, d (t + k)| ≤ n * ∑ k ∈ range n, |d (t + k)| := by
    have hsum : ((n : K) + 1) * ∑ k ∈ range n, d (t + k) = ∑ k ∈ range n, ((n : K) - k) * d (t + k) := by
      rw [← sub_zero (((n : K) + 1) * ∑ k ∈ range n, d (t + k)), ← hweighted, Finset.mul_sum,
        ← Finset.sum_sub_distrib]
      exact Finset.sum_congr rfl fun k _ => by ring
    rw [← abs_of_pos (show (0 : K) < n + 1 by positivity), ← abs_mul, hsum, Finset.mul_sum]
    refine (Finset.abs_sum_le_sum_abs _ _).trans (Finset.sum_le_sum fun k hk => ?_)
    have hk : (k : K) ≤ n := Nat.cast_le.2 (Finset.mem_range.1 hk).le
    rw [abs_mul, abs_of_nonneg (sub_nonneg.2 hk)]
    exact mul_le_mul_of_nonneg_right (by linarith [Nat.cast_nonneg (α := K) k]) (abs_nonneg _)
  have hsize : (n : K) * |d (t + n)| = |∑ k ∈ range n, d (t + k)| := by
    rw [← hmean, abs_mul, abs_of_pos hpos]
  rw [← hsize] at hpart
  have hshare : ((n : K) + 1) * |d (t + n)| ≤ ∑ k ∈ range n, |d (t + k)| :=
    le_of_mul_le_mul_left (by linarith) hpos
  rw [hmove]
  linarith

/-- The steps after the first two turns add up to the unrest at most. -/
theorem sum_late_le (hn : 0 < n) {t : ℕ} (ht : 0 < t) (m : ℕ) :
    ∑ j ∈ range m, |impulseStep K n (t + j + n)| ≤ unrest K n t := by
  have hleft : ∑ j ∈ range m, |impulseStep K n (t + j + n)| ≤ unrest K n t - unrest K n (t + m) := by
    induction m with
    | zero => simp
    | succ m ih =>
        rw [Finset.sum_range_succ]
        have hstep := impulseStep_le_unrest (K := K) hn (show 0 < t + m by omega)
        rw [show t + (m + 1) = t + m + 1 by omega]
        linarith
  have hnonneg : 0 ≤ unrest K n (t + m) := by
    unfold unrest
    exact Finset.sum_nonneg fun k _ => by positivity
  linarith

/-- All in all, the impulse moves by no more than `5 / n`. -/
theorem sum_impulseStep_le (hn : 0 < n) (m : ℕ) : ∑ t ∈ range m, |impulseStep K n t| ≤ 5 / n := by
  have h := impulse_spec (K := K) hn
  have hpos : (0 : K) < n := Nat.cast_pos.2 hn
  have hbounds := fun t => impulse_bounds (K := K) hn t
  obtain ⟨p, rfl⟩ : ∃ p, n = p + 1 := ⟨n - 1, by omega⟩
  -- up to the impulse
  have hfirst : ∑ t ∈ range (p + 1), |impulseStep K (p + 1) t| ≤ 1 / ((p + 1 : ℕ) : K) := by
    have heq : ∀ t ∈ range (p + 1), |impulseStep K (p + 1) t| = impulseStep K (p + 1) (0 + t) := by
      intro t ht
      rw [Nat.zero_add]
      unfold impulseStep
      rw [h.zero t (Finset.mem_range.1 ht), sub_zero, abs_of_nonneg (hbounds _).1]
    rw [Finset.sum_congr rfl heq, sum_impulseStep, h.zero 0 hn, sub_zero]
    exact (hbounds _).2
  have hdrop : |impulseStep K (p + 1) (p + 1)| ≤ 1 / ((p + 1 : ℕ) : K) := by
    unfold impulseStep
    rw [abs_le]
    have h1 := hbounds (p + 1)
    have h2 := hbounds (p + 1 + 1)
    constructor <;> linarith
  -- from there it rises until the impulse leaves the window
  have hrise : ∀ j < p, 0 ≤ impulseStep K (p + 1) (p + 1 + (j + 1)) := by
    intro j hj
    have hmean := impulseStep_mean (K := K) hn (show 0 < j + 1 by omega)
    rw [h.zero (j + 1) (by omega), sub_zero, show j + 1 + (p + 1) = p + 1 + (j + 1) by omega] at hmean
    refine nonneg_of_mul_nonneg_right ?_ hpos
    rw [hmean]
    exact (hbounds _).1
  have hsecond : ∑ j ∈ range p, |impulseStep K (p + 1) (p + 1 + (j + 1))| ≤ 1 / ((p + 1 : ℕ) : K) := by
    have heq : ∀ j ∈ range p, |impulseStep K (p + 1) (p + 1 + (j + 1))| =
        impulseStep K (p + 1) (p + 1 + 1 + j) := by
      intro j hj
      rw [abs_of_nonneg (hrise j (Finset.mem_range.1 hj)), show p + 1 + (j + 1) = p + 1 + 1 + j by omega]
    rw [Finset.sum_congr rfl heq, sum_impulseStep]
    have h1 := (hbounds (p + 1 + 1)).1
    have h2 := (hbounds (p + 1 + 1 + p)).2
    linarith
  have hunrest : unrest K (p + 1) (p + 1) ≤ 2 * (1 / ((p + 1 : ℕ) : K)) := by
    have hweighted := weighted_impulseStep (K := K) hn hn
    unfold unrest
    rw [Finset.sum_range_succ'] at hweighted ⊢
    have heq : ∀ j ∈ range p, (((j + 1 : ℕ) : K) + 1) * |impulseStep K (p + 1) (p + 1 + (j + 1))| =
        (((j + 1 : ℕ) : K) + 1) * impulseStep K (p + 1) (p + 1 + (j + 1)) := fun j hj => by
      rw [abs_of_nonneg (hrise j (Finset.mem_range.1 hj))]
    rw [Finset.sum_congr rfl heq]
    simp only [Nat.cast_zero, zero_add, one_mul, Nat.add_zero] at hweighted ⊢
    have hneg := neg_abs_le (impulseStep K (p + 1) (p + 1))
    linarith
  have hall : ∑ t ∈ range (p + 1 + 1 + p + m), |impulseStep K (p + 1) t| ≤ 5 / ((p + 1 : ℕ) : K) := by
    rw [Finset.sum_range_add, Finset.sum_range_add, Finset.sum_range_succ]
    have hlate := sum_late_le (K := K) hn hn m
    have e1 : ∑ x ∈ range p, |impulseStep K (p + 1) (p + 1 + 1 + x)| =
        ∑ j ∈ range p, |impulseStep K (p + 1) (p + 1 + (j + 1))| :=
      Finset.sum_congr rfl fun j _ => by rw [show p + 1 + 1 + j = p + 1 + (j + 1) by omega]
    have e2 : ∑ x ∈ range m, |impulseStep K (p + 1) (p + 1 + 1 + p + x)| =
        ∑ j ∈ range m, |impulseStep K (p + 1) (p + 1 + j + (p + 1))| :=
      Finset.sum_congr rfl fun j _ => by rw [show p + 1 + 1 + p + j = p + 1 + j + (p + 1) by omega]
    rw [e1, e2]
    have hfive : (5 : K) / ((p + 1 : ℕ) : K) = 5 * (1 / ((p + 1 : ℕ) : K)) := by ring
    rw [hfive]
    linarith
  have hsub : range m ⊆ range (p + 1 + 1 + p + m) := Finset.range_subset_range.2 (by omega)
  have hmono : ∑ t ∈ range m, |impulseStep K (p + 1) t| ≤ ∑ t ∈ range (p + 1 + 1 + p + m), |impulseStep K (p + 1) t| :=
    Finset.sum_le_sum_of_subset_of_nonneg hsub fun _ _ _ => abs_nonneg _
  exact hmono.trans hall

/-- Whatever the bounded input, a step is at most five shares of its bound. -/
theorem MovingMean.step_le (hn : 0 < n) (h : MovingMean n a x) {t : ℕ} {B : K} (hB : ∀ s ≤ t, |a s| ≤ B) :
    |x (t + n) - x (t + n - 1)| ≤ 5 * B / n := by
  have hB0 : 0 ≤ B := (abs_nonneg _).trans (hB 0 (Nat.zero_le t))
  have hsum : x (t + n) - x (t + n - 1) = ∑ s ∈ range (t + 1), a s * impulseStep K n (t + n - 1 - s) := by
    rw [h.eq_sum hn (show t + n < t + 1 + n by omega), h.eq_sum hn (show t + n - 1 < t + 1 + n by omega),
      ← Finset.sum_sub_distrib]
    refine Finset.sum_congr rfl fun s hs => ?_
    have := Finset.mem_range.1 hs
    unfold impulseStep
    rw [mul_sub, show t + n - 1 - s + 1 = t + n - s by omega]
  rw [hsum]
  calc |∑ s ∈ range (t + 1), a s * impulseStep K n (t + n - 1 - s)|
      ≤ ∑ s ∈ range (t + 1), |a s * impulseStep K n (t + n - 1 - s)| := Finset.abs_sum_le_sum_abs _ _
    _ ≤ ∑ s ∈ range (t + 1), B * |impulseStep K n (t + n - 1 - s)| := by
        refine Finset.sum_le_sum fun s hs => ?_
        rw [abs_mul]
        exact mul_le_mul_of_nonneg_right (hB s (by have := Finset.mem_range.1 hs; omega)) (abs_nonneg _)
    _ = B * ∑ s ∈ range (t + 1), |impulseStep K n (t + n - 1 - s)| := (Finset.mul_sum ..).symm
    _ = B * ∑ j ∈ range (t + 1), |impulseStep K n (n - 1 + j)| := by
        rw [← Finset.sum_range_reflect]
        congr 1
        refine Finset.sum_congr rfl fun j hj => ?_
        have := Finset.mem_range.1 hj
        rw [show t + n - 1 - (t + 1 - 1 - j) = n - 1 + j by omega]
    _ ≤ B * ∑ j ∈ range (n - 1 + (t + 1)), |impulseStep K n j| := by
        have hfirst : (0 : K) ≤ ∑ j ∈ range (n - 1), |impulseStep K n j| :=
          Finset.sum_nonneg fun j _ => abs_nonneg (impulseStep K n j)
        refine mul_le_mul_of_nonneg_left ?_ hB0
        rw [Finset.sum_range_add (fun j => |impulseStep K n j|) (n - 1) (t + 1)]
        exact le_add_of_nonneg_left hfirst
    _ ≤ B * (5 / n) := mul_le_mul_of_nonneg_left (sum_impulseStep_le hn _) hB0
    _ = 5 * B / n := by ring

/-- Over a whole window it moves by no more than five times the bound. -/
theorem MovingMean.span_le (hn : 0 < n) (h : MovingMean n a x) {t k : ℕ} {B : K} (hB : ∀ s ≤ t, |a s| ≤ B)
    (hk : k ≤ n) : |x (t + n) - x (t + k)| ≤ 5 * B := by
  have hB0 : 0 ≤ B := (abs_nonneg _).trans (hB 0 (Nat.zero_le t))
  have hpos : (0 : K) < n := Nat.cast_pos.2 hn
  have hshare : 0 ≤ 5 * B / n := by positivity
  have hback : ∀ j ≤ n, |x (t + n) - x (t + n - j)| ≤ j * (5 * B / n) := by
    intro j
    induction j with
    | zero => simp
    | succ j ih =>
        intro hj
        have hstep : |x (t + n - j) - x (t + n - j - 1)| ≤ 5 * B / n := by
          rcases Nat.lt_or_ge t j with hlt | hge
          · rw [h.zero _ (show t + n - j < n by omega), h.zero _ (show t + n - j - 1 < n by omega), sub_zero, abs_zero]
            exact hshare
          · rw [show t + n - j = t - j + n by omega]
            exact h.step_le hn fun s hs => hB s (by omega)
        calc |x (t + n) - x (t + n - (j + 1))|
            ≤ |x (t + n) - x (t + n - j)| + |x (t + n - j) - x (t + n - j - 1)| := abs_sub_le _ _ _
          _ ≤ j * (5 * B / n) + 5 * B / n := add_le_add (ih (by omega)) hstep
          _ = (j + 1 : ℕ) * (5 * B / n) := by push_cast; ring
  have hspan := hback (n - k) (by omega)
  rw [show t + n - (n - k) = t + k by omega] at hspan
  calc |x (t + n) - x (t + k)| ≤ (n - k : ℕ) * (5 * B / n) := hspan
    _ ≤ n * (5 * B / n) := mul_le_mul_of_nonneg_right (Nat.cast_le.2 (Nat.sub_le n k)) hshare
    _ = 5 * B := mul_div_cancel₀ _ hpos.ne'

end

end Drbd.Lib
