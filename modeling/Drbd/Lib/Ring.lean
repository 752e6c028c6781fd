import Mathlib.Data.Nat.ModEq
import Mathlib.Data.Set.Function
import Mathlib.Order.Interval.Set.Defs

/-!
# Positions on a ring

Entry `a + i` of a sequence stands at position `(a + i) % n`. Less than one turn apart, positions tell
the entries apart, and stepping from one position to the other counts the entries between them. The positions
may be dealt out to stripes.
-/

namespace Drbd.Lib

variable {n a i j : Nat}

theorem ring_inj (hij : i ≤ j) (hlt : j < i + n) (h : (a + i) % n = (a + j) % n) : i = j := by
  have hmod : (j - i) % n = 0 := by
    rw [show j - i = a + j - (a + i) by omega]
    exact Nat.sub_mod_eq_zero_of_mod_eq h.symm
  rw [Nat.mod_eq_of_lt (by omega)] at hmod
  omega

/-- The way from one position on to a later one, unrolled past the end of the ring. -/
theorem ring_span (hij : i ≤ j) (hlt : j < i + n) :
    (if (a + j) % n < (a + i) % n then (a + j) % n + n else (a + j) % n) = (a + i) % n + (j - i) := by
  have hn : 0 < n := by omega
  have hx : (a + i) % n < n := Nat.mod_lt _ hn
  have hy : (a + j) % n = ((a + i) % n + (j - i)) % n := by
    rw [Nat.mod_add_mod, show a + i + (j - i) = a + j by omega]
  rw [hy]
  by_cases hturn : (a + i) % n + (j - i) < n
  · rw [Nat.mod_eq_of_lt hturn, if_neg (by omega)]
  · rw [Nat.mod_eq_sub_mod (by omega), Nat.mod_eq_of_lt (by omega), if_pos (by omega)]
    omega

/-! ## A counter that wraps around -/

/-- Entries numbered by a counter of `w` values keep their positions apart for a turn of the ring, unless the counter
wraps around within the turn and `w` is no multiple of it. -/
theorem ring_counter_inj_iff {w : Nat} (ha : a < w) (hn : n ≤ w) :
    (∀ i < n, ∀ j < n, (a + i) % w % n = (a + j) % w % n → i = j) ↔ a + n ≤ w ∨ n ∣ w := by
  constructor
  · intro hinj
    by_contra hnot
    push Not at hnot
    obtain ⟨hwrap, hdvd⟩ := hnot
    have hpos : 0 < w % n := Nat.pos_of_ne_zero fun h => hdvd (Nat.dvd_of_mod_eq_zero h)
    have hlt : w % n < n := Nat.mod_lt _ (by omega)
    have hdiv := Nat.div_add_mod w n
    generalize w / n = q, w % n = r at hpos hlt hdiv
    -- `w - a` numbers are left before the wrap: an early number after it meets one of them
    rcases Nat.lt_or_ge (w - a) r with hfew | hmany
    · have hmeet := hinj 0 (by omega) r hlt (by
        rw [Nat.add_zero, Nat.mod_eq_of_lt ha, show a = (r - (w - a)) + n * q by omega, Nat.add_mul_mod_self_left,
          show r - (w - a) + n * q + r = (r - (w - a)) + w by omega, Nat.add_mod_right,
          Nat.mod_eq_of_lt (show r - (w - a) < w by omega)])
      omega
    · have hmeet := hinj (w - a - r) (by omega) (w - a) (by omega) (by
        rw [show a + (w - a - r) = n * q by omega, show a + (w - a) = w by omega, Nat.mod_self, Nat.zero_mod,
          Nat.mod_eq_of_lt (show n * q < w by omega), Nat.mul_mod_right])
      omega
  · intro h i hi j hj heq
    have hring : (a + i) % n = (a + j) % n := by
      rcases h with hfits | hdvd
      · rwa [Nat.mod_eq_of_lt (show a + i < w by omega), Nat.mod_eq_of_lt (show a + j < w by omega)] at heq
      · rwa [Nat.mod_mod_of_dvd _ hdvd, Nat.mod_mod_of_dvd _ hdvd] at heq
    rcases Nat.le_total i j with hij | hij
    · exact ring_inj hij (by omega) hring
    · exact (ring_inj hij (by omega) hring.symm).symm

/-! ## Stripes -/

/-- Where position `t` is when positions are dealt out in turn to `m` stripes of `k`, one stripe after the other. -/
def stripe (m k t : Nat) : Nat := t % m * k + t / m

variable {m k t : Nat}

theorem stripe_lt (ht : t < m * k) : stripe m k t < m * k := by
  have hm : 0 < m := Nat.pos_of_ne_zero (by rintro rfl; omega)
  have hq : t / m < k := Nat.div_lt_of_lt_mul ht
  have hr : t % m < m := Nat.mod_lt t hm
  calc t % m * k + t / m < t % m * k + k := Nat.add_lt_add_left hq _
    _ = (t % m + 1) * k := by rw [Nat.succ_mul]
    _ ≤ m * k := Nat.mul_le_mul_right _ hr

/-- Dealing out the other way round undoes it. -/
theorem stripe_stripe (ht : t < m * k) : stripe k m (stripe m k t) = t := by
  have hq : t / m < k := Nat.div_lt_of_lt_mul ht
  unfold stripe
  rw [Nat.mul_comm (t % m) k, Nat.mul_add_mod, Nat.mod_eq_of_lt hq, Nat.mul_add_div (Nat.zero_lt_of_lt hq),
    Nat.div_eq_of_lt hq, Nat.add_zero, Nat.mul_comm]
  exact Nat.div_add_mod t m

theorem stripe_inj {t' : Nat} (ht : t < m * k) (ht' : t' < m * k) (h : stripe m k t = stripe m k t') : t = t' := by
  rw [← stripe_stripe ht, h, stripe_stripe ht']

theorem stripe_bijOn (m k : Nat) : Set.BijOn (stripe m k) (Set.Iio (m * k)) (Set.Iio (m * k)) := by
  refine ⟨fun t ht => stripe_lt ht, fun t ht t' ht' h => stripe_inj ht ht' h, fun t ht => ?_⟩
  rw [Set.mem_Iio, Nat.mul_comm] at ht
  refine ⟨stripe k m t, ?_, stripe_stripe ht⟩
  rw [Set.mem_Iio, Nat.mul_comm]
  exact stripe_lt ht

end Drbd.Lib
