import Drbd.Vli.Defs

/-!
# Codes read back

A code is found again in any word that begins with its bits.
-/

namespace Drbd.Vli

/-! ## The code table -/

theorem land_mask (x : Nat) {t : Nat} (ht : t ≤ 64) : x &&& (ullMax >>> (64 - t)) = x % 2 ^ t := by
  have hmask : ullMax >>> (64 - t) = 2 ^ t - 1 := by
    apply Nat.eq_of_testBit_eq
    intro i
    rw [Nat.testBit_shiftRight, ullMax, Nat.testBit_two_pow_sub_one, Nat.testBit_two_pow_sub_one]
    exact decide_eq_decide.2 (by omega)
  rw [hmask, Nat.and_two_pow_sub_one_eq_mod]

/-- A later level's leading bits are never taken for an earlier one's. -/
def Distinguishes (l l' : Level) : Prop :=
  l.b ≤ l'.b ∧ l'.v % 2 ^ l.b ≠ l.v

def Level.Ok (l : Level) : Prop :=
  l.v < 2 ^ l.b ∧ l.b < l.t ∧ l.t ≤ 64

instance (l l' : Level) : Decidable (Distinguishes l l') := inferInstanceAs (Decidable (_ ∧ _))
instance (l : Level) : Decidable l.Ok := inferInstanceAs (Decidable (_ ∧ _ ∧ _))

theorem levels_pairwise : levels.Pairwise Distinguishes := by decide

theorem levels_ok : ∀ l ∈ levels, l.Ok := by decide

theorem shiftLeft_or_mod (x b v : Nat) (hv : v < 2 ^ b) : (x <<< b ||| v) % 2 ^ b = v := by
  rw [← Nat.shiftLeft_add_eq_or_of_lt hv, Nat.shiftLeft_eq, Nat.mul_add_mod_of_lt hv]

theorem encodeLevels_mem {ls inp max adj code t} (h : encodeLevels inp ls max adj = .ok (code, t))
    (hok : ∀ l ∈ ls, l.Ok) : ∃ l ∈ ls, code % 2 ^ l.b = l.v ∧ t = l.t := by
  induction ls generalizing max adj with
  | nil => cases h
  | cons l ls ih =>
      unfold encodeLevels at h
      dsimp only at h
      split at h
      · cases h
        exact ⟨l, List.mem_cons_self, shiftLeft_or_mod _ _ _ (hok l List.mem_cons_self).1, rfl⟩
      · obtain ⟨l', hl', hcode⟩ := ih h (fun l hl => hok l (List.mem_cons_of_mem _ hl))
        exact ⟨l', List.mem_cons_of_mem _ hl', hcode⟩

/-- Whatever follows the code, decoding gives the value and the length of the code. -/
theorem decodeLevels_encodeLevels {ls inp max code t} (hpair : ls.Pairwise Distinguishes)
    (hok : ∀ l ∈ ls, l.Ok) (hinp : max < inp)
    (h : encodeLevels inp ls max (max + 1) = .ok (code, t)) {y : Nat} (hy : y % 2 ^ t = code) :
    decodeLevels y ls (max + 1) = some (inp, t) := by
  induction ls generalizing max with
  | nil => cases h
  | cons l ls ih =>
      obtain ⟨hdist, hpair⟩ := List.pairwise_cons.1 hpair
      obtain ⟨hv, hbt, ht⟩ := hok l List.mem_cons_self
      have hmask : y &&& (1 <<< l.b - 1) = y % 2 ^ l.b := by
        rw [Nat.shiftLeft_eq, Nat.one_mul, Nat.and_two_pow_sub_one_eq_mod]
      unfold encodeLevels at h
      unfold decodeLevels
      dsimp only at h
      rw [hmask]
      split at h
      · -- this level: the code is the offset above the leading bits
        cases h
        have hlow : y % 2 ^ l.b = l.v := by
          rw [← Nat.mod_mod_of_dvd y (pow_dvd_pow 2 (Nat.le_of_lt hbt)), hy, shiftLeft_or_mod _ _ _ hv]
        rw [if_pos hlow, land_mask y ht, hy, ← Nat.shiftLeft_add_eq_or_of_lt hv, Nat.shiftRight_eq_div_pow,
          Nat.shiftLeft_eq, Nat.add_comm (_ * _), Nat.add_mul_div_right _ _ (Nat.two_pow_pos _),
          Nat.div_eq_of_lt hv]
        congr 2
        omega
      · rename_i hmore
        obtain ⟨l', hl', hcode, rfl⟩ :=
          encodeLevels_mem h (fun l hl => hok l (List.mem_cons_of_mem _ hl))
        obtain ⟨hle, hne⟩ := hdist l' hl'
        have hlt := (hok l' (List.mem_cons_of_mem _ hl')).2.1
        have hskip : y % 2 ^ l.b ≠ l.v := by
          rw [← Nat.mod_mod_of_dvd y (pow_dvd_pow 2 (show l.b ≤ l'.t by omega)), hy,
            ← Nat.mod_mod_of_dvd code (pow_dvd_pow 2 hle), hcode]
          exact hne
        rw [if_neg hskip, show max + 1 + 1 <<< (l.t - l.b) = max + 1 <<< (l.t - l.b) + 1 by omega]
        exact ih hpair (fun l hl => hok l (List.mem_cons_of_mem _ hl)) (by omega) h

theorem vliDecodeBits_of_code {inp code t y} (h : vliCode inp = .ok (code, t)) (hy : y % 2 ^ t = code) :
    vliDecodeBits y = some (inp, t) := by
  unfold vliCode at h
  split at h
  · cases h
  · exact decodeLevels_encodeLevels levels_pairwise levels_ok (by omega) h hy

theorem encodeLevels_lt {ls inp max} (hok : ∀ l ∈ ls, l.Ok) (hinp : max < inp)
    (hsum : inp ≤ max + (ls.map fun l => 2 ^ (l.t - l.b)).sum) :
    ∃ code t, encodeLevels inp ls max (max + 1) = .ok (code, t) ∧ code < 2 ^ t := by
  induction ls generalizing max with
  | nil => simp only [List.map_nil, List.sum_nil] at hsum; omega
  | cons l ls ih =>
      obtain ⟨hv, hbt, ht⟩ := hok l List.mem_cons_self
      have hone : (1 : Nat) <<< (l.t - l.b) = 2 ^ (l.t - l.b) := by rw [Nat.shiftLeft_eq, Nat.one_mul]
      simp only [List.map_cons, List.sum_cons] at hsum
      unfold encodeLevels
      dsimp only
      rw [hone]
      split
      · refine ⟨_, _, rfl, ?_⟩
        have hoff : inp - (max + 1) < 2 ^ (l.t - l.b) := by omega
        refine Nat.or_lt_two_pow ?_ (lt_of_lt_of_le hv (Nat.pow_le_pow_right (by decide) (by omega)))
        calc (inp - (max + 1)) <<< l.b = (inp - (max + 1)) * 2 ^ l.b := Nat.shiftLeft_eq _ _
          _ < 2 ^ (l.t - l.b) * 2 ^ l.b := Nat.mul_lt_mul_of_pos_right hoff (Nat.two_pow_pos _)
          _ = 2 ^ l.t := by rw [← Nat.pow_add, Nat.sub_add_cancel (by omega)]
      · exact ih (fun l hl => hok l (List.mem_cons_of_mem _ hl)) (by omega) (by omega)

theorem decodeLevels_bounds {ls inp adj out t} (hok : ∀ l ∈ ls, l.Ok)
    (h : decodeLevels inp ls adj = some (out, t)) :
    adj ≤ out ∧ out < adj + (ls.map fun l => 2 ^ (l.t - l.b)).sum := by
  induction ls generalizing adj with
  | nil => cases h
  | cons l ls ih =>
      obtain ⟨_, hbt, ht⟩ := hok l List.mem_cons_self
      simp only [List.map_cons, List.sum_cons]
      unfold decodeLevels at h
      split at h
      · cases h
        have hlt : inp % 2 ^ l.t / 2 ^ l.b < 2 ^ (l.t - l.b) := by
          rw [Nat.div_lt_iff_lt_mul (Nat.two_pow_pos _), ← Nat.pow_add, Nat.sub_add_cancel (by omega)]
          exact Nat.mod_lt _ (Nat.two_pow_pos _)
        rw [land_mask inp ht, Nat.shiftRight_eq_div_pow]
        generalize inp % 2 ^ l.t / 2 ^ l.b = x at hlt ⊢
        generalize 2 ^ (l.t - l.b) = n at hlt ⊢
        omega
      · have := ih (fun l hl => hok l (List.mem_cons_of_mem _ hl)) h
        rw [Nat.shiftLeft_eq, Nat.one_mul] at this
        generalize 2 ^ (l.t - l.b) = n at this ⊢
        omega

/-- What is decoded is a run length, and far from wrapping a position. -/
theorem vliDecodeBits_bounds {inp out t} (h : vliDecodeBits inp = some (out, t)) : 0 < out ∧ out < 2 ^ 57 := by
  have hbounds := decodeLevels_bounds levels_ok h
  exact ⟨hbounds.1, lt_trans hbounds.2 (by decide)⟩

/-- Every run length that a bitmap can have is coded, in at most 64 bits. -/
theorem vliCode_ok {inp : Nat} (hpos : 0 < inp) (hmax : inp ≤ 2 ^ 56) :
    ∃ code t, vliCode inp = .ok (code, t) ∧ code < 2 ^ t ∧ 2 ≤ t ∧ t ≤ 64 := by
  have hsum : inp ≤ 0 + (levels.map fun l => 2 ^ (l.t - l.b)).sum :=
    le_trans hmax (by decide)
  obtain ⟨code, t, hcode, hlt⟩ := encodeLevels_lt levels_ok hpos hsum
  obtain ⟨l, hl, _, rfl⟩ := encodeLevels_mem hcode levels_ok
  have hlen : ∀ l ∈ levels, 2 ≤ l.t ∧ l.t ≤ 64 := by decide
  refine ⟨code, l.t, ?_, hlt, (hlen l hl).1, (hlen l hl).2⟩
  rw [vliCode, if_neg (by omega)]
  exact hcode

end Drbd.Vli
