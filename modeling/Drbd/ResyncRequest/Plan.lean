import Drbd.ResyncRequest.Controller

/-!
# The plan stays small

The plan is a moving mean: each correction, spread over the plan, is what is missing less what is planned already.
So none of its sums comes near 32 bits, however the settings and the sectors that come in vary.
-/

namespace Drbd.ResyncRequest

open Lib

variable {fb plan : FifoBuffer} {hz : Nat} {dc : DiskConf} {rsInFlight : Int} {sectIn : Nat}

/-! ## The cyclic plan as a list -/

namespace FifoBuffer

theorem length_planned (fb : FifoBuffer) : fb.planned.length = fb.size := by
  have hlen := fb.length_values
  have hhead := fb.headIndex_lt
  rw [planned, List.length_append, List.length_drop, List.length_take, hlen]
  omega

theorem sum_planned (fb : FifoBuffer) : fb.planned.sum = fb.values.sum := by
  rw [planned, List.sum_append, Int.add_comm, ← List.sum_append, List.take_append_drop]

theorem fifoAddVal_planned (fb : FifoBuffer) (value : Int) :
    (fb.fifoAddVal value).planned = fb.planned.map fun v => signed 32 (v + value) := by
  rw [planned, planned, List.map_append, List.map_drop, List.map_take]
  rfl

/-- What is popped is the first value, and what is pushed will be the last. -/
theorem fifoPush_planned (fb : FifoBuffer) (h : 0 < fb.size) (value : Int) :
    ∃ rest, fb.planned = (fb.fifoPush value).1 :: rest ∧ (fb.fifoPush value).2.planned = rest ++ [value] := by
  have hhead : fb.headIndex < fb.values.length := by
    rw [fb.length_values]
    exact fb.headIndex_lt h
  have hset := List.set_eq_take_append_cons_drop (l := fb.values) (i := fb.headIndex) (a := value)
  rw [if_pos hhead] at hset
  refine ⟨fb.values.drop (fb.headIndex + 1) ++ fb.values.take fb.headIndex, ?_, ?_⟩
  · rw [planned, List.drop_eq_getElem_cons hhead, List.cons_append, fifoPush, List.getD_eq_getElem?_getD,
      List.getElem?_eq_getElem hhead, Option.getD_some]
  · unfold planned fifoPush
    dsimp only
    rw [hset]
    have htake : (fb.values.take fb.headIndex).length = fb.headIndex := List.length_take_of_le (Nat.le_of_lt hhead)
    split
    · rename_i hend
      rw [List.drop_zero, List.take_zero, List.append_nil,
        List.drop_eq_nil_of_le (show fb.values.length ≤ fb.headIndex + 1 by rw [fb.length_values]; exact hend),
        List.nil_append]
    · rw [List.drop_append, List.take_append, htake, List.drop_eq_nil_of_le (by omega),
        List.take_of_length_le (by omega),
        Nat.add_sub_cancel_left]
      simp

theorem planned_empty (fb : FifoBuffer) (h : ∀ v ∈ fb.values, v = 0) {k : Nat} (hk : k < fb.size) :
    fb.planned[k]? = some 0 := by
  have hlt : k < fb.planned.length := by rwa [length_planned]
  have hmem := List.getElem_mem hlt
  rw [List.getElem?_eq_getElem hlt, Option.some_inj]
  exact h _ ((List.mem_append.1 hmem).elim List.mem_of_mem_drop List.mem_of_mem_take)

end FifoBuffer

/-! ## The plan as a moving mean -/

/-- `want` less what is in flight, and what the division leaves, are within this. -/
def mostInput : Int := 253000000

/-- What comes into the mean at `s`. -/
def input (n : Nat) (x : Nat → Int) (s : Nat) : Int := n * x (s + n) - ∑ k ∈ Finset.range n, x (s + k)

/-- `x` is what the turns have corrected by so far, in all: after `t` turns a value of the plan is what was added since
it came in. -/
structure OnCourse (fb : FifoBuffer) (x : Nat → Int) (t : Nat) : Prop where
  zero : ∀ s < fb.size, x s = 0
  input : ∀ s < t, |input fb.size x s| ≤ mostInput
  planned : ∀ k < fb.size, fb.planned[k]? = some (x (t + fb.size - 1) - x (t + k))

theorem span_le {n t k : Nat} {x : Nat → Int} (hn : 0 < n) (hzero : ∀ s < n, x s = 0)
    (hinput : ∀ s ≤ t, |input n x s| ≤ mostInput) (hk : k ≤ n) : |x (t + n) - x (t + k)| ≤ 5 * mostInput := by
  have hmean : MovingMean n (fun s => (input n x s : ℚ)) (fun s => (x s : ℚ)) := by
    constructor
    · intro s hs
      rw [hzero s hs, Int.cast_zero]
    · intro s
      unfold input
      push_cast
      ring
  have hspan := hmean.span_le hn (t := t) (B := (mostInput : ℚ)) (fun s hs => by exact_mod_cast hinput s hs) hk
  exact_mod_cast hspan

/-- What the values add up to. -/
theorem OnCourse.sum {x : Nat → Int} {t : Nat} (h : OnCourse fb x t) :
    fb.values.sum = fb.size * x (t + fb.size - 1) - ∑ k ∈ Finset.range fb.size, x (t + k) := by
  have hplanned : fb.planned = (List.range fb.size).map fun k => x (t + fb.size - 1) - x (t + k) := by
    refine List.ext_getElem? fun k => ?_
    rcases Nat.lt_or_ge k fb.size with hk | hk
    · rw [h.planned k hk, List.getElem?_map, List.getElem?_range hk, Option.map_some]
    · rw [List.getElem?_eq_none (by rwa [fb.length_planned]), List.getElem?_eq_none (by simpa using hk)]
  rw [← fb.sum_planned, hplanned]
  change ∑ k ∈ Finset.range fb.size, (x (t + fb.size - 1) - x (t + k)) = _
  rw [Finset.sum_sub_distrib, Finset.sum_const, Finset.card_range, nsmul_eq_mul]

/-- The plan corrected by `cps` in each value, and the one of this turn taken off. -/
def FifoBuffer.correct (plan : FifoBuffer) (cps : Int) : Int × FifoBuffer :=
  let pushed := (plan.fifoAddVal cps).fifoPush 0
  (pushed.1, { pushed.2 with total := signed 32 (signed 32 (plan.total + signed 32 (cps * plan.size)) - pushed.1) })

/-- The invariant of the plan. -/
structure Planned (fb : FifoBuffer) : Prop where
  total : fb.total = fb.values.sum
  small : |fb.total| ≤ 6 * mostInput
  size : fb.size ≤ DRBD_C_PLAN_AHEAD_MAX
  course : ∃ x t, OnCourse fb x t

theorem Planned.empty (htotal : fb.total = 0) (hvalues : ∀ v ∈ fb.values, v = 0)
    (hsize : fb.size ≤ DRBD_C_PLAN_AHEAD_MAX) : Planned fb := by
  refine ⟨?_, ?_, hsize, fun _ => 0, 0, fun _ _ => rfl, fun s hs => absurd hs (Nat.not_lt_zero s), fun k hk => ?_⟩
  · rw [htotal, List.sum_eq_zero hvalues]
  · rw [htotal]
    decide
  · rw [fb.planned_empty hvalues hk, sub_zero]

/-- A correction by what is missing keeps the invariant. -/
theorem Planned.correct {cps : Int} (hP : Planned plan) (hn : 0 < plan.size)
    (hcps : |plan.total + cps * plan.size| ≤ mostInput) : Planned (plan.correct cps).2 := by
  obtain ⟨x, t, hx⟩ := hP.course
  have hsum := hx.sum
  rw [← hP.total] at hsum
  generalize hsize : plan.size = n at *
  -- the mean goes on with this turn's correction
  let x' : Nat → Int := fun s => if s < t + n then x s else x (t + n - 1) + cps
  have hold : ∀ s, s < t + n → x' s = x s := fun s hs => if_pos hs
  have hnew : x' (t + n) = x (t + n - 1) + cps := if_neg (Nat.lt_irrefl _)
  have hfront : ∑ k ∈ Finset.range n, x' (t + k) = ∑ k ∈ Finset.range n, x (t + k) :=
    Finset.sum_congr rfl fun k hk => hold _ (by have := Finset.mem_range.1 hk; omega)
  have hzero : ∀ s < n, x' s = 0 := fun s hs => by
    rw [hold s (by omega)]
    exact hx.zero s (by omega)
  have hnow : input n x' t = plan.total + cps * n := by
    unfold input
    rw [hnew, hfront, hsum]
    ring
  have hinput : ∀ s ≤ t, |input n x' s| ≤ mostInput := by
    intro s hs
    rcases Nat.lt_or_eq_of_le hs with hlt | rfl
    · have hsame : input n x' s = input plan.size x s := by
        unfold input
        rw [hsize, hold _ (by omega), Finset.sum_congr rfl fun k hk => hold (s + k) (by
          have := Finset.mem_range.1 hk
          omega)]
      rw [hsame]
      exact hx.input s hlt
    · rw [hnow]
      exact hcps
  have hspan : ∀ k ≤ n, |x' (t + n) - x' (t + k)| ≤ 5 * mostInput := fun k hk => span_le hn hzero hinput hk
  have hfits : ∀ k ≤ n, signed 32 (x' (t + n) - x' (t + k)) = x' (t + n) - x' (t + k) := fun k hk => by
    have := abs_le.1 (hspan k hk)
    unfold mostInput at this
    exact signed_eq_self (by omega) (by omega)
  have hadded : ∀ k < n, (plan.fifoAddVal cps).planned[k]? = some (x' (t + n) - x' (t + k)) := by
    intro k hk
    rw [plan.fifoAddVal_planned, List.getElem?_map, hx.planned k (by rwa [hsize]), Option.map_some, hsize,
      ← hfits k (by omega), hnew, hold _ (by omega)]
    congr 2
    ring
  -- what is popped, and what is left
  obtain ⟨rest, hpop, hpush⟩ := (plan.fifoAddVal cps).fifoPush_planned (by rwa [← hsize] at hn) 0
  have hcurr : ((plan.fifoAddVal cps).fifoPush 0).1 = x' (t + n) - x' t := by
    have hfirst := hadded 0 hn
    rw [hpop, List.getElem?_cons_zero, Option.some_inj] at hfirst
    exact hfirst
  have hrest : ∀ k, k + 1 < n → rest[k]? = some (x' (t + n) - x' (t + 1 + k)) := by
    intro k hk
    have hlater := hadded (k + 1) hk
    rwa [hpop, List.getElem?_cons_succ, show t + (k + 1) = t + 1 + k by omega] at hlater
  have hlen : rest.length + 1 = n := by
    have hlen := (plan.fifoAddVal cps).length_planned
    rw [hpop, List.length_cons] at hlen
    rw [← hsize]
    exact hlen
  have hcourse : OnCourse (plan.correct cps).2 x' (t + 1) := by
    have hsame : (plan.correct cps).2.size = n := hsize
    refine ⟨by rwa [hsame], fun s hs => by rw [hsame]; exact hinput s (by omega), fun k hk => ?_⟩
    rw [hsame] at hk ⊢
    change ((plan.fifoAddVal cps).fifoPush 0).2.planned[k]? = _
    rw [hpush, show t + 1 + n - 1 = t + n by omega]
    rcases Nat.lt_or_eq_of_le (Nat.le_of_lt_succ (hlen ▸ hk)) with hlt | rfl
    · rw [List.getElem?_append_left hlt]
      exact hrest k (by omega)
    · rw [List.getElem?_append_right (Nat.le_refl _), Nat.sub_self, show t + 1 + rest.length = t + n by omega, sub_self]
      rfl
  -- the total, with every step within 32 bits
  have htotal : (plan.correct cps).2.total = plan.total + cps * n - (x' (t + n) - x' t) := by
    have hsmall := abs_le.1 hP.small
    have hcps := abs_le.1 hcps
    have hcurr' := abs_le.1 (hspan 0 (Nat.zero_le n))
    unfold mostInput at hsmall hcps hcurr'
    rw [Nat.add_zero] at hcurr'
    change signed 32 (signed 32 (plan.total + signed 32 (cps * plan.size)) - ((plan.fifoAddVal cps).fifoPush 0).1) = _
    rw [hsize, hcurr, signed_eq_self (n := cps * n) (by omega) (by omega),
      signed_eq_self (n := plan.total + cps * n) (by omega) (by omega)]
    exact signed_eq_self (by omega) (by omega)
  have hlast := Finset.sum_range_succ (fun k => x' (t + k)) n
  rw [Finset.sum_range_succ', Nat.add_zero] at hlast
  refine ⟨?_, ?_, ?_, x', t + 1, hcourse⟩
  · have hsame : (plan.correct cps).2.size = n := hsize
    rw [hcourse.sum, hsame, htotal, show t + 1 + n - 1 = t + n by omega, ← hnow]
    unfold input
    simp only [show ∀ k, t + 1 + k = t + (k + 1) from fun k => by omega]
    linarith
  · rw [htotal]
    have := abs_le.1 hcps
    have := abs_le.1 (hspan 0 (Nat.zero_le n))
    rw [Nat.add_zero] at this
    rw [abs_le]
    constructor <;> linarith
  · have := hP.size
    rw [hsize] at this
    exact (show (plan.correct cps).2.size = n from hsize).trans_le this

/-! ## The limits keep everything else small -/

theorem drbdRsController_eq {want : Nat} (hhz : hz ≠ 0) (hsize : plan.size ≠ 0)
    (hwant : rsWant hz dc plan.size rsInFlight sectIn = some want) :
    ∃ c, drbdRsController hz dc plan rsInFlight sectIn = some c ∧ c.want = want ∧
      c.correction = signed 32 (want - rsInFlight - plan.total) ∧ c.cps = c.correction.tdiv plan.size ∧
      c.plan = (plan.correct c.cps).2 ∧
      c.reqSect = min (signed 32 (unsigned 32 (dc.cMaxRate * 2 * SLEEP_TIME hz : Nat) / hz : Nat))
        (max 0 (signed 32 (sectIn + c.currCorr))) := by
  have hcps : ∀ correction, signedQuotient correction plan.size = some (correction.tdiv plan.size) := fun _ =>
    if_neg (Int.natCast_ne_zero.2 hsize)
  have hmax : ∀ a, quotient a hz = some (a / hz) := fun _ => if_neg hhz
  simp only [drbdRsController, hwant, Option.bind_eq_bind, Option.bind_some, hcps, hmax]
  refine ⟨_, rfl, rfl, rfl, rfl, rfl, ?_⟩
  dsimp only
  rw [min_def, max_def]
  split <;> split <;> split <;> omega

theorem fifoSize_le (dc : DiskConf) (hplan : dc.cPlanAhead ≤ DRBD_C_PLAN_AHEAD_MAX) :
    RsPlanner.fifoSize hz dc ≤ DRBD_C_PLAN_AHEAD_MAX := by
  have hprod : dc.cPlanAhead * 10 * SLEEP_TIME hz ≤ 300 * 10 * SLEEP_TIME hz :=
    Nat.mul_le_mul_right _ (Nat.mul_le_mul_right 10 hplan)
  have hle : unsigned 32 (dc.cPlanAhead * 10 * SLEEP_TIME hz : Nat) ≤ dc.cPlanAhead * 10 * SLEEP_TIME hz := by
    unfold unsigned
    omega
  refine Nat.div_le_of_le_mul (hle.trans (hprod.trans ?_))
  unfold SLEEP_TIME DRBD_C_PLAN_AHEAD_MAX
  omega

theorem unsigned_eq_zero {n : Int} (h1 : -2 ^ 32 < n) (h2 : n < 2 ^ 32) : unsigned 32 n = 0 ↔ n = 0 := by
  unfold unsigned
  omega

section

variable (hlow : 10 ≤ hz) (hhigh : hz < 5120)

include hlow

theorem sectors_le {rate : Nat} (hrate : rate ≤ 4 * 2 ^ 20) : rate * 2 * SLEEP_TIME hz / hz ≤ 838860 := by
  have hprod : rate * 2 * SLEEP_TIME hz ≤ 4 * 2 ^ 20 * 2 * SLEEP_TIME hz :=
    Nat.mul_le_mul_right _ (Nat.mul_le_mul_right 2 hrate)
  refine Nat.le_of_lt_succ (Nat.div_lt_of_lt_mul ?_)
  unfold SLEEP_TIME at *
  omega

theorem signed_sectors {rate : Nat} (hrate : rate ≤ 4 * 2 ^ 20) :
    signed 32 (rate * 2 * SLEEP_TIME hz / hz : Nat) = (rate * 2 * SLEEP_TIME hz / hz : Nat) := by
  have hle := sectors_le hlow hrate
  generalize rate * 2 * SLEEP_TIME hz / hz = sectors at *
  exact signed_eq_self (by omega) (by omega)

theorem delay_le {delay : Nat} (hsect : sectIn ≤ 838860) (hdelay : delay ≤ DRBD_C_DELAY_TARGET_MAX) :
    sectIn * delay * hz / (SLEEP_TIME hz * 10) ≤ 167772000 := by
  have hprod : sectIn * delay * hz ≤ 83886000 * hz := Nat.mul_le_mul_right _ (Nat.mul_le_mul hsect hdelay)
  refine Nat.div_le_of_le_mul ?_
  unfold SLEEP_TIME at *
  omega

include hhigh

theorem unsigned_rate {rate : Nat} (hrate : rate ≤ 4 * 2 ^ 20) :
    unsigned 32 (rate * 2 * SLEEP_TIME hz : Nat) = rate * 2 * SLEEP_TIME hz := by
  have hprod : rate * 2 * SLEEP_TIME hz ≤ 4 * 2 ^ 20 * 2 * SLEEP_TIME hz :=
    Nat.mul_le_mul_right _ (Nat.mul_le_mul_right 2 hrate)
  have hfits := unsigned_eq_self (w := 32) (n := (rate * 2 * SLEEP_TIME hz : Nat)) (Int.natCast_nonneg _) (by
    unfold SLEEP_TIME at *
    omega)
  exact_mod_cast hfits

/-- `want` is what it stands for unless the product for the delay has wrapped. -/
theorem rsWant_eq (hdc : dc.Within) (hreach : InReach rsInFlight) (hsect : sectIn ≤ maxSect hz dc) {steps : Nat}
    (hsteps : steps ≤ DRBD_C_PLAN_AHEAD_MAX) :
    ∃ want, rsWant hz dc steps rsInFlight sectIn = some want ∧
      (want = wanted hz dc steps rsInFlight sectIn ↔
        rsInFlight + sectIn = 0 ∨ dc.cFillTarget ≠ 0 ∨ sectIn * dc.cDelayTarget * hz < 2 ^ 32) := by
  have hsectors := sectors_le hlow hdc.cMaxRate.2
  unfold maxSect at hsect
  unfold InReach mostBlocks mostBuffers at hreach
  have hzero : unsigned 32 (rsInFlight + sectIn) = 0 ↔ rsInFlight + sectIn = 0 :=
    unsigned_eq_zero (by omega) (by omega)
  unfold rsWant wanted
  by_cases hstart : rsInFlight + sectIn = 0
  · rw [if_pos (hzero.2 hstart), if_pos hstart, quotient, if_neg (by omega), unsigned_rate hlow hhigh hdc.resyncRate.2]
    have hprod : dc.resyncRate * 2 * SLEEP_TIME hz / hz * steps ≤ 838860 * 300 :=
      Nat.mul_le_mul (sectors_le hlow hdc.resyncRate.2) hsteps
    have hfits := unsigned_eq_self (w := 32) (n := (dc.resyncRate * 2 * SLEEP_TIME hz / hz * steps : Nat))
      (Int.natCast_nonneg _) (by omega)
    exact ⟨_, rfl, fun _ => .inl hstart, fun _ => by exact_mod_cast hfits⟩
  · rw [if_neg (fun h => hstart (hzero.1 h)), if_neg hstart]
    by_cases hfill : dc.cFillTarget ≠ 0
    · rw [if_pos hfill, if_pos hfill]
      exact ⟨_, rfl, fun _ => .inr (.inl hfill), fun _ => rfl⟩
    · have hpos : 0 < SLEEP_TIME hz * 10 ∧ SLEEP_TIME hz * 10 ≤ 2 ^ 32 := by
        unfold SLEEP_TIME
        omega
      rw [if_neg hfill, if_neg hfill, quotient, if_neg (by omega)]
      refine ⟨_, rfl, fun heq => .inr (.inr ?_), fun h => ?_⟩
      · -- a product that wraps loses at least one of the quotient
        by_contra hwraps
        have hless : unsigned 32 (sectIn * dc.cDelayTarget * hz : Nat) + SLEEP_TIME hz * 10 ≤
            sectIn * dc.cDelayTarget * hz := by
          unfold unsigned
          omega
        have hdiv := Nat.div_le_div_right (c := SLEEP_TIME hz * 10) hless
        rw [Nat.add_div_right _ hpos.1] at hdiv
        omega
      · have hfits := unsigned_eq_self (w := 32) (n := (sectIn * dc.cDelayTarget * hz : Nat)) (Int.natCast_nonneg _) (by
          rcases h with h | h | h
          · exact absurd h hstart
          · exact absurd h hfill
          · exact_mod_cast h)
        rw [show unsigned 32 (sectIn * dc.cDelayTarget * hz : Nat) = sectIn * dc.cDelayTarget * hz from by
          exact_mod_cast hfits]

omit hhigh in
/-- What is wanted less what is in flight leaves room for a remainder. -/
theorem wanted_range (hdc : dc.Within) (hreach : InReach rsInFlight) (hsect : sectIn ≤ maxSect hz dc) {steps : Nat}
    (hsteps : steps ≤ DRBD_C_PLAN_AHEAD_MAX) :
    |(wanted hz dc steps rsInFlight sectIn : Int) - rsInFlight| ≤ mostInput - DRBD_C_PLAN_AHEAD_MAX := by
  have hsectors := sectors_le hlow hdc.cMaxRate.2
  have hdelay := delay_le hlow (hsect.trans hsectors) hdc.cDelayTarget.2
  have hfill := hdc.cFillTarget
  have hprod : dc.resyncRate * 2 * SLEEP_TIME hz / hz * steps ≤ 838860 * 300 :=
    Nat.mul_le_mul (sectors_le hlow hdc.resyncRate.2) hsteps
  have hle : wanted hz dc steps rsInFlight sectIn ≤ 251658000 := by
    unfold DRBD_C_FILL_TARGET_MAX at hfill
    unfold wanted
    split
    · exact hprod
    split <;> omega
  unfold InReach mostBlocks mostBuffers at hreach
  unfold mostInput DRBD_C_PLAN_AHEAD_MAX
  rw [abs_le]
  omega

/-- One turn of the controller. -/
theorem Planned.turn (hP : Planned plan) (hdc : dc.Within) (hreach : InReach rsInFlight)
    (hsect : sectIn ≤ maxSect hz dc) (hsize : plan.size ≠ 0) :
    ∃ c, drbdRsController hz dc plan rsInFlight sectIn = some c ∧ (0 ≤ c.reqSect ∧ c.reqSect ≤ maxSect hz dc) ∧
      (c.want = wanted hz dc plan.size rsInFlight sectIn → c.Exact hz dc plan rsInFlight sectIn ∧ Planned c.plan) ∧
      (c.want = wanted hz dc plan.size rsInFlight sectIn ↔
        rsInFlight + sectIn = 0 ∨ dc.cFillTarget ≠ 0 ∨ sectIn * dc.cDelayTarget * hz < 2 ^ 32) := by
  obtain ⟨want, hwant, hiff⟩ := rsWant_eq hlow hhigh hdc hreach hsect hP.size
  obtain ⟨c, hc, rfl, hcorrection, hcps, hplan, hreq⟩ := drbdRsController_eq (by omega) hsize hwant
  have hmax : signed 32 (unsigned 32 (dc.cMaxRate * 2 * SLEEP_TIME hz : Nat) / hz : Nat) = maxSect hz dc := by
    rw [unsigned_rate hlow hhigh hdc.cMaxRate.2]
    exact signed_sectors hlow hdc.cMaxRate.2
  have hrange : 0 ≤ c.reqSect ∧ c.reqSect ≤ maxSect hz dc := by
    rw [hreq, hmax]
    omega
  refine ⟨c, hc, hrange, fun heq => ?_, hiff⟩
  have hin := wanted_range hlow hdc hreach hsect hP.size
  rw [← heq] at hin
  have hexact : c.correction = c.want - rsInFlight - plan.total := by
    have hsmall := abs_le.1 hP.small
    have hin := abs_le.1 hin
    unfold mostInput DRBD_C_PLAN_AHEAD_MAX at *
    rw [hcorrection]
    exact signed_eq_self (by omega) (by omega)
  -- what the division leaves is less than a step
  have hrem := Int.mul_tdiv_add_tmod c.correction plan.size
  rw [← hcps] at hrem
  have hless : |c.correction.tmod plan.size| ≤ DRBD_C_PLAN_AHEAD_MAX := by
    have hlt := Nat.mod_lt c.correction.natAbs (Nat.pos_of_ne_zero hsize)
    have habs := Int.natAbs_tmod c.correction plan.size
    have hle := hP.size
    rw [Int.natAbs_natCast] at habs
    rw [Int.abs_eq_natAbs]
    omega
  have hplanned : Planned (plan.correct c.cps).2 := by
    refine hP.correct (Nat.pos_of_ne_zero hsize) ?_
    have hsum : plan.total + c.cps * plan.size = c.want - rsInFlight - c.correction.tmod plan.size := by
      rw [Int.mul_comm]
      omega
    rw [hsum]
    have hin := abs_le.1 hin
    have hless := abs_le.1 hless
    rw [abs_le]
    omega
  rw [← hplan] at hplanned
  exact ⟨⟨heq, hexact, hcps, hplanned.total, hrange⟩, hplanned⟩

/-- No turn asks for more than `mostBlocks`. -/
theorem rsWanted_le (hdc : dc.Within) {w : Int × FifoBuffer} (h : rsWanted hz dc plan rsInFlight sectIn = some w) :
    w.1 ≤ mostBlocks := by
  unfold rsWanted at h
  split at h
  · rename_i hsize
    obtain ⟨c, hc, rfl⟩ := Option.map_eq_some_iff.1 h
    cases hwant : rsWant hz dc plan.size rsInFlight sectIn with
    | none => simp [drbdRsController, hwant] at hc
    | some want =>
        obtain ⟨c', hc', _, _, _, _, hreq⟩ := drbdRsController_eq (by omega) hsize hwant
        rw [hc, Option.some_inj] at hc'
        subst hc'
        have hsectors := sectors_le hlow hdc.cMaxRate.2
        rw [unsigned_rate hlow hhigh hdc.cMaxRate.2, signed_sectors hlow hdc.cMaxRate.2] at hreq
        have hle : c.reqSect ≤ 838860 := by
          rw [hreq]
          exact (min_le_left _ _).trans (by exact_mod_cast hsectors)
        change c.reqSect >>> (3 : Nat) ≤ _
        rw [Int.shiftRight_eq_div_pow]
        unfold mostBlocks
        omega
  · have hprod : SLEEP_TIME hz * dc.resyncRate ≤ SLEEP_TIME hz * (4 * 2 ^ 20) :=
      Nat.mul_le_mul_left _ hdc.resyncRate.2
    have hfits : signed 32 (SLEEP_TIME hz * dc.resyncRate : Nat) = (SLEEP_TIME hz * dc.resyncRate : Nat) := by
      refine signed_eq_self (by omega) ?_
      unfold SLEEP_TIME at *
      omega
    rw [signedQuotient, if_neg (by omega), Option.map_some, Option.some_inj, hfits] at h
    rw [← h]
    change ((SLEEP_TIME hz * dc.resyncRate : Nat) : Int).tdiv (4 * hz : Nat) ≤ _
    rw [← Int.ofNat_tdiv]
    have hdiv : SLEEP_TIME hz * dc.resyncRate / (4 * hz) ≤ mostBlocks := by
      refine Nat.le_of_lt_succ (Nat.div_lt_of_lt_mul ?_)
      unfold mostBlocks
      unfold SLEEP_TIME at *
      omega
    exact_mod_cast hdiv

end

/-! ## Whole runs -/

/-- The invariant of a device with a disk. -/
structure PlannerInv (s : RsPlanner) : Prop where
  within : s.dc.Within
  planned : Planned s.rsPlanS

theorem Planned.alloc {fifoSize : Nat} (h : fifoSize ≤ DRBD_C_PLAN_AHEAD_MAX) : Planned (.fifoAlloc fifoSize) :=
  .empty rfl (fun _ hv => List.eq_of_mem_replicate hv) h

theorem Planned.reset (hP : Planned plan) : Planned plan.drbdRsControllerReset := by
  refine .empty rfl (fun v hv => ?_) hP.size
  obtain ⟨_, _, hzero⟩ := List.mem_map.1 hv
  exact hzero.symm

theorem planner_step (hlow : 10 ≤ hz) (hhigh : hz < 5120) (s : RsPlanner) (ev : PlannerEvent) (hI : PlannerInv s)
    (hc : Allowed hz s ev ∧ DelayFits hz s ev) : ∃ s', s.step hz ev = some s' ∧ PlannerInv s' := by
  cases ev with
  | diskConf dc => exact ⟨_, rfl, hc.1, hI.planned⟩
  | newPlan =>
      refine ⟨_, rfl, ?_⟩
      split
      · exact ⟨hI.within, .alloc (fifoSize_le s.dc hI.within.cPlanAhead)⟩
      · exact hI
  | numberRequests rsInFlight sectIn =>
      obtain ⟨⟨hreach, hsect⟩, hfits⟩ := hc
      by_cases hsize : s.rsPlanS.size = 0
      · have hdiv : signedQuotient (signed 32 (SLEEP_TIME hz * s.dc.resyncRate : Nat)) (4 * hz : Nat) = some _ :=
          if_neg (by omega)
        refine ⟨s, ?_, hI⟩
        simp only [RsPlanner.step, rsWanted, hsize, ne_eq, not_true_eq_false, if_false, hdiv, Option.map_some]
      · obtain ⟨c, hrun, _, hexact, hiff⟩ := hI.planned.turn hlow hhigh hI.within hreach hsect hsize
        have hplanned := (hexact (hiff.2 (hfits.resolve_left hsize))).2
        refine ⟨{ s with rsPlanS := c.plan }, ?_, hI.within, hplanned⟩
        simp only [RsPlanner.step, rsWanted, ne_eq, hsize, not_false_eq_true, if_true, hrun, Option.map_some]
  | reset => exact ⟨_, rfl, hI.within, hI.planned.reset⟩

/-- The driver stays in reach of the controller: whatever the bitmap, the limits and the answers, the sectors in
flight are so when a turn begins, where no turn asks for more than `rsWanted_le` says. -/
theorem inReach_of_flight {n capacity : Nat} (maxBioSize : Nat) (hcap : n ≤ (capacity + 7) / 8)
    {evs : List (FlightEvent n)} {s : Flight}
    (hc : Meets (Flight.step capacity maxBioSize) (Limited mostBlocks mostBuffers) .start evs)
    (h : run (Flight.step capacity maxBioSize) .start evs = some s) (hturn : s.turn = none) :
    InReach (s.rsInFlight - s.rsSectIn) :=
  rsInFlight_range maxBioSize hcap hc h hturn

/-- While the product for the delay fits, in every turn of every run the plan adds up to its total, and the next turn
is computed in 32 bits as in numbers of any size exactly if its own product fits. -/
theorem rs_controller_exact (hlow : 10 ≤ hz) (hhigh : hz < 5120) (hdc : dc.Within) {evs : List PlannerEvent}
    (hc : Meets (RsPlanner.step hz) (fun s ev => Allowed hz s ev ∧ DelayFits hz s ev) (.attach hz dc) evs) :
    ∃ s, run (RsPlanner.step hz) (.attach hz dc) evs = some s ∧ s.rsPlanS.total = s.rsPlanS.values.sum ∧
      ∀ rsInFlight sectIn, s.rsPlanS.size ≠ 0 → Allowed hz s (.numberRequests rsInFlight sectIn) →
        ∃ c, drbdRsController hz s.dc s.rsPlanS rsInFlight sectIn = some c ∧
          (0 ≤ c.reqSect ∧ c.reqSect ≤ maxSect hz s.dc) ∧ c.reqSect >>> (3 : Nat) ≤ mostBlocks ∧
          (c.Exact hz s.dc s.rsPlanS rsInFlight sectIn ↔ DelayFits hz s (.numberRequests rsInFlight sectIn)) := by
  have hstart : PlannerInv (.attach hz dc) := ⟨hdc, .alloc (fifoSize_le dc hdc.cPlanAhead)⟩
  obtain ⟨s, hs, hI⟩ := run_total (planner_step hlow hhigh) hstart hc
  refine ⟨s, hs, hI.planned.total, fun rsInFlight sectIn hsize hallowed => ?_⟩
  obtain ⟨c, hrun, hrange, hexact, hiff⟩ := hI.planned.turn hlow hhigh hI.within hallowed.1 hallowed.2 hsize
  refine ⟨c, hrun, hrange, ?_, fun h => .inr (hiff.1 h.want), fun h => (hexact (hiff.2 (h.resolve_left hsize))).1⟩
  have hw : rsWanted hz s.dc s.rsPlanS rsInFlight sectIn = some (c.reqSect >>> (3 : Nat), c.plan) := by
    rw [rsWanted, if_pos hsize, hrun]
    rfl
  exact rsWanted_le hlow hhigh hI.within hw

instance (dc : DiskConf) : Decidable dc.Within :=
  decidable_of_iff ((1 ≤ dc.resyncRate ∧ dc.resyncRate ≤ DRBD_RESYNC_RATE_MAX) ∧
      dc.cPlanAhead ≤ DRBD_C_PLAN_AHEAD_MAX ∧ (1 ≤ dc.cDelayTarget ∧ dc.cDelayTarget ≤ DRBD_C_DELAY_TARGET_MAX) ∧
      dc.cFillTarget ≤ DRBD_C_FILL_TARGET_MAX ∧ 250 ≤ dc.cMaxRate ∧ dc.cMaxRate ≤ DRBD_C_MAX_RATE_MAX)
    ⟨fun ⟨h1, h2, h3, h4, h5⟩ => ⟨h1, h2, h3, h4, h5⟩, fun ⟨h1, h2, h3, h4, h5⟩ => ⟨h1, h2, h3, h4, h5⟩⟩

instance (hz : Nat) (s : RsPlanner) : ∀ ev, Decidable (Allowed hz s ev ∧ DelayFits hz s ev)
  | .diskConf dc => inferInstanceAs (Decidable (dc.Within ∧ True))
  | .newPlan | .reset => inferInstanceAs (Decidable (True ∧ True))
  | .numberRequests rsInFlight sectIn =>
      inferInstanceAs (Decidable (((_ ∧ _) ∧ sectIn ≤ maxSect hz s.dc) ∧ (s.rsPlanS.size = 0 ∨
        rsInFlight + sectIn = 0 ∨ s.dc.cFillTarget ≠ 0 ∨ sectIn * s.dc.cDelayTarget * hz < 2 ^ 32)))

/-- A plan of two seconds, for a delay of ten. -/
def slowLink : DiskConf := ⟨250, 20, 100, 0, 4 * 2 ^ 20⟩

theorem rs_controller_exact_slow :
    ∃ s, run (RsPlanner.step 1000) (.attach 1000 slowLink) [.numberRequests 0 0, .numberRequests 900 100, .reset] =
        some s ∧ s.rsPlanS.total = s.rsPlanS.values.sum := by
  have hmeets : Meets (RsPlanner.step 1000) (fun s ev => Allowed 1000 s ev ∧ DelayFits 1000 s ev)
      (.attach 1000 slowLink) [.numberRequests 0 0, .numberRequests 900 100, .reset] := by decide
  obtain ⟨s, hs, htotal, _⟩ := rs_controller_exact (by decide) (by decide) (by decide) hmeets
  exact ⟨s, hs, htotal⟩

/-- At a thousand ticks, 31 MiB that arrive within one turn are too much for a delay of ten seconds. -/
example : (drbdRsController 1000 slowLink (.fifoAlloc 20) 0 64000).map RsControl.want = some 2105032 ∧
    wanted 1000 slowLink 20 0 64000 = 6400000 := by decide

end Drbd.ResyncRequest
