import Drbd.Bitmap.Lemmas.Find
import Drbd.Bitmap.Lemmas.Words
import Drbd.Vli.Lemmas.Stream
import Drbd.Xfer.Defs

/-!
# Run lengths: what one side writes, the other reads

The sender's loop leaves a list of alternating runs in the code, one after the other from bit 0 on; the
receiver's loop takes the same list off it and sets the runs of ones.
-/

namespace Drbd.Xfer

open Lib Bitmap Vli

variable {b : DrbdBitmap}

/-- The codes of the run lengths stand one after the other, from `pos` to `e`. -/
def Coded (f : Nat → Bool) : Nat → List Nat → Nat → Prop
  | pos, [], e => pos = e
  | pos, rl :: rls, e => ∃ code t, vliCode rl = .ok (code, t) ∧ code < 2 ^ t ∧ 2 ≤ t ∧ t ≤ 64 ∧
      Spells f pos t code ∧ Coded f (pos + t) rls e

/-- The runs of the bitmap from bit `s` to bit `e`, beginning with one of value `val`. -/
def Runs (b : DrbdBitmap) : Bool → Nat → List Nat → Nat → Prop
  | _, s, [], e => s = e
  | val, s, rl :: rls, e => 0 < rl ∧ (∀ i, s ≤ i → i < s + rl → b.bit i = val) ∧
      Runs b (!val) (s + rl) rls e

theorem Coded.le {f : Nat → Bool} {pos rls e} (h : Coded f pos rls e) : pos ≤ e := by
  induction rls generalizing pos with
  | nil => exact le_of_eq h
  | cons rl rls ih =>
      obtain ⟨code, t, _, _, _, _, _, hrest⟩ := h
      have := ih hrest
      omega

theorem Runs.le {val s rls e} (h : Runs b val s rls e) : s ≤ e := by
  induction rls generalizing val s with
  | nil => exact le_of_eq h
  | cons rl rls ih =>
      have := ih h.2.2
      omega

/-! ## Writing -/

/-- The run the next search is about to end; `toggle` is 0 inside a run of ones. -/
def runValue (toggle : Nat) : Bool := toggle == 0

/-- The search finds the end of the current run. -/
theorem findNext_run (b : DrbdBitmap) {s : Nat} (hs : s ≤ b.bmBits) (val : Bool) :
    let tmp := (bmFindNext b s val).getD b.bmBits
    s ≤ tmp ∧ tmp ≤ b.bmBits ∧ (∀ i, s ≤ i → i < tmp → b.bit i = val) ∧
      (tmp < b.bmBits → b.bit tmp = !val) := by
  cases h : bmFindNext b s val with
  | none =>
      have hnone := bmFindNext_none h
      exact ⟨hs, le_refl _, fun i hi hlt => hnone i hi hlt, fun hlt => absurd hlt (lt_irrefl _)⟩
  | some i =>
      have hnext := bmFindNext_some h
      refine ⟨hnext.ge, le_of_lt hnext.lt, fun j hj hlt => hnext.least j hj hlt, fun _ => ?_⟩
      have hne := hnext.hit
      simp only [Option.getD_some]
      cases hb : b.bit i <;> cases val <;> simp_all

/-- What the loop has added between two of its states. -/
structure Writes (b : DrbdBitmap) (val : Bool) (l l' : FillLoop) (rls : List Nat) : Prop where
  opened : l'.bs.Open
  bufLen : l'.bs.bufLen = l.bs.bufLen
  coded : Coded (streamBit l'.bs.buf) l.bs.pos rls l'.bs.pos
  below : ∀ j, j < l.bs.pos → streamBit l'.bs.buf j = streamBit l.bs.buf j
  runs : Runs b val l.bitOffset rls l'.bitOffset
  plain : l'.plainBits = l.plainBits + (l'.bitOffset - l.bitOffset)

theorem Writes.nil {l l' : FillLoop} (val : Bool) (hopen : l.bs.Open) (hbs : l'.bs = l.bs)
    (hplain : l'.plainBits = l.plainBits) (hoff : l'.bitOffset = l.bitOffset) : Writes b val l l' [] := by
  refine ⟨by rw [hbs]; exact hopen, by rw [hbs], by rw [hbs]; rfl, fun j _ => by rw [hbs], hoff.symm, ?_⟩
  omega

/-- One run in front. -/
theorem Writes.cons {l l₁ l' : FillLoop} {val : Bool} {rls : List Nat} {rl code t : Nat}
    (hopen : l.bs.Open) (hcode : vliCode rl = .ok (code, t)) (hlt : code < 2 ^ t) (h2 : 2 ≤ t)
    (h64 : t ≤ 64) (hputs : Puts l.bs l₁.bs code t) (hpos : 0 < rl)
    (hrun : ∀ i, l.bitOffset ≤ i → i < l.bitOffset + rl → b.bit i = val)
    (hoff : l₁.bitOffset = l.bitOffset + rl) (hplain : l₁.plainBits = l.plainBits + rl)
    (h : Writes b (!val) l₁ l' rls) : Writes b val l l' (rl :: rls) where
  opened := h.opened
  bufLen := h.bufLen.trans hputs.bufLen
  coded := by
    refine ⟨code, t, hcode, hlt, h2, h64, ?_, by rw [← hputs.pos]; exact h.coded⟩
    exact (hputs.spells hopen).congr fun k hk => h.below _ (by rw [hputs.pos]; omega)
  below j hj := (h.below j (by rw [hputs.pos]; omega)).trans (hputs.below hj)
  runs := ⟨hpos, hrun, by rw [← hoff]; exact h.runs⟩
  plain := by
    have hle := h.runs.le
    rw [h.plain]
    omega

theorem vliEncodeBits_cases {bs : Bitstream} (hopen : bs.Open) {rl : Nat} (hpos : 0 < rl)
    (hmax : rl ≤ 2 ^ 56) :
    vliEncodeBits bs rl = .error .enobufs ∨
    ∃ bs' code t, vliEncodeBits bs rl = .ok (t, bs') ∧ vliCode rl = .ok (code, t) ∧ code < 2 ^ t ∧
      2 ≤ t ∧ t ≤ 64 ∧ Puts bs bs' code t := by
  obtain ⟨code, t, hcode, hlt, h2, h64⟩ := vliCode_ok hpos hmax
  simp only [vliEncodeBits, hcode]
  cases hput : bitstreamPutBits bs code t with
  | error e =>
      left
      unfold bitstreamPutBits at hput
      rw [if_neg (by omega)] at hput
      split at hput
      · cases hput; rfl
      · cases hput
  | ok bs' =>
      exact .inr ⟨bs', code, t, rfl, rfl, hlt, h2, h64,
        bitstreamPutBits_spec hopen.ok hlt (by omega) h64 hput⟩

/-- From a bit of the value that the search takes it to have, the loop writes runs until it stops. -/
theorem fillLoop_spec (hmax : b.bmBits ≤ 2 ^ 39) (fuel : Nat) (l : FillLoop)
    (hfuel : b.bmBits - l.bitOffset < fuel) (hopen : l.bs.Open) (hoff : l.bitOffset < b.bmBits)
    (hbit : b.bit l.bitOffset = runValue l.toggle) :
    ∃ l' rls, fillLoop b b.bmBits fuel l = .stopped l' ∧ Writes b (runValue l.toggle) l l' rls ∧
      l'.bitOffset ≤ b.bmBits ∧
      l'.encoding = if l.toggle = 2 then dcbpSetStart l.encoding false else l.encoding := by
  induction fuel generalizing l with
  | zero => omega
  | succ fuel ih =>
      obtain ⟨hge, hle, hrun, hend⟩ := findNext_run b (le_of_lt hoff) (runValue l.toggle)
      unfold fillLoop
      rw [show (l.toggle == 0) = runValue l.toggle from rfl]
      generalize (bmFindNext b l.bitOffset (runValue l.toggle)).getD b.bmBits = tmp at hge hle hrun hend ⊢
      dsimp only at hge hle hrun hend ⊢
      -- the bit the loop stands on belongs to the run, so the run is not empty
      have hpos : l.bitOffset < tmp := by
        rcases Nat.lt_or_ge l.bitOffset tmp with hlt | hge'
        · exact hlt
        · have heq : tmp = l.bitOffset := by omega
          have hother := hend (by omega)
          rw [heq, hbit] at hother
          cases hv : runValue l.toggle <;> simp [hv] at hother
      rw [if_neg (by omega), if_neg (by omega)]
      generalize henc : (if l.toggle = 2 then dcbpSetStart l.encoding false else l.encoding) = enc
      rcases vliEncodeBits_cases hopen (show 0 < tmp - l.bitOffset by omega) (by omega) with hfull | hput
      · rw [hfull]
        exact ⟨_, [], rfl, .nil _ hopen rfl rfl rfl, le_of_lt hoff, rfl⟩
      · obtain ⟨bs', code, t, hok, hcode, hlt, h2, h64, hputs⟩ := hput
        rw [hok]
        dsimp only
        obtain ⟨l₁, hl₁⟩ : ∃ l₁ : FillLoop, (⟨bs', enc, l.plainBits + (tmp - l.bitOffset),
          if l.toggle = 0 then 1 else 0, tmp⟩ : FillLoop) = l₁ := ⟨_, rfl⟩
        have hcons : ∀ l' rls, Writes b (!runValue l.toggle) l₁ l' rls →
            Writes b (runValue l.toggle) l l' ((tmp - l.bitOffset) :: rls) := fun l' rls h => by
          subst hl₁
          exact .cons hopen hcode hlt h2 h64 hputs (by omega) (fun i hi hlt => hrun i hi (by omega))
            (by dsimp only; omega) rfl h
        have hopen₁ : l₁.bs.Open := by subst hl₁; exact hputs.opens hopen hlt
        have hval₁ : runValue l₁.toggle = !runValue l.toggle := by
          subst hl₁
          simp only [runValue]
          by_cases h0 : l.toggle = 0 <;> simp [h0]
        have henc₁ : (if l₁.toggle = 2 then dcbpSetStart l₁.encoding false else l₁.encoding) = enc := by
          subst hl₁
          dsimp only
          rw [if_neg (by split <;> omega)]
        have hoff₁ : l₁.bitOffset = tmp := by subst hl₁; rfl
        by_cases hmore : tmp < b.bmBits
        · obtain ⟨l', rls, hloop, hwrites, hle', henc'⟩ := ih l₁ (by omega) hopen₁ (by omega)
            (by rw [hval₁, hoff₁]; exact hend hmore)
          rw [hval₁] at hwrites
          rw [if_pos hmore, hl₁]
          exact ⟨l', _, hloop, hcons l' rls hwrites, hle', henc'.trans henc₁⟩
        · rw [if_neg hmore, hl₁]
          refine ⟨l₁, _, rfl, hcons l₁ [] (.nil _ hopen₁ rfl rfl rfl), by omega, ?_⟩
          subst hl₁
          rfl

/-! ## Reading -/

/-- The look-ahead shows the valid bits from `p` on, as many as fit; the cursor stands behind them. -/
structure LooksAhead (f : Nat → Bool) (n p : Nat) (l : RecvLoop) : Prop where
  ok : l.bs.Ok
  pad : l.bs.padBits < 8
  len : l.bs.bufLen < 2 ^ 16
  valid : n + l.bs.padBits = 8 * l.bs.bufLen
  bits : ∀ j < n, streamBit l.bs.buf j = f j
  le : p ≤ n
  count : l.have' = min 64 (n - p)
  pos : l.bs.pos = p + l.have'
  lt : l.lookAhead < 2 ^ l.have'
  shows : ∀ k < l.have', l.lookAhead.testBit k = f (p + k)

/-- Consuming `t` bits and filling up again moves the look-ahead by `t`. -/
theorem LooksAhead.consume {f : Nat → Bool} {n p t : Nat} {l : RecvLoop} (h : LooksAhead f n p l)
    (h2 : 2 ≤ t) (h64 : t ≤ 64) (hin : p + t ≤ n) (b : DrbdBitmap) (s : Nat) (toggle : Bool) :
    ∃ tmp got bs, bitstreamGetBits l.bs (64 - (l.have' - t)) = .ok (tmp, got, bs) ∧
      LooksAhead f n (p + t) ⟨b, bs, (if t < 64 then l.lookAhead >>> t else 0) |||
        (tmp <<< (l.have' - t)) % 2 ^ 64, l.have' - t + got, s, toggle⟩ := by
  have hcount := h.count
  have hpos := h.pos
  have hvalid := h.valid
  obtain ⟨tmp, bs, hget, hgets⟩ := bitstreamGetBits_spec h.ok (64 - (l.have' - t))
    (by omega) (by omega) h.pad (by omega)
  generalize hgot : min (64 - (l.have' - t)) (8 * l.bs.bufLen - l.bs.padBits - l.bs.pos) = got
    at hget hgets
  have hshift : (if t < 64 then l.lookAhead >>> t else 0) = l.lookAhead >>> t := by
    split
    · rfl
    · have hlt := h.lt
      rw [Nat.shiftRight_eq_div_pow, Nat.div_eq_of_lt]
      exact lt_of_lt_of_le hlt (Nat.pow_le_pow_right (by decide) (by omega))
  have hold : l.lookAhead >>> t < 2 ^ (l.have' - t) := by
    rw [Nat.shiftRight_eq_div_pow, Nat.div_lt_iff_lt_mul (Nat.two_pow_pos _), ← Nat.pow_add,
      Nat.sub_add_cancel (by omega)]
    exact h.lt
  have hnew : tmp <<< (l.have' - t) < 2 ^ (l.have' - t + got) := by
    rw [Nat.shiftLeft_eq, Nat.pow_add, Nat.mul_comm]
    exact Nat.mul_lt_mul_of_pos_left hgets.lt (Nat.two_pow_pos _)
  have hfits : (tmp <<< (l.have' - t)) % 2 ^ 64 = tmp <<< (l.have' - t) :=
    Nat.mod_eq_of_lt (lt_of_lt_of_le hnew (Nat.pow_le_pow_right (by decide) (by omega)))
  refine ⟨tmp, got, bs, hget, hgets.ok, by rw [hgets.padBits]; exact h.pad,
    by rw [hgets.bufLen]; exact h.len, by rw [hgets.padBits, hgets.bufLen]; exact hvalid,
    by rw [hgets.buf]; exact h.bits, hin, by dsimp only; omega,
    by dsimp only; rw [hgets.pos]; omega, ?_, fun k hk => ?_⟩
  · rw [hshift, hfits]
    exact Nat.or_lt_two_pow
      (lt_of_lt_of_le hold (Nat.pow_le_pow_right (by decide) (Nat.le_add_right _ _))) hnew
  · rw [hshift, hfits, Nat.testBit_or, Nat.testBit_shiftRight, Nat.testBit_shiftLeft]
    dsimp only at hk
    by_cases hlow : k < l.have' - t
    · rw [decide_eq_false (by omega), Bool.false_and, Bool.or_false, h.shows (t + k) (by omega),
        Nat.add_assoc]
    · have hzero : l.lookAhead.testBit (t + k) = false :=
        Nat.testBit_lt_two_pow (lt_of_lt_of_le h.lt (Nat.pow_le_pow_right (by decide) (by omega)))
      rw [hzero, decide_eq_true (by omega), Bool.true_and, Bool.false_or, hgets.bit _ (by omega),
        h.bits _ (by omega)]
      congr 1
      omega

theorem RecvLoop.e_eq {l : RecvLoop} {rl : Nat} (hpos : 0 < rl) (hlt : l.s + rl < 2 ^ 64) :
    l.e rl = l.s + rl - 1 := by
  unfold RecvLoop.e
  omega

/-- The loop takes the runs off the code and sets those of ones. -/
theorem recvLoop_spec {src : DrbdBitmap} {f : Nat → Bool} {n : Nat} (rls : List Nat) (fuel p : Nat)
    (l : RecvLoop) {e : Nat} (hmax : l.b.bmBits ≤ 2 ^ 39) (hfuel : n - p < fuel) (hlook : LooksAhead f n p l)
    (hcoded : Coded f p rls n) (hruns : Runs src l.toggle l.s rls e) (he : e ≤ l.b.bmBits) :
    ∃ l', recvLoop l.b.bmBits fuel l = some l' ∧ l'.s = e ∧
      Gains l.b l'.b fun i => decide (l.s ≤ i ∧ i < e) && src.bit i := by
  induction rls generalizing fuel p l with
  | nil =>
      obtain ⟨fuel, rfl⟩ : ∃ m, fuel = m + 1 := ⟨fuel - 1, by omega⟩
      have hcount := hlook.count
      have hp : p = n := hcoded
      have hs : l.s = e := hruns
      refine ⟨l, ?_, hs, (Gains.refl l.b).congr fun i => ?_⟩
      · unfold recvLoop
        rw [if_pos (by omega)]
      · rw [decide_eq_false (by omega), Bool.false_and]
  | cons rl rls ih =>
      obtain ⟨fuel, rfl⟩ : ∃ m, fuel = m + 1 := ⟨fuel - 1, by omega⟩
      obtain ⟨code, t, hcode, hlt, h2, h64, hspell, hrest⟩ := hcoded
      obtain ⟨hpos, hrun, hruns'⟩ := hruns
      have hin := hrest.le
      have hle := hruns'.le
      have hcount := hlook.count
      have hdecode : vliDecodeBits l.lookAhead = some (rl, t) :=
        vliDecodeBits_of_code hcode (hspell.mod_eq hlt (show t ≤ l.have' by omega) hlook.shows)
      -- the run itself
      have hgain : Gains l.b (if l.toggle then drbdBmSetBitsBulk l.b l.s (l.s + rl - 1) else l.b)
          fun i => decide (l.s ≤ i ∧ i < l.s + rl) && src.bit i := by
        cases htoggle : l.toggle with
        | false =>
            refine (Gains.refl l.b).congr fun i => ?_
            by_cases hi : l.s ≤ i ∧ i < l.s + rl
            · rw [hrun i hi.1 hi.2, htoggle, Bool.and_false]
            · rw [decide_eq_false hi, Bool.false_and]
        | true =>
            refine (Gains.setBitsBulk l.b (show l.s + rl - 1 < l.b.bmBits by omega)).congr fun i => ?_
            by_cases hi : l.s ≤ i ∧ i < l.s + rl
            · rw [hrun i hi.1 hi.2, htoggle, Bool.and_true]
              exact decide_eq_decide.2 (by omega)
            · rw [decide_eq_false hi, Bool.false_and]
              exact decide_eq_false (by omega)
      obtain ⟨tmp, got, bs, hget, hlook'⟩ := hlook.consume h2 h64 hin
        (if l.toggle then drbdBmSetBitsBulk l.b l.s (l.s + rl - 1) else l.b) (l.s + rl) (!l.toggle)
      obtain ⟨l', hloop, hs', hgains'⟩ := ih fuel (p + t) _
        (by dsimp only; rw [hgain.bits]; exact hmax) (by omega) hlook' hrest hruns'
        (by dsimp only; rw [hgain.bits]; exact he)
      refine ⟨l', ?_, hs', (hgain.trans hgains').congr fun i => ?_⟩
      · unfold recvLoop recvRound RecvLoop.consume
        rw [if_neg (by omega), hdecode]
        dsimp only at hloop ⊢
        rw [RecvLoop.e_eq hpos (by omega), if_neg (by omega), if_neg (by omega), hget]
        dsimp only
        rw [Nat.mod_eq_of_lt (show l.s + rl < 2 ^ 64 by omega)]
        rw [hgain.bits] at hloop
        exact hloop
      · dsimp only
        rw [← Bool.and_or_distrib_right, ← Bool.decide_or]
        congr 1
        exact decide_eq_decide.2 (by omega)

end Drbd.Xfer
