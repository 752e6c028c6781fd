import Drbd.Xfer.Lemmas.Packets

/-!
# The bitmap exchange as a whole
-/

namespace Drbd.Xfer

open Bitmap

/-- A bitmap as `drbd_bm_resize` and every operation after it keep it; the page index has 24 bits. -/
structure Sound (b : DrbdBitmap) : Prop where
  bits : b.bmBits ≤ 2 ^ 39
  noSurplus : NoSurplus b
  counted : b.bmSet = (List.range b.bmBits).countP b.bit

theorem Carries.noSurplus {src r r' : DrbdBitmap} {c c' : BmXferCtx} {again : Bool}
    (h : Carries src r r' c c' again) (hbits : r.bmBits = src.bmBits) (hsrc : NoSurplus src)
    (hr : NoSurplus r) : NoSurplus r' := by
  obtain ⟨lo, hi, _, _, hhi, hgains⟩ := h.gains
  refine hgains.noSurplus hr fun i hi' => ?_
  by_cases hw : i < src.bmWords * 64
  · rw [hsrc i (by omega) hw, Bool.and_false]
  · rw [decide_eq_false (by omega), Bool.false_and]

/-- What the receiver has gained when the loops end: bits of the sender only, and all from `off` on. -/
structure Received (src r r' : DrbdBitmap) (off : Nat) (new : Nat → Bool) : Prop where
  gains : Gains r r' new
  noSurplus : NoSurplus r'
  only : ∀ i, new i = true → src.bit i = true
  all : ∀ i, off ≤ i → i < src.bmBits → src.bit i = true → new i = true

/-- Both loops side by side, from any common position. -/
theorem loops_in_step {src : DrbdBitmap} (hmax : src.bmBits ≤ 2 ^ 39) (hsrc : NoSurplus src)
    (cfg : Settings) (version fuel : Nat) {k : Nat} {r : DrbdBitmap} {c : BmXferCtx}
    (hbits : r.bmBits = src.bmBits) (hr : NoSurplus r) (hc : InStep src c)
    (hfuel : src.bmBits - c.bitOffset < fuel) :
    ∃ trace r' new, sendLoop cfg version src fuel k c = some trace ∧
      receiveLoop version r c (trace.map Prod.fst) = some (r', trace.map Prod.snd, []) ∧
      Received src r r' c.bitOffset new := by
  induction fuel generalizing k r c with
  | zero => omega
  | succ fuel ih =>
      obtain ⟨c', p, again, r₁, hsend, hrecv, hcarries⟩ := carries hmax hbits hsrc hr hc (cfg.useRle k)
        version (cfg.encoding k)
      obtain ⟨lo, hi, hlo, hhi, _, hgains⟩ := hcarries.gains
      have hr₁ := hcarries.noSurplus hbits hsrc hr
      unfold sendLoop
      rw [hsend]
      cases again with
      | false =>
          refine ⟨[(p, c')], r₁, _, rfl, ?_, hgains, hr₁, fun i h => ?_, fun i hge hlt hbit => ?_⟩
          · show receiveLoop version r c [p] = _
            unfold receiveLoop
            rw [hrecv]
            rfl
          · exact (Bool.and_eq_true_iff.1 h).2
          · rw [hbit, Bool.and_true]
            apply decide_eq_true
            rcases hcarries.done rfl with h | h <;> omega
      | true =>
          obtain ⟨hc', hlt⟩ := hcarries.next rfl
          have hle := hc'.le
          have hcb := hc'.bits
          obtain ⟨trace, r', new, hsends, hrecvs, hrest⟩ := ih (k := k + 1) (hgains.bits.trans hbits) hr₁ hc'
            (by omega)
          refine ⟨(p, c') :: trace, r', _, by dsimp only; rw [if_pos rfl, hsends]; rfl, ?_,
            hgains.trans hrest.gains, hrest.noSurplus, fun i h => ?_, fun i hge hlt hbit => ?_⟩
          · rw [List.map_cons]
            unfold receiveLoop
            rw [hrecv]
            dsimp only
            rw [if_pos rfl, hrecvs]
            rfl
          · rcases Bool.or_eq_true_iff.1 h with h | h
            · exact (Bool.and_eq_true_iff.1 h).2
            · exact hrest.only i h
          · by_cases hpast : c'.bitOffset ≤ i
            · rw [hrest.all i hpast hlt hbit, Bool.or_true]
            · rw [hbit, decide_eq_true (by omega)]
              rfl

/-- The two loops end without an error and at the same positions, and the receiver has the union. -/
theorem bitmap_exchange (cfg : Settings) (agreedProVersion : Nat) (S R : DrbdBitmap) (hS : Sound S)
    (hR : Sound R) (hbits : S.bmBits = R.bmBits) :
    ∃ trace R', drbdSendBitmap cfg agreedProVersion S = some trace ∧
      receiveBitmap agreedProVersion R (trace.map Prod.fst) = some (R', trace.map Prod.snd, []) ∧
      R'.bmBits = R.bmBits ∧ (∀ i < R.bmBits, R'.bit i = (S.bit i || R.bit i)) ∧ Sound R' := by
  obtain ⟨trace, R', new, hsend, hrecv, hgains, hsurplus, honly, hall⟩ := loops_in_step hS.bits hS.noSurplus
    cfg agreedProVersion (S.bmBits + 2) (k := 0) hbits.symm hR.noSurplus (InStep.start S)
    (show S.bmBits - 0 < _ by omega)
  have hstart : BmXferCtx.start S = .start R := by
    unfold BmXferCtx.start
    rw [hbits, DrbdBitmap.bmWords_congr hbits]
  rw [hstart] at hrecv
  refine ⟨trace, R', hsend, hrecv, hgains.bits, fun i hi => ?_, by rw [hgains.bits]; exact hR.bits, hsurplus, ?_⟩
  · rw [hgains.bit]
    congr 1
    apply Bool.eq_iff_iff.2
    exact ⟨honly i, hall i (Nat.zero_le _) (by omega)⟩
  · have hcounted : Counted R := by
      rw [Counted, weight_eq_countP hR.noSurplus]
      exact hR.counted
    rw [show R'.bmSet = _ from hgains.counted hcounted, weight_eq_countP hsurplus]

def threeBits (w : BitVec 64) (bmSet : Nat) : DrbdBitmap :=
  { bmBits := 3, bmSet := bmSet, word := fun k => if k = 0 then w else 0, needWriteout := fun _ => false,
    lazyWriteout := fun _ => false }

theorem sound_threeBits {w : BitVec 64} {n : Nat} (hhigh : ∀ k < 64, 3 ≤ k → w.getLsbD k = false)
    (hcount : n = (List.range 3).countP fun k => w.getLsbD k) : Sound (threeBits w n) := by
  refine ⟨show 3 ≤ 2 ^ 39 by decide, fun i hge hlt => ?_, ?_⟩
  · have hlt : i < 64 := lt_of_lt_of_eq hlt (show (3 + 63) / 64 * 64 = 64 by decide)
    show (if i / 64 = 0 then w else 0).getLsbD (i % 64) = false
    rw [if_pos (by omega), Nat.mod_eq_of_lt hlt]
    exact hhigh i hlt hge
  · rw [hcount]
    rfl

/-- Ones at 0 and 2 sent to a bitmap with the one at 1: afterwards all three are set. -/
theorem bitmap_exchange_union :
    ∃ trace R', drbdSendBitmap ⟨fun _ => true, fun _ => 0⟩ 100 (threeBits 5 2) = some trace ∧
      receiveBitmap 100 (threeBits 2 1) (trace.map Prod.fst) = some (R', trace.map Prod.snd, []) ∧
      (∀ i < 3, R'.bit i = true) ∧ R'.bmSet = 3 := by
  obtain ⟨trace, R', hsend, hrecv, hbits, hor, hsound⟩ := bitmap_exchange ⟨fun _ => true, fun _ => 0⟩ 100
    (threeBits 5 2) (threeBits 2 1) (sound_threeBits (by decide) rfl) (sound_threeBits (by decide) rfl) rfl
  have hall : ∀ i < 3, R'.bit i = true := by
    intro i hi
    rw [hor i hi]
    revert i
    decide
  refine ⟨trace, R', hsend, hrecv, hall, ?_⟩
  rw [hsound.counted, hbits]
  exact (List.countP_eq_length.2 fun i hi => hall i (List.mem_range.1 hi)).trans rfl

end Drbd.Xfer
