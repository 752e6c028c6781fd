import Drbd.Lib.Bits
import Drbd.Vli.Defs
import Drbd.Vli.Lemmas.Code

/-!
# Bit streams read back

A byte buffer is a sequence of bits, lowest bit of a byte first. Putting adds a number at the cursor;
getting shows the bits from the cursor on, as far as they are valid.
-/

namespace Drbd.Vli

open Lib

variable {bs bs' : Bitstream}

/-- Bit `j` of the buffer. -/
def streamBit (buf : Nat → Nat) (j : Nat) : Bool :=
  (buf (j / 8)).testBit (j % 8)

def Bitstream.pos (bs : Bitstream) : Nat :=
  8 * bs.byte + bs.bit

/-- The cursor is normalized, and the buffer holds bytes. -/
structure Bitstream.Ok (bs : Bitstream) : Prop where
  bit : bs.bit < 8
  bytes : ∀ q, bs.buf q < 2 ^ 8

theorem Bitstream.pos_advance (bs : Bitstream) (n : Nat) : (bs.advance n).pos = bs.pos + n := by
  simp only [advance, pos]
  omega

/-! ## Putting -/

theorem foldl_putBytes (val start byte n : Nat) (buf : Nat → Nat) (q : Nat) :
    (List.range n).foldl (fun buf k =>
      Function.update buf (byte + k) (buf (byte + k) ||| ((val >>> (start + 8 * k)) &&& 0xff))) buf q
      = if byte ≤ q ∧ q < byte + n then buf q ||| ((val >>> (start + 8 * (q - byte))) &&& 0xff)
        else buf q := by
  induction n with
  | zero => rw [if_neg (by omega)]; rfl
  | succ n ih =>
      rw [List.range_succ, List.foldl_append, List.foldl_cons, List.foldl_nil]
      by_cases hq : q = byte + n
      · subst hq
        rw [Function.update_self, ih, if_neg (by omega), if_pos (by omega), Nat.add_sub_cancel_left]
      · rw [Function.update_of_ne hq, ih]
        by_cases hin : byte ≤ q ∧ q < byte + n
        · rw [if_pos hin, if_pos (by omega)]
        · rw [if_neg hin, if_neg (by omega)]

theorem testBit_byte (x r : Nat) (hr : r < 8) : (x &&& 0xff).testBit r = x.testBit r := by
  rw [show (0xff : Nat) = 2 ^ 8 - 1 from rfl, Nat.testBit_and, Nat.testBit_two_pow_sub_one,
    decide_eq_true hr, Bool.and_true]

theorem land_byte_lt (x : Nat) : x &&& 0xff < 2 ^ 8 := by
  rw [show (0xff : Nat) = 2 ^ 8 - 1 from rfl, Nat.and_two_pow_sub_one_eq_mod]
  exact Nat.mod_lt _ (by decide)

/-- What `bitstream_put_bits` leaves: the value at the old cursor, the rest as it was. -/
structure Puts (bs bs' : Bitstream) (val bits : Nat) : Prop where
  ok : bs'.Ok
  bufLen : bs'.bufLen = bs.bufLen
  pos : bs'.pos = bs.pos + bits
  fits : bs'.pos ≤ 8 * bs'.bufLen
  bit : ∀ j, streamBit bs'.buf j
    = (streamBit bs.buf j || (decide (bs.pos ≤ j) && val.testBit (j - bs.pos)))

theorem bitstreamPutBits_spec {val bits : Nat} (hok : bs.Ok) (hval : val < 2 ^ bits) (hpos : 0 < bits)
    (hmax : bits ≤ 64) (h : bitstreamPutBits bs val bits = .ok bs') : Puts bs bs' val bits := by
  unfold bitstreamPutBits at h
  rw [if_neg (by omega)] at h
  split at h
  · cases h
  dsimp only at h
  have hstrip : (if bits < 64 then val &&& (ullMax >>> (64 - bits)) else val) = val := by
    split
    · rw [land_mask val hmax, Nat.mod_eq_of_lt hval]
    · rfl
  rw [hstrip] at h
  cases h
  have hbit := hok.bit
  -- the bytes the buffer now holds
  generalize hfirst : Function.update bs.buf bs.byte
    (bs.buf bs.byte ||| ((val &&& 0xff) <<< bs.bit % 2 ^ 8)) = buf₁
  have hbuf₁ : ∀ q, buf₁ q = if q = bs.byte then bs.buf q ||| ((val &&& 0xff) <<< bs.bit % 2 ^ 8)
      else bs.buf q := by
    intro q
    rw [← hfirst]
    by_cases hq : q = bs.byte
    · subst hq; simp
    · simp [hq]
  have hbuf : ∀ q, putBytes buf₁ (bs.byte + 1) val (8 - bs.bit) bits q
      = if bs.byte + 1 ≤ q ∧ q < bs.byte + 1 + (bits - (8 - bs.bit) + 7) / 8
        then buf₁ q ||| ((val >>> (8 - bs.bit + 8 * (q - (bs.byte + 1)))) &&& 0xff) else buf₁ q :=
    fun q => foldl_putBytes val (8 - bs.bit) (bs.byte + 1) _ buf₁ q
  refine ⟨⟨?_, fun q => ?_⟩, rfl, Bitstream.pos_advance _ _, ?_, fun j => ?_⟩
  · simp only [Bitstream.advance]
    omega
  · simp only [Bitstream.advance]
    have hlt₁ : buf₁ q < 2 ^ 8 := by
      rw [hbuf₁]
      split
      · exact Nat.or_lt_two_pow (hok.bytes q) (Nat.mod_lt _ (by decide))
      · exact hok.bytes q
    rw [hbuf]
    split
    · exact Nat.or_lt_two_pow hlt₁ (land_byte_lt _)
    · exact hlt₁
  · rw [Bitstream.pos_advance]
    simp only [Bitstream.advance, Bitstream.pos]
    omega
  · have hcur : bs.pos = 8 * bs.byte + bs.bit := rfl
    simp only [Bitstream.advance, streamBit]
    have hr : j % 8 < 8 := Nat.mod_lt _ (by decide)
    have hhigh : ∀ k, bits ≤ k → val.testBit k = false := fun k hk =>
      Nat.testBit_lt_two_pow (lt_of_lt_of_le hval (Nat.pow_le_pow_right (by decide) hk))
    rw [hbuf, hbuf₁]
    rcases Nat.lt_trichotomy (j / 8) bs.byte with hlt | heq | hgt
    · rw [if_neg (by omega), if_neg (by omega), decide_eq_false (by omega)]
      simp
    · -- the first byte: the value is shifted up to the cursor
      rw [if_neg (by omega), if_pos heq, Nat.testBit_or, Nat.testBit_mod_two_pow, Nat.testBit_shiftLeft]
      by_cases hge : bs.bit ≤ j % 8
      · rw [decide_eq_true hr, decide_eq_true hge, decide_eq_true (by omega), testBit_byte _ _ (by omega),
          show j - bs.pos = j % 8 - bs.bit by omega]
        simp
      · rw [decide_eq_false hge, decide_eq_false (show ¬ bs.pos ≤ j by omega)]
        simp
    · rw [if_neg (show ¬ j / 8 = bs.byte by omega)]
      split
      · rename_i hin
        rw [Nat.testBit_or, testBit_byte _ _ hr, Nat.testBit_shiftRight, decide_eq_true (by omega),
          show 8 - bs.bit + 8 * (j / 8 - (bs.byte + 1)) + j % 8 = j - bs.pos by omega]
        simp
      · rw [hhigh (j - bs.pos) (by omega)]
        simp

/-- A stream with nothing after its cursor. -/
structure Bitstream.Open (bs : Bitstream) : Prop where
  ok : bs.Ok
  fits : bs.pos ≤ 8 * bs.bufLen
  clear : ∀ j, bs.pos ≤ j → streamBit bs.buf j = false

theorem Puts.opens {val bits : Nat} (h : Puts bs bs' val bits)
    (hopen : bs.Open) (hval : val < 2 ^ bits) : bs'.Open := by
  refine ⟨h.ok, h.fits, fun j hj => ?_⟩
  have hpos := h.pos
  rw [h.bit, hopen.clear j (by omega), Bool.false_or,
    Nat.testBit_lt_two_pow (lt_of_lt_of_le hval (Nat.pow_le_pow_right (by decide) (by omega))),
    Bool.and_false]

theorem Puts.spells {val bits : Nat} (h : Puts bs bs' val bits)
    (hopen : bs.Open) : Spells (streamBit bs'.buf) bs.pos bits val := by
  intro k _
  rw [h.bit, hopen.clear _ (by omega), decide_eq_true (by omega), Nat.add_sub_cancel_left]
  simp

theorem Puts.below {val bits : Nat} (h : Puts bs bs' val bits) {j : Nat}
    (hj : j < bs.pos) : streamBit bs'.buf j = streamBit bs.buf j := by
  rw [h.bit, decide_eq_false (by omega), Bool.false_and, Bool.or_false]

/-! ## Getting -/

theorem testBit_le64ToCpu {buf : Nat → Nat} (hbytes : ∀ q, buf q < 2 ^ 8) (n byte j : Nat) :
    (le64ToCpu buf byte n).testBit j = (decide (j < 8 * n) && streamBit buf (8 * byte + j)) := by
  induction n generalizing byte j with
  | zero => simp [le64ToCpu]
  | succ n ih =>
      rw [le64ToCpu, Nat.testBit_or, Nat.testBit_shiftLeft]
      by_cases hj : j < 8
      · rw [decide_eq_false (show ¬ 8 ≤ j by omega), decide_eq_true (by omega), streamBit,
          show (8 * byte + j) / 8 = byte by omega, show (8 * byte + j) % 8 = j by omega]
        simp
      · have hbyte : (buf byte).testBit j = false :=
          Nat.testBit_lt_two_pow (lt_of_lt_of_le (hbytes byte)
            (Nat.pow_le_pow_right (by decide) (by omega)))
        rw [hbyte, Bool.false_or, decide_eq_true (show 8 ≤ j by omega), Bool.true_and, ih,
          show 8 * (byte + 1) + (j - 8) = 8 * byte + j by omega]
        congr 1
        exact decide_eq_decide.2 (by omega)

/-- What `bitstream_get_bits` gives: the bits from the cursor on, which moves past them. -/
structure Gets (bs bs' : Bitstream) (val got : Nat) : Prop where
  ok : bs'.Ok
  buf : bs'.buf = bs.buf
  bufLen : bs'.bufLen = bs.bufLen
  padBits : bs'.padBits = bs.padBits
  pos : bs'.pos = bs.pos + got
  lt : val < 2 ^ got
  bit : ∀ k < got, val.testBit k = streamBit bs.buf (bs.pos + k)

theorem bitstreamGetBits_spec (hok : bs.Ok) (want : Nat) (hpos : 0 < want) (hmax : want ≤ 64)
    (hpad : bs.padBits < 8) (hend : bs.pos + bs.padBits ≤ 8 * bs.bufLen) :
    ∃ val bs', bitstreamGetBits bs want
        = .ok (val, min want (8 * bs.bufLen - bs.padBits - bs.pos), bs') ∧
      Gets bs bs' val (min want (8 * bs.bufLen - bs.padBits - bs.pos)) := by
  have hbit := hok.bit
  have hcur : bs.pos = 8 * bs.byte + bs.bit := rfl
  generalize hgot : min want (8 * bs.bufLen - bs.padBits - bs.pos) = got
  have hcut : (if bs.bufLen ≤ bs.byte + ((bs.bit + bs.padBits + want + 2 ^ 32 - 1) % 2 ^ 32) / 8
      then (bs.bufLen - bs.byte) * 8 - bs.bit - bs.padBits else want) = got := by
    split <;> omega
  unfold bitstreamGetBits
  rw [if_neg (by omega)]
  dsimp only
  rw [hcut]
  split
  · rename_i hzero
    refine ⟨0, bs, by rw [hzero], hok, rfl, rfl, rfl, by omega, Nat.two_pow_pos _, ?_⟩
    intro k hk
    omega
  · rename_i hne
    have hadv : (bs.advance got).Ok := ⟨by simp only [Bitstream.advance]; omega, hok.bytes⟩
    refine ⟨_, _, rfl, hadv, rfl, rfl, rfl, bs.pos_advance got, ?_, fun k hk => ?_⟩
    · rw [land_mask _ (by omega)]
      exact Nat.mod_lt _ (Nat.two_pow_pos _)
    · -- bit `k` comes from the first byte or from the bytes after it
      rw [land_mask _ (by omega), Nat.testBit_mod_two_pow, decide_eq_true hk, Bool.true_and,
        Nat.testBit_or, Nat.testBit_mod_two_pow, decide_eq_true (show k < 64 by omega), Bool.true_and,
        Nat.testBit_shiftLeft, testBit_le64ToCpu hok.bytes, Nat.testBit_shiftRight]
      by_cases hlow : bs.bit + k < 8
      · rw [decide_eq_false (show ¬ 8 - bs.bit ≤ k by omega), Bool.false_and, Bool.false_or, streamBit,
          show (bs.pos + k) / 8 = bs.byte by omega, show (bs.pos + k) % 8 = bs.bit + k by omega]
      · have hbyte : (bs.buf bs.byte).testBit (bs.bit + k) = false :=
          Nat.testBit_lt_two_pow (lt_of_lt_of_le (hok.bytes bs.byte)
            (Nat.pow_le_pow_right (by decide) (by omega)))
        rw [hbyte, decide_eq_true (show 8 - bs.bit ≤ k by omega), decide_eq_true (by omega),
          show 8 * (bs.byte + 1) + (k - (8 - bs.bit)) = bs.pos + k by omega]
        simp

end Drbd.Vli
