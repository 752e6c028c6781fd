import Drbd.Vli.Lemmas.Stream

/-!
# The code and the stream as a whole
-/

namespace Drbd.Vli

/-! ## The code -/

/-- The largest value that `__vli_encode_bits` takes: what all levels have room for. -/
def vliMax : Nat := (levels.map fun l => 2 ^ (l.t - l.b)).sum

theorem encodeLevels_overflow {ls : List Level} {inp max adj : Nat}
    (hsum : max + (ls.map fun l => 2 ^ (l.t - l.b)).sum < inp) :
    encodeLevels inp ls max adj = .error .eoverflow := by
  induction ls generalizing max adj with
  | nil => rfl
  | cons l ls ih =>
      simp only [List.map_cons, List.sum_cons] at hsum
      unfold encodeLevels
      dsimp only
      rw [Nat.shiftLeft_eq, Nat.one_mul, if_neg (by omega)]
      exact ih (by omega)

/-- The leading bits of some level begin every input. -/
theorem levels_complete (inp : Nat) : ∃ l ∈ levels, inp % 2 ^ l.b = l.v := by
  have hbyte : ∀ r < 2 ^ 8, ∃ l ∈ levels, r % 2 ^ l.b = l.v := by decide +kernel
  have hshort : ∀ l ∈ levels, l.b ≤ 8 := by decide
  obtain ⟨l, hl, hv⟩ := hbyte (inp % 2 ^ 8) (Nat.mod_lt _ (by decide))
  refine ⟨l, hl, ?_⟩
  rw [← hv, Nat.mod_mod_of_dvd _ (pow_dvd_pow 2 (hshort l hl))]

theorem decodeLevels_isSome {ls : List Level} {inp : Nat} (adj : Nat)
    (h : ∃ l ∈ ls, inp % 2 ^ l.b = l.v) : ∃ out, ∃ l ∈ ls, decodeLevels inp ls adj = some (out, l.t) := by
  induction ls generalizing adj with
  | nil =>
      obtain ⟨l, hl, _⟩ := h
      cases hl
  | cons l ls ih =>
      unfold decodeLevels
      rw [Nat.shiftLeft_eq, Nat.one_mul, Nat.and_two_pow_sub_one_eq_mod]
      split
      · exact ⟨_, l, List.mem_cons_self, rfl⟩
      · rename_i hne
        obtain ⟨l', hl', hv⟩ := h
        rcases List.mem_cons.1 hl' with rfl | hl'
        · exact absurd hv hne
        · obtain ⟨out, l'', hl'', hout⟩ := ih (adj + 1 <<< (l.t - l.b)) ⟨l', hl', hv⟩
          exact ⟨out, l'', List.mem_cons_of_mem _ hl'', hout⟩

/-- Every input is decoded; the `BUG()` is out of reach. -/
theorem vliDecodeBits_total (inp : Nat) :
    ∃ n t, vliDecodeBits inp = some (n, t) ∧ 1 ≤ n ∧ n ≤ vliMax ∧ t ≤ 64 := by
  obtain ⟨n, l, hl, h⟩ := decodeLevels_isSome 1 (levels_complete inp)
  have hbounds := decodeLevels_bounds levels_ok h
  refine ⟨n, l.t, h, hbounds.1, ?_, (levels_ok l hl).2.2⟩
  unfold vliMax
  omega

theorem vliCode_some {n : Nat} (hpos : 0 < n) (hmax : n ≤ vliMax) :
    ∃ code t, vliCode n = .ok (code, t) ∧ code < 2 ^ t ∧ t ≤ 64 := by
  obtain ⟨code, t, hcode, hlt⟩ := encodeLevels_lt levels_ok hpos (by unfold vliMax at hmax; omega)
  obtain ⟨l, hl, _, rfl⟩ := encodeLevels_mem hcode levels_ok
  refine ⟨code, l.t, ?_, hlt, (levels_ok l hl).2.2⟩
  rw [vliCode, if_neg (by omega)]
  exact hcode

theorem vliCode_overflow {n : Nat} (h : vliMax < n) : vliCode n = .error .eoverflow := by
  rw [vliCode, if_neg (by omega)]
  exact encodeLevels_overflow (by unfold vliMax at h; omega)

theorem vliCode_lt {n code t : Nat} (h : vliCode n = .ok (code, t)) : code < 2 ^ t := by
  rcases Nat.eq_zero_or_pos n with rfl | hpos
  · cases h
  · by_cases hmax : n ≤ vliMax
    · obtain ⟨code', t', hcode, hlt, _⟩ := vliCode_some hpos hmax
      cases hcode.symm.trans h
      exact hlt
    · cases (vliCode_overflow (by omega)).symm.trans h

/-- A code word followed by any bits is read back; the code fails for 0 and above its maximum only; every
input is read as some value; and no code word begins another. -/
theorem vli_prefix_code :
    (∀ n, 1 ≤ n → n ≤ vliMax → ∃ code t, vliCode n = .ok (code, t) ∧ code < 2 ^ t ∧ t ≤ 64 ∧
      ∀ inp, inp % 2 ^ t = code → vliDecodeBits inp = some (n, t)) ∧
    (∀ n, vliCode n = .error .eoverflow ↔ vliMax < n) ∧
    (∀ n, vliCode n = .error .einval ↔ n = 0) ∧
    (∀ inp, ∃ n t, vliDecodeBits inp = some (n, t) ∧ 1 ≤ n ∧ n ≤ vliMax ∧ t ≤ 64) ∧
    ∀ m n c t c' t', vliCode m = .ok (c, t) → vliCode n = .ok (c', t') → m ≠ n → t ≤ t' →
      c' % 2 ^ t ≠ c := by
  refine ⟨fun n hpos hmax => ?_, fun n => ⟨fun h => ?_, vliCode_overflow⟩, fun n => ⟨fun h => ?_, ?_⟩,
    vliDecodeBits_total, fun m n c t c' t' hm hn hne _ hsame => ?_⟩
  · obtain ⟨code, t, hcode, hlt, ht⟩ := vliCode_some hpos hmax
    exact ⟨code, t, hcode, hlt, ht, fun inp hinp => vliDecodeBits_of_code hcode hinp⟩
  · by_contra hle
    rcases Nat.eq_zero_or_pos n with rfl | hpos
    · cases h
    · obtain ⟨code, t, hcode, _⟩ := vliCode_some hpos (by omega)
      cases hcode.symm.trans h
  · by_contra hne
    by_cases hmax : n ≤ vliMax
    · obtain ⟨code, t, hcode, _⟩ := vliCode_some (by omega) hmax
      cases hcode.symm.trans h
    · cases (vliCode_overflow (by omega)).symm.trans h
  · rintro rfl
    rfl
  · -- the longer word would be decoded as both values
    have hlong : vliDecodeBits c' = some (n, t') := by
      refine vliDecodeBits_of_code hn (Nat.mod_eq_of_lt ?_)
      exact vliCode_lt hn
    cases (vliDecodeBits_of_code hm hsame).symm.trans hlong
    exact hne rfl

theorem vli_prefix_code_at_last :
    (∃ code t, vliCode vliMax = .ok (code, t) ∧ code < 2 ^ t ∧ t ≤ 64 ∧
      ∀ inp, inp % 2 ^ t = code → vliDecodeBits inp = some (vliMax, t)) ∧
    (2 : Nat) % 2 ^ 2 ≠ 0 :=
  ⟨vli_prefix_code.1 vliMax (by decide) le_rfl,
    vli_prefix_code.2.2.2.2 1 2 0 2 2 2 (by decide) (by decide) (by decide) le_rfl⟩

/-! ## The stream -/

/-- Values of given widths, lowest bit first, one after the other. -/
def bitString (ps : List (Nat × Nat)) : List Bool :=
  ps.flatMap fun p => (List.range p.2).map p.1.testBit

/-- Put until a put is refused: the stream left and the pairs taken. -/
def putWhile (bs : Bitstream) : List (Nat × Nat) → Bitstream × List (Nat × Nat)
  | [] => (bs, [])
  | (val, bits) :: ps =>
      match bitstreamPutBits bs val bits with
      | .ok bs' => ((putWhile bs' ps).1, (val, bits) :: (putWhile bs' ps).2)
      | .error _ => (bs, [])

/-- Get with one width after the other: the values, each with the number of bits fetched. -/
def getMany (bs : Bitstream) : List Nat → Except Error (List (Nat × Nat) × Bitstream)
  | [] => .ok ([], bs)
  | bits :: ws =>
      match bitstreamGetBits bs bits with
      | .ok (val, got, bs') => (getMany bs' ws).map fun r => ((val, got) :: r.1, r.2)
      | .error e => .error e

/-- The stream a reader of the bytes used is given. -/
def Bitstream.reread (bs : Bitstream) : Bitstream :=
  bitstreamInit bs.buf (bs.byte + if bs.bit = 0 then 0 else 1) ((8 - bs.bit) % 8)

@[simp] theorem bitString_nil : bitString [] = [] := rfl

@[simp] theorem bitString_cons (p : Nat × Nat) (ps : List (Nat × Nat)) :
    bitString (p :: ps) = (List.range p.2).map p.1.testBit ++ bitString ps := rfl

theorem bitString_length (ps : List (Nat × Nat)) :
    (bitString ps).length = (ps.map Prod.snd).sum := by
  induction ps with
  | nil => rfl
  | cons p ps ih => simp [ih]

theorem eq_of_bitString_eq {ps qs : List (Nat × Nat)} (hwidths : ps.map Prod.snd = qs.map Prod.snd)
    (hp : ∀ p ∈ ps, p.1 < 2 ^ p.2) (hq : ∀ q ∈ qs, q.1 < 2 ^ q.2)
    (hbits : bitString ps = bitString qs) : ps = qs := by
  induction ps generalizing qs with
  | nil =>
      cases qs with
      | nil => rfl
      | cons q qs => cases hwidths
  | cons p ps ih =>
      cases qs with
      | nil => cases hwidths
      | cons q qs =>
          obtain ⟨hwidth, htail⟩ := List.cons.inj hwidths
          obtain ⟨v, w⟩ := p
          obtain ⟨v', w'⟩ := q
          subst hwidth
          rw [bitString_cons, bitString_cons] at hbits
          obtain ⟨hfirst, hrest⟩ := List.append_inj hbits (by simp)
          have hval : v = v' := by
            refine Nat.eq_of_testBit_eq fun k => ?_
            by_cases hk : k < w
            · exact List.map_inj_left.1 hfirst k (List.mem_range.2 hk)
            · have hpow : 2 ^ w ≤ 2 ^ k := Nat.pow_le_pow_right (by decide) (by omega)
              rw [Nat.testBit_lt_two_pow (lt_of_lt_of_le (hp _ List.mem_cons_self) hpow),
                Nat.testBit_lt_two_pow (lt_of_lt_of_le (hq _ List.mem_cons_self) hpow)]
          rw [hval, ih htail (fun p h => hp p (List.mem_cons_of_mem _ h))
            (fun q h => hq q (List.mem_cons_of_mem _ h)) hrest]

/-! ### Putting -/

section

variable {bs bs' : Bitstream} {val bits : Nat}

theorem bitstreamPutBits_mask (hval : val < 2 ^ 64) (hmax : bits ≤ 64) :
    bitstreamPutBits bs val bits = bitstreamPutBits bs (val % 2 ^ bits) bits := by
  have hstrip : ∀ v < 2 ^ 64, (if bits < 64 then v &&& (ullMax >>> (64 - bits)) else v) = v % 2 ^ bits := by
    intro v hv
    split
    · exact land_mask v hmax
    · rw [show bits = 64 by omega, Nat.mod_eq_of_lt hv]
  have hlow : val % 2 ^ bits < 2 ^ 64 := lt_of_le_of_lt (Nat.mod_le _ _) hval
  unfold bitstreamPutBits
  rw [hstrip val hval, hstrip _ hlow, Nat.mod_mod]

theorem bitstreamPutBits_error (hpos : 0 < bits) :
    bitstreamPutBits bs val bits = .error .enobufs ↔ 8 * bs.bufLen < bs.pos + bits := by
  unfold bitstreamPutBits
  rw [if_neg (by omega)]
  dsimp only [Bitstream.pos]
  split
  · simp only [true_iff]
    omega
  · simp only [reduceCtorEq, false_iff]
    omega

theorem bitstreamPutBits_puts (hok : bs.Ok) (hval : val < 2 ^ 64) (hpos : 0 < bits) (hmax : bits ≤ 64)
    (h : bitstreamPutBits bs val bits = .ok bs') : Puts bs bs' (val % 2 ^ bits) bits := by
  rw [bitstreamPutBits_mask hval hmax] at h
  exact bitstreamPutBits_spec hok (Nat.mod_lt _ (Nat.two_pow_pos _)) hpos hmax h

theorem Puts.outside (h : Puts bs bs' (val % 2 ^ bits) bits) {j : Nat}
    (hj : j < bs.pos ∨ bs.pos + bits ≤ j) : streamBit bs'.buf j = streamBit bs.buf j := by
  rcases hj with hj | hj
  · exact h.below hj
  · have hlt : val % 2 ^ bits < 2 ^ (j - bs.pos) :=
      lt_of_lt_of_le (Nat.mod_lt _ (Nat.two_pow_pos _)) (Nat.pow_le_pow_right (by decide) (by omega))
    rw [h.bit, Nat.testBit_lt_two_pow hlt, Bool.and_false, Bool.or_false]

end

/-- What a sequence of puts leaves. -/
structure Writes (bs bs' : Bitstream) (taken : List (Nat × Nat)) : Prop where
  ok : bs'.Ok
  bufLen : bs'.bufLen = bs.bufLen
  pos : bs'.pos = bs.pos + (taken.map Prod.snd).sum
  fits : bs'.pos ≤ 8 * bs.bufLen
  outside : ∀ j, j < bs.pos ∨ bs'.pos ≤ j → streamBit bs'.buf j = streamBit bs.buf j
  bits : bitString taken
    = (List.range (taken.map Prod.snd).sum).map fun k => streamBit bs'.buf (bs.pos + k)

theorem map_range_add {α : Type} (f : Nat → α) (m n : Nat) :
    (List.range (m + n)).map f = (List.range m).map f ++ (List.range n).map fun k => f (m + k) := by
  rw [List.range_add, List.map_append, List.map_map]
  rfl

theorem Writes.cons {bs bs₁ bs' : Bitstream} {val bits : Nat} {taken : List (Nat × Nat)}
    (hput : Puts bs bs₁ (val % 2 ^ bits) bits)
    (hclear : ∀ j, bs.pos ≤ j → j < bs.pos + bits → streamBit bs.buf j = false)
    (h : Writes bs₁ bs' taken) : Writes bs bs' ((val, bits) :: taken) := by
  have hpos := hput.pos
  have hpos' := h.pos
  refine ⟨h.ok, h.bufLen.trans hput.bufLen, ?_, ?_, fun j hj => ?_, ?_⟩
  · rw [List.map_cons, List.sum_cons]
    omega
  · rw [← hput.bufLen]
    exact h.fits
  · rw [h.outside j (by omega), hput.outside (by omega)]
  · rw [List.map_cons, List.sum_cons, map_range_add, bitString_cons, h.bits]
    congr 1
    · refine List.map_inj_left.2 fun k hk => ?_
      have hk : k < bits := List.mem_range.1 hk
      rw [h.outside _ (by omega), hput.bit, hclear _ (by omega) (by omega), Bool.false_or,
        decide_eq_true (by omega), Bool.true_and, Nat.add_sub_cancel_left, Nat.testBit_mod_two_pow,
        decide_eq_true hk, Bool.true_and]
    · refine List.map_inj_left.2 fun k _ => ?_
      rw [hpos, Nat.add_assoc]

theorem putWhile_writes {bs : Bitstream} {ps : List (Nat × Nat)} (hok : bs.Ok)
    (hfits : bs.pos ≤ 8 * bs.bufLen)
    (hclear : ∀ j, bs.pos ≤ j → j < 8 * bs.bufLen → streamBit bs.buf j = false)
    (hps : ∀ p ∈ ps, p.1 < 2 ^ 64 ∧ 1 ≤ p.2 ∧ p.2 ≤ 64) :
    Writes bs (putWhile bs ps).1 (putWhile bs ps).2 := by
  induction ps generalizing bs with
  | nil => exact ⟨hok, rfl, rfl, hfits, fun _ _ => rfl, rfl⟩
  | cons p ps ih =>
      obtain ⟨val, bits⟩ := p
      obtain ⟨hval, hpos, hmax⟩ := hps _ List.mem_cons_self
      unfold putWhile
      cases hput : bitstreamPutBits bs val bits with
      | error e => exact ⟨hok, rfl, rfl, hfits, fun _ _ => rfl, rfl⟩
      | ok bs₁ =>
          have h₁ := bitstreamPutBits_puts hok hval hpos hmax hput
          have hlen := h₁.bufLen
          have hpos₁ := h₁.pos
          have hfits₁ := h₁.fits
          refine Writes.cons h₁ (fun j hj hlt => hclear j hj (by omega)) (ih h₁.ok hfits₁ ?_ ?_)
          · intro j hj hlt
            rw [h₁.outside (by omega), hclear j (by omega) (by omega)]
          · exact fun p hp => hps p (List.mem_cons_of_mem _ hp)

theorem putWhile_refused {bs : Bitstream} {ps : List (Nat × Nat)} (hps : ∀ p ∈ ps, 1 ≤ p.2) :
    ∃ rest, ps = (putWhile bs ps).2 ++ rest ∧
      ∀ p ∈ rest.head?, bitstreamPutBits (putWhile bs ps).1 p.1 p.2 = .error .enobufs := by
  induction ps generalizing bs with
  | nil => exact ⟨[], rfl, by simp⟩
  | cons p ps ih =>
      obtain ⟨val, bits⟩ := p
      have hpos : 1 ≤ bits := hps _ List.mem_cons_self
      unfold putWhile
      cases hput : bitstreamPutBits bs val bits with
      | error e =>
          refine ⟨(val, bits) :: ps, rfl, ?_⟩
          rintro p ⟨⟩
          unfold bitstreamPutBits at hput ⊢
          rw [if_neg (by omega)] at hput ⊢
          split at hput
          · rename_i hfull
            rw [if_pos hfull]
          · cases hput
      | ok bs₁ =>
          obtain ⟨rest, hrest, hhead⟩ := @ih bs₁ fun p hp => hps p (List.mem_cons_of_mem _ hp)
          exact ⟨rest, congrArg _ hrest, hhead⟩

/-! ### Getting -/

/-- What a sequence of gets yields. -/
structure Reads (bs bs' : Bitstream) (ws : List Nat) (l : List (Nat × Nat)) : Prop where
  ok : bs'.Ok
  buf : bs'.buf = bs.buf
  bufLen : bs'.bufLen = bs.bufLen
  padBits : bs'.padBits = bs.padBits
  pos : bs'.pos = bs.pos + min ws.sum (8 * bs.bufLen - bs.padBits - bs.pos)
  lt : ∀ p ∈ l, p.1 < 2 ^ p.2
  full : ws.sum ≤ 8 * bs.bufLen - bs.padBits - bs.pos → l.map Prod.snd = ws
  bits : bitString l = (List.range (min ws.sum (8 * bs.bufLen - bs.padBits - bs.pos))).map
    fun k => streamBit bs.buf (bs.pos + k)

theorem Reads.cons {bs bs₁ bs' : Bitstream} {want val got : Nat} {ws : List Nat} {l : List (Nat × Nat)}
    (hgot : got = min want (8 * bs.bufLen - bs.padBits - bs.pos)) (hget : Gets bs bs₁ val got)
    (h : Reads bs₁ bs' ws l) : Reads bs bs' (want :: ws) ((val, got) :: l) := by
  have hpos := hget.pos
  have hpos' := h.pos
  have hfull := h.full
  have hsplit : min (want + ws.sum) (8 * bs.bufLen - bs.padBits - bs.pos)
      = got + min ws.sum (8 * bs₁.bufLen - bs₁.padBits - bs₁.pos) := by
    rw [hget.bufLen, hget.padBits, hpos]
    omega
  refine ⟨h.ok, h.buf.trans hget.buf, h.bufLen.trans hget.bufLen, h.padBits.trans hget.padBits, ?_,
    ?_, fun hle => ?_, ?_⟩
  · rw [List.sum_cons, hsplit]
    omega
  · intro p hp
    rcases List.mem_cons.1 hp with rfl | hp
    · exact hget.lt
    · exact h.lt p hp
  · rw [List.sum_cons] at hle
    rw [hget.bufLen, hget.padBits, hpos] at hfull
    rw [List.map_cons, hfull (by omega), hgot, Nat.min_eq_left (by omega)]
  · rw [List.sum_cons, hsplit, map_range_add, bitString_cons, h.bits, hget.buf]
    congr 1
    · exact List.map_inj_left.2 fun k hk => hget.bit k (List.mem_range.1 hk)
    · refine List.map_inj_left.2 fun k _ => ?_
      rw [hpos, Nat.add_assoc]

theorem getMany_reads {bs : Bitstream} {ws : List Nat} (hok : bs.Ok) (hpad : bs.padBits < 8)
    (hend : bs.pos + bs.padBits ≤ 8 * bs.bufLen) (hws : ∀ n ∈ ws, 1 ≤ n ∧ n ≤ 64) :
    ∃ l bs', getMany bs ws = .ok (l, bs') ∧ Reads bs bs' ws l := by
  induction ws generalizing bs with
  | nil => exact ⟨[], bs, rfl, hok, rfl, rfl, rfl, by simp, by simp, by simp, by simp⟩
  | cons want ws ih =>
      obtain ⟨hpos, hmax⟩ := hws _ List.mem_cons_self
      obtain ⟨val, bs₁, hget, hgets⟩ := bitstreamGetBits_spec hok want hpos hmax hpad hend
      have hpos₁ := hgets.pos
      obtain ⟨l, bs', hmany, hreads⟩ := @ih bs₁ hgets.ok (by rw [hgets.padBits]; exact hpad)
        (by rw [hgets.padBits, hgets.bufLen]; omega) fun n hn => hws n (List.mem_cons_of_mem _ hn)
      refine ⟨_, bs', ?_, hreads.cons rfl hgets⟩
      unfold getMany
      rw [hget]
      dsimp only
      rw [hmany]
      rfl

theorem bitstreamGetBits_empty {bs : Bitstream} {bits : Nat} (hok : bs.Ok) (hpad : bs.padBits < 8)
    (hend : bs.pos + bs.padBits = 8 * bs.bufLen) (hpos : 1 ≤ bits) (hmax : bits ≤ 64) :
    bitstreamGetBits bs bits = .ok (0, 0, bs) := by
  have hbit := hok.bit
  have hcur : bs.pos = 8 * bs.byte + bs.bit := rfl
  have hcut : (if bs.bufLen ≤ bs.byte + ((bs.bit + bs.padBits + bits + 2 ^ 32 - 1) % 2 ^ 32) / 8
      then (bs.bufLen - bs.byte) * 8 - bs.bit - bs.padBits else bits) = 0 := by
    rw [if_pos (by omega)]
    omega
  unfold bitstreamGetBits
  rw [if_neg (by omega)]
  dsimp only
  rw [hcut, if_pos rfl]

theorem bitString_mask (ps : List (Nat × Nat)) :
    bitString (ps.map fun p => (p.1 % 2 ^ p.2, p.2)) = bitString ps := by
  induction ps with
  | nil => rfl
  | cons p ps ih =>
      rw [List.map_cons, bitString_cons, bitString_cons, ih]
      congr 1
      refine List.map_inj_left.2 fun k hk => ?_
      rw [Nat.testBit_mod_two_pow, decide_eq_true (List.mem_range.1 hk), Bool.true_and]

section

variable {buf : Nat → Nat} {len : Nat}

theorem bitstreamInit_ok (hbytes : ∀ q, buf q < 2 ^ 8) (pad : Nat) : (bitstreamInit buf len pad).Ok :=
  ⟨Nat.zero_lt_succ 7, hbytes⟩

theorem putWhile_init_writes {ps : List (Nat × Nat)} (hbytes : ∀ q, buf q < 2 ^ 8)
    (hzero : ∀ q < len, buf q = 0) (hps : ∀ p ∈ ps, p.1 < 2 ^ 64 ∧ 1 ≤ p.2 ∧ p.2 ≤ 64) (pad : Nat) :
    Writes (bitstreamInit buf len pad) (putWhile (bitstreamInit buf len pad) ps).1
      (putWhile (bitstreamInit buf len pad) ps).2 := by
  refine putWhile_writes (bitstreamInit_ok hbytes pad) (Nat.zero_le _) (fun j _ hj => ?_) hps
  have hj : j < 8 * len := hj
  show (buf (j / 8)).testBit (j % 8) = false
  rw [hzero _ (by omega), Nat.zero_testBit]

theorem Writes.reread {bs' : Bitstream} {taken : List (Nat × Nat)} {ws : List Nat} {pad : Nat}
    (h : Writes (bitstreamInit buf len pad) bs' taken) (hws : ∀ n ∈ ws, 1 ≤ n ∧ n ≤ 64) :
    ∃ l r, getMany bs'.reread ws = .ok (l, r) ∧ bitString l = (bitString taken).take ws.sum ∧
      (∀ p ∈ l, p.1 < 2 ^ p.2) ∧ (ws.sum ≤ (taken.map Prod.snd).sum → l.map Prod.snd = ws) := by
  have hbit := h.ok.bit
  have hcur : bs'.pos = 8 * bs'.byte + bs'.bit := rfl
  have hpos : bs'.pos = 0 + (taken.map Prod.snd).sum := h.pos
  have hused : 8 * (bs'.byte + if bs'.bit = 0 then 0 else 1) = bs'.pos + (8 - bs'.bit) % 8 := by
    split <;> omega
  have hleft : 8 * bs'.reread.bufLen - bs'.reread.padBits - bs'.reread.pos = (taken.map Prod.snd).sum := by
    show 8 * (bs'.byte + if bs'.bit = 0 then 0 else 1) - (8 - bs'.bit) % 8 - 0 = _
    omega
  obtain ⟨l, r, hget, hreads⟩ := @getMany_reads bs'.reread ws (bitstreamInit_ok h.ok.bytes _)
    (Nat.mod_lt _ (by decide)) (show 8 * 0 + 0 + (8 - bs'.bit) % 8 ≤ 8 * (bs'.byte + _) by omega) hws
  refine ⟨l, r, hget, ?_, hreads.lt, fun hle => hreads.full (by omega)⟩
  rw [hreads.bits, h.bits, hleft, ← List.map_take, List.take_range]
  rfl

end

/-- What was put is read back with the same widths, and as the same bits with any widths; a refused put
changes nothing; only the range written changes; and the gets return all valid bits, then none. -/
theorem bitstream_round_trip :
    (∀ buf len pad (ps : List (Nat × Nat)), 1 ≤ len → (∀ q, buf q < 2 ^ 8) → (∀ q < len, buf q = 0) →
      (∀ p ∈ ps, p.1 < 2 ^ 64 ∧ 1 ≤ p.2 ∧ p.2 ≤ 64) →
      ∃ bs taken, putWhile (bitstreamInit buf len pad) ps = (bs, taken) ∧
        (∃ rest, ps = taken ++ rest ∧
          ∀ p ∈ rest.head?, bitstreamPutBits bs p.1 p.2 = .error .enobufs) ∧
        bs.pos = (taken.map Prod.snd).sum ∧
        (∀ j, bs.pos ≤ j → streamBit bs.buf j = streamBit buf j) ∧
        (∃ r, getMany bs.reread (taken.map Prod.snd)
          = .ok (taken.map fun p => (p.1 % 2 ^ p.2, p.2), r)) ∧
        ∀ ws : List Nat, (∀ n ∈ ws, 1 ≤ n ∧ n ≤ 64) → ∃ l r, getMany bs.reread ws = .ok (l, r) ∧
          bitString l = (bitString taken).take ws.sum) ∧
    (∀ bs val bits, bs.Ok → val < 2 ^ 64 → 1 ≤ bits → bits ≤ 64 →
      (bitstreamPutBits bs val bits = .error .enobufs ↔ 8 * bs.bufLen < bs.pos + bits) ∧
      ∀ bs', bitstreamPutBits bs val bits = .ok bs' → bs'.pos = bs.pos + bits ∧
        ∀ j, j < bs.pos ∨ bs.pos + bits ≤ j → streamBit bs'.buf j = streamBit bs.buf j) ∧
    ∀ buf len pad (ws : List Nat), 1 ≤ len → (∀ q, buf q < 2 ^ 8) → pad ≤ 7 →
      (∀ n ∈ ws, 1 ≤ n ∧ n ≤ 64) → ∃ l r, getMany (bitstreamInit buf len pad) ws = .ok (l, r) ∧
        (l.map Prod.snd).sum = min ws.sum (len * 8 - pad) ∧
        (len * 8 - pad ≤ ws.sum → ∀ bits, 1 ≤ bits → bits ≤ 64 →
          bitstreamGetBits r bits = .ok (0, 0, r)) := by
  refine ⟨fun buf len pad ps _ hbytes hzero hps => ?_, fun bs val bits hok hval hpos hmax => ?_,
    fun buf len pad ws hlen hbytes hpad hws => ?_⟩
  · have hwrites := @putWhile_init_writes buf len ps hbytes hzero hps pad
    refine ⟨_, _, rfl, putWhile_refused fun p hp => (hps p hp).2.1, ?_, fun j hj => ?_, ?_, ?_⟩
    · exact hwrites.pos.trans (Nat.zero_add _)
    · exact hwrites.outside j (.inr hj)
    · obtain ⟨rest, hrest, _⟩ := @putWhile_refused (bitstreamInit buf len pad) ps
        fun p hp => (hps p hp).2.1
      generalize (putWhile (bitstreamInit buf len pad) ps).2 = taken at hwrites hrest ⊢
      have hws : ∀ n ∈ taken.map Prod.snd, 1 ≤ n ∧ n ≤ 64 := by
        intro n hn
        obtain ⟨p, hp, rfl⟩ := List.mem_map.1 hn
        exact (hps p (by rw [hrest]; exact List.mem_append_left _ hp)).2
      obtain ⟨l, r, hget, hbits, hlt, hfull⟩ := hwrites.reread hws
      refine ⟨r, ?_⟩
      rw [hget]
      congr 2
      refine eq_of_bitString_eq ?_ hlt ?_ ?_
      · rw [hfull le_rfl, List.map_map]
        rfl
      · intro p hp
        obtain ⟨q, _, rfl⟩ := List.mem_map.1 hp
        exact Nat.mod_lt _ (Nat.two_pow_pos _)
      · rw [hbits, bitString_mask, List.take_of_length_le (bitString_length taken).le]
    · intro ws hws
      obtain ⟨l, r, hget, hbits, _⟩ := hwrites.reread hws
      exact ⟨l, r, hget, hbits⟩
  · refine ⟨bitstreamPutBits_error hpos, fun bs' hput => ?_⟩
    have hputs := bitstreamPutBits_puts hok hval hpos hmax hput
    exact ⟨hputs.pos, fun j hj => hputs.outside hj⟩
  · have hzero : (bitstreamInit buf len pad).pos = 0 := rfl
    have hend : (bitstreamInit buf len pad).pos + pad ≤ 8 * len := by omega
    obtain ⟨l, r, hget, hreads⟩ := getMany_reads (bitstreamInit_ok hbytes pad)
      (show pad < 8 by omega) hend hws
    have hleft : 8 * (bitstreamInit buf len pad).bufLen - (bitstreamInit buf len pad).padBits
        - (bitstreamInit buf len pad).pos = len * 8 - pad := by
      show 8 * len - pad - 0 = _
      omega
    refine ⟨l, r, hget, ?_, fun hall bits hpos hmax => ?_⟩
    · rw [← bitString_length, hreads.bits, List.length_map, List.length_range, hleft]
    · have hrpos := hreads.pos
      rw [hleft, hzero] at hrpos
      have hpadBits : r.padBits = pad := hreads.padBits
      have hbufLen : r.bufLen = len := hreads.bufLen
      exact bitstreamGetBits_empty hreads.ok (by omega) (by omega) hpos hmax

/-- Two values in two bytes, the third refused. -/
theorem bitstream_round_trip_two_bytes :
    ∃ bs taken, putWhile (bitstreamInit (fun _ => 0) 2 0) [(5, 3), (0x1ff, 9), (77, 7)] = (bs, taken) ∧
      taken = [(5, 3), (0x1ff, 9)] ∧
      ∀ ws : List Nat, (∀ n ∈ ws, 1 ≤ n ∧ n ≤ 64) → ∃ l r, getMany bs.reread ws = .ok (l, r) ∧
        bitString l = (bitString taken).take ws.sum := by
  obtain ⟨bs, taken, hput, _, _, _, _, hall⟩ := bitstream_round_trip.1 (fun _ => 0) 2 0
    [(5, 3), (0x1ff, 9), (77, 7)] (by decide) (fun _ => by decide) (fun _ _ => rfl) (by decide)
  have htaken : (putWhile (bitstreamInit (fun _ => 0) 2 0) [(5, 3), (0x1ff, 9), (77, 7)]).2
      = [(5, 3), (0x1ff, 9)] := by decide
  rw [hput] at htaken
  exact ⟨bs, taken, hput, htaken, hall⟩

end Drbd.Vli
