import Drbd.Xfer.Lemmas.Runs

/-!
# One packet

Whatever packet the sender makes, the receiver accepts it, moves its position to where the sender's is,
and gains exactly the bits of the stretch that the packet covers.
-/

namespace Drbd.Xfer

open Lib Bitmap Vli

variable {src r : DrbdBitmap} {c : BmXferCtx}

/-! ## The encoding byte -/

theorem dcbpSetStart_land (encoding : Nat) (set : Bool) :
    dcbpSetStart encoding set &&& 0x80 = if set then 0x80 else 0 := by
  unfold dcbpSetStart
  rw [Nat.and_or_distrib_right, Nat.and_assoc, show (0x7f &&& 0x80 : Nat) = 0 from rfl, Nat.and_zero,
    Nat.zero_or]
  cases set <;> rfl

/-- The three fields of the byte are read as they were set, whatever was there before. -/
theorem dcbp_roundtrip (encoding : Nat) (set : Bool) {pad : Nat} (hpad : pad < 8) :
    let e := dcbpSetCode (dcbpSetPadBits (dcbpSetStart encoding set) pad) RLE_VLI_Bits
    dcbpGetCode e = RLE_VLI_Bits ∧ dcbpGetStart e = set ∧ dcbpGetPadBits e = pad := by
  simp only [dcbpSetPadBits, dcbpSetStart_land]
  revert pad
  cases set <;> decide

/-! ## The sender's choice -/

theorem fillLoop_start (hmax : src.bmBits ≤ 2 ^ 39) (size encoding : Nat) {off : Nat}
    (hoff : off < src.bmBits) :
    ∃ l' rls, fillLoop src src.bmBits (src.bmBits - off + 2)
        ⟨bitstreamInit (fun _ => 0) size 0, encoding, 0, 2, off⟩ = .stopped l' ∧
      Writes src (src.bit off) ⟨bitstreamInit (fun _ => 0) size 0, encoding, 0, 2, off⟩ l' rls ∧
      l'.bitOffset ≤ src.bmBits ∧ l'.encoding = dcbpSetStart encoding (src.bit off) := by
  have hopen : (bitstreamInit (fun _ => 0) size 0).Open :=
    ⟨⟨Nat.zero_lt_succ 7, fun _ => Nat.two_pow_pos 8⟩, Nat.zero_le _,
      fun j _ => by simp [bitstreamInit, streamBit]⟩
  cases hbit : src.bit off with
  | false => exact fillLoop_spec hmax _ _ (by dsimp only; omega) hopen hoff hbit
  | true =>
      -- the first search finds the bit itself; the loop starts over inside a run of ones
      obtain ⟨l', rls, hloop, hwrites, hle, henc⟩ := fillLoop_spec hmax (src.bmBits - off + 1)
        ⟨bitstreamInit (fun _ => 0) size 0, dcbpSetStart encoding true, 0, 0, off⟩
        (by dsimp only; omega) hopen hoff hbit
      have hfind := findNext_run src (le_of_lt hoff) false
      have htmp : (bmFindNext src off false).getD src.bmBits = off := by
        obtain ⟨hge, _, hrun, _⟩ := hfind
        by_contra hne
        have := hrun off (le_refl _) (by omega)
        rw [hbit] at this
        cases this
      refine ⟨l', rls, ?_, ⟨hwrites.opened, hwrites.bufLen, hwrites.coded, hwrites.below, hwrites.runs,
        hwrites.plain⟩, hle, henc⟩
      rw [show src.bmBits - off + 2 = src.bmBits - off + 1 + 1 from rfl, fillLoop]
      dsimp only
      rw [show ((2 : Nat) == 0) = false from rfl, htmp, if_pos ⟨rfl, Nat.sub_self off⟩, if_pos hoff]
      exact hloop

/-- Before each packet the word offset is that of the bit offset, or the end. -/
structure InStep (src : DrbdBitmap) (c : BmXferCtx) : Prop where
  bits : c.bmBits = src.bmBits
  words : c.bmWords = src.bmWords
  le : c.bitOffset ≤ c.bmBits
  inside : c.bitOffset < c.bmBits → c.wordOffset = c.bitOffset / 64
  atEnd : c.bitOffset = c.bmBits → c.wordOffset = c.bmWords

theorem InStep.start (src : DrbdBitmap) : InStep src (.start src) where
  bits := rfl
  words := rfl
  le := Nat.zero_le _
  inside _ := (Nat.zero_div 64).symm
  atEnd h := by
    have h0 : src.bmBits = 0 := h.symm
    show 0 = src.bmWords
    rw [DrbdBitmap.bmWords, h0]

/-- A plain packet is asked for at the old word offset, else the code covers the runs up to the new
bit offset. -/
theorem fill_cases (hmax : src.bmBits ≤ 2 ^ 39) (hc : InStep src c) (useRle : Bool)
    (version size encoding : Nat) :
    ∃ f, fillBitmapRleBits useRle version src size encoding c = some f ∧
      ((f.len = 0 ∧ f.c.bmBits = c.bmBits ∧ f.c.bmWords = c.bmWords ∧ f.c.wordOffset = c.wordOffset) ∨
        (c.bitOffset < c.bmBits ∧ ∃ l' rls,
          Writes src (src.bit c.bitOffset)
            ⟨bitstreamInit (fun _ => 0) size 0, encoding, 0, 2, c.bitOffset⟩ l' rls ∧
          l'.bitOffset ≤ src.bmBits ∧ c.bitOffset < l'.bitOffset ∧
          f = ⟨{ c with bitOffset := l'.bitOffset }.bitToWordOffset,
            l'.bs.byte + (if l'.bs.bit = 0 then 0 else 1),
            dcbpSetPadBits (dcbpSetStart encoding (src.bit c.bitOffset)) ((8 - l'.bs.bit) &&& 0x7),
            l'.bs.buf⟩ ∧ f.len ≠ 0)) := by
  unfold fillBitmapRleBits
  split
  · exact ⟨_, rfl, .inl ⟨rfl, rfl, rfl, rfl⟩⟩
  split
  · exact ⟨_, rfl, .inl ⟨rfl, rfl, rfl, rfl⟩⟩
  rename_i hin
  have hin : c.bitOffset < c.bmBits := by omega
  have hword := hc.inside hin
  obtain ⟨l', rls, hloop, hwrites, hle, henc⟩ := fillLoop_start hmax size encoding
    (show c.bitOffset < src.bmBits by rw [← hc.bits]; exact hin)
  rw [← hc.bits] at hloop
  rw [hloop]
  dsimp only
  have hplain := hwrites.plain
  have hrunsLe := hwrites.runs.le
  dsimp only at hplain hrunsLe
  obtain ⟨len, hlen⟩ : ∃ n, l'.bs.byte + (if l'.bs.bit = 0 then 0 else 1) = n := ⟨_, rfl⟩
  rw [hlen]
  by_cases hworth : l'.plainBits < len * 8
  · rw [if_pos hworth]
    refine ⟨_, rfl, .inl ⟨rfl, rfl, rfl, ?_⟩⟩
    simp only [BmXferCtx.bitToWordOffset]
    rw [hword]
    congr 1
    omega
  · rw [if_neg hworth, henc]
    by_cases hzero : len = 0
    · -- nothing was coded, so there was no run either
      have hpos : l'.bs.pos = 0 := by
        unfold Bitstream.pos
        split at hlen <;> omega
      have hnil : l'.bitOffset = c.bitOffset := by
        have hcoded := hwrites.coded
        have hruns := hwrites.runs
        cases rls with
        | nil => exact hruns.symm
        | cons rl rls =>
            obtain ⟨code, t, _, _, h2, _, _, hrest⟩ := hcoded
            have := hrest.le
            omega
      refine ⟨_, rfl, .inl ⟨hzero, rfl, rfl, ?_⟩⟩
      simp only [BmXferCtx.bitToWordOffset, hnil]
      exact hword.symm
    · exact ⟨_, rfl, .inr ⟨hin, l', rls, hwrites, hle, by omega, by rw [hlen], hzero⟩⟩

/-! ## The receiver's side -/

theorem land_seven (n : Nat) : n &&& 0x7 = n % 8 := by
  rw [show (0x7 : Nat) = 2 ^ 3 - 1 from rfl, Nat.and_two_pow_sub_one_eq_mod]

theorem getD_map_range (f : Nat → Nat) {n q : Nat} (hq : q < n) :
    ((List.range n).map f).getD q 0 = f q := by
  rw [List.getD_eq_getElem _ _ (by simpa using hq), List.getElem_map, List.getElem_range]

/-- The code read from its start: the look-ahead is filled for the first time. -/
theorem LooksAhead.first {bs : Bitstream} (hopen : bs.Open) {len : Nat}
    (hlen : bs.byte + (if bs.bit = 0 then 0 else 1) = len) (hmax : len < 2 ^ 16) (r : DrbdBitmap)
    (s : Nat) (toggle : Bool) :
    ∃ lookAhead bits bs', bitstreamGetBits (bitstreamInit
        (fun q => ((List.range len).map bs.buf).getD q 0) len ((8 - bs.bit) &&& 0x7)) 64
        = .ok (lookAhead, bits, bs') ∧
      LooksAhead (streamBit bs.buf) bs.pos 0 ⟨r, bs', lookAhead, bits, s, toggle⟩ := by
  have hbit := hopen.ok.bit
  have hpos : bs.pos = 8 * bs.byte + bs.bit := rfl
  have hpad : bs.pos + (8 - bs.bit) % 8 = 8 * len := by split at hlen <;> omega
  rw [land_seven]
  have hok : (bitstreamInit (fun q => ((List.range len).map bs.buf).getD q 0) len
      ((8 - bs.bit) % 8)).Ok := by
    refine ⟨Nat.zero_lt_succ 7, fun q => ?_⟩
    show ((List.range len).map bs.buf).getD q 0 < 2 ^ 8
    by_cases hq : q < len
    · rw [getD_map_range _ hq]
      exact hopen.ok.bytes q
    · rw [List.getD_eq_default _ _ (by simpa using hq)]
      exact Nat.two_pow_pos 8
  obtain ⟨val, bs', hget, hgets⟩ := bitstreamGetBits_spec hok 64 (by decide) (le_refl _)
    (Nat.mod_lt _ (by decide)) (show 8 * 0 + 0 + (8 - bs.bit) % 8 ≤ 8 * len by omega)
  have hcur : (bitstreamInit (fun q => ((List.range len).map bs.buf).getD q 0) len
    ((8 - bs.bit) % 8)).pos = 0 := rfl
  have hbits : ∀ j < bs.pos, streamBit (fun q => ((List.range len).map bs.buf).getD q 0) j
      = streamBit bs.buf j := by
    intro j hj
    simp only [streamBit]
    rw [getD_map_range _ (show j / 8 < len by omega)]
  have hpadBits := hgets.padBits
  have hbufLen := hgets.bufLen
  have hpos' := hgets.pos
  have hval := hgets.lt
  have hshow := hgets.bit
  have hbuf := hgets.buf
  rw [hcur] at hget hpos' hshow hval
  dsimp only [bitstreamInit] at hget hpadBits hbufLen hpos' hbuf hshow hval
  have hcount : min 64 (8 * len - (8 - bs.bit) % 8 - 0) = min 64 (bs.pos - 0) := by omega
  rw [hcount] at hget hpos' hshow hval
  refine ⟨val, _, bs', hget, hgets.ok, ?_, ?_, ?_, ?_, Nat.zero_le _, rfl, hpos', hval, fun k hk => ?_⟩
  · rw [hpadBits]
    exact Nat.mod_lt _ (by decide)
  · rw [hbufLen]
    exact hmax
  · rw [hpadBits, hbufLen]
    exact hpad
  · rw [hbuf]
    exact hbits
  · rw [hshow k hk, hbits _ (by dsimp only at hk; omega)]

/-- The code the sender has written brings the receiver to the sender's position. -/
theorem recvBmRleBits_spec {l l' : FillLoop} {rls : List Nat} {len encoding : Nat}
    (hbm : src.bmBits ≤ 2 ^ 39) (hbits : r.bmBits = src.bmBits) (hc : c.bmBits = src.bmBits)
    (hoff : l.bitOffset = c.bitOffset)
    (hpos : l.bs.pos = 0) (hwrites : Writes src (src.bit c.bitOffset) l l' rls)
    (hle : l'.bitOffset ≤ src.bmBits)
    (hlen : l'.bs.byte + (if l'.bs.bit = 0 then 0 else 1) = len) (hmax : len < 2 ^ 16)
    (hstart : dcbpGetStart encoding = src.bit c.bitOffset)
    (hpad : dcbpGetPadBits encoding = (8 - l'.bs.bit) &&& 0x7) :
    ∃ r', recvBmRleBits r encoding ((List.range len).map l'.bs.buf) c
        = some (r', { c with bitOffset := l'.bitOffset }.bitToWordOffset,
          decide (l'.bitOffset ≠ c.bmBits)) ∧
      Gains r r' fun i => decide (c.bitOffset ≤ i ∧ i < l'.bitOffset) && src.bit i := by
  obtain ⟨lookAhead, bits, bs', hget, hlook⟩ := LooksAhead.first hwrites.opened hlen hmax r c.bitOffset
    (src.bit c.bitOffset)
  have hcoded := hwrites.coded
  have hruns := hwrites.runs
  rw [hpos] at hcoded
  rw [hoff] at hruns
  have hfuel : l'.bs.pos - 0 < len * 8 + 1 := by
    have hbit := hwrites.opened.ok.bit
    unfold Bitstream.pos
    split at hlen <;> omega
  obtain ⟨l₁, hloop, hs, hgains⟩ := recvLoop_spec rls (len * 8 + 1) 0 _
    (by dsimp only; rw [hbits]; exact hbm) hfuel hlook hcoded hruns
    (by dsimp only; rw [hbits]; exact hle)
  refine ⟨l₁.b, ?_, hgains⟩
  dsimp only at hloop
  unfold recvBmRleBits recvStart
  simp only [List.length_map, List.length_range]
  rw [hpad, hget, hstart, hc, ← hbits]
  dsimp only
  rw [hloop, ← hs]
  rfl

/-! ## Both sides -/

/-- What a packet does to the receiver's bitmap and to the common position. -/
structure Carries (src r r' : DrbdBitmap) (c c' : BmXferCtx) (again : Bool) : Prop where
  gains : ∃ lo hi, lo ≤ c.bitOffset ∧ c'.bitOffset ≤ hi ∧ hi ≤ src.bmWords * 64 ∧
    Gains r r' fun i => decide (lo ≤ i ∧ i < hi) && src.bit i
  next : again = true → InStep src c' ∧ c.bitOffset < c'.bitOffset
  done : again = false → c.bitOffset = src.bmBits ∨ c'.bitOffset = src.bmBits

theorem carries_rle (hbm : src.bmBits ≤ 2 ^ 39) (hbits : r.bmBits = src.bmBits) (hc : InStep src c)
    {version encoding : Nat} {l' : FillLoop} {rls : List Nat} {f : Fill}
    (hwrites : Writes src (src.bit c.bitOffset) ⟨bitstreamInit (fun _ => 0)
      (DRBD_SOCKET_BUFFER_SIZE - drbdHeaderSize version - 1) 0, encoding, 0, 2, c.bitOffset⟩ l' rls)
    (hle : l'.bitOffset ≤ src.bmBits) (hlt : c.bitOffset < l'.bitOffset)
    (hf : f = ⟨{ c with bitOffset := l'.bitOffset }.bitToWordOffset,
      l'.bs.byte + (if l'.bs.bit = 0 then 0 else 1),
      dcbpSetPadBits (dcbpSetStart encoding (src.bit c.bitOffset)) ((8 - l'.bs.bit) &&& 0x7), l'.bs.buf⟩)
    (hlen : f.len ≠ 0) :
    ∃ r', receivePacket version r c (.compressedBitmap (dcbpSetCode f.encoding RLE_VLI_Bits)
        ((List.range f.len).map f.code)) = some (r', f.c, decide (f.c.bitOffset < f.c.bmBits)) ∧
      Carries src r r' c f.c (decide (f.c.bitOffset < f.c.bmBits)) := by
  have hfits : f.len ≤ DRBD_SOCKET_BUFFER_SIZE - drbdHeaderSize version - 1 := by
    have hfits := hwrites.opened.fits
    have hbit := hwrites.opened.ok.bit
    rw [hwrites.bufLen] at hfits
    unfold Bitstream.pos at hfits
    subst hf
    dsimp only [bitstreamInit] at hfits ⊢
    split <;> omega
  have hhead : drbdHeaderSize version ≤ 16 := by
    unfold drbdHeaderSize
    split <;> omega
  obtain ⟨hcode, hstart, hpad⟩ := dcbp_roundtrip encoding (src.bit c.bitOffset)
    (show (8 - l'.bs.bit) &&& 0x7 < 8 by rw [land_seven]; exact Nat.mod_lt _ (by decide))
  have hcb := hc.bits
  obtain ⟨r', hrecv, hgains⟩ := recvBmRleBits_spec hbm hbits hc.bits rfl rfl hwrites hle rfl
    (show l'.bs.byte + (if l'.bs.bit = 0 then 0 else 1) < 2 ^ 16 by
      subst hf
      dsimp only [DRBD_SOCKET_BUFFER_SIZE] at hfits
      omega) hstart hpad
  subst hf
  dsimp only at hlen hfits ⊢
  have hagain : decide (l'.bitOffset ≠ c.bmBits) = decide (l'.bitOffset < c.bmBits) :=
    decide_eq_decide.2 (by omega)
  refine ⟨r', ?_, ⟨c.bitOffset, l'.bitOffset, le_refl _, le_refl _, ?_, hgains⟩, fun hagain => ?_, fun hagain => ?_⟩
  · unfold receivePacket
    simp only [List.length_map, List.length_range]
    rw [if_neg (by simp only [DRBD_SOCKET_BUFFER_SIZE] at *; omega), if_neg (by omega),
      if_neg (not_not.2 hcode), hrecv, hagain]
    rfl
  · have hwords : src.bmWords = (src.bmBits + 63) / 64 := rfl
    omega
  · have hlt' : l'.bitOffset < c.bmBits := of_decide_eq_true hagain
    refine ⟨⟨hc.bits, hc.words, hle.trans (le_of_eq hcb.symm), fun _ => rfl, fun h => ?_⟩, hlt⟩
    have h : l'.bitOffset = c.bmBits := h
    omega
  · have hge : ¬ l'.bitOffset < c.bmBits := of_decide_eq_false hagain
    right
    show l'.bitOffset = src.bmBits
    omega

/-- Up to the end nothing wraps. -/
theorem BmXferCtx.numWords_eq (hle : c.wordOffset ≤ c.bmWords) (hlt : c.bmWords < 2 ^ 64) (version : Nat) :
    c.numWords version
      = min ((DRBD_SOCKET_BUFFER_SIZE - drbdHeaderSize version) / 8) (c.bmWords - c.wordOffset) := by
  unfold BmXferCtx.numWords BmXferCtx.wordsLeft
  congr 1
  omega

theorem carries_plain (hbm : src.bmBits ≤ 2 ^ 39) (hbits : r.bmBits = src.bmBits) (hsrc : NoSurplus src)
    (hr : NoSurplus r)
    (hc : InStep src c) {version n : Nat}
    (hn : min ((DRBD_SOCKET_BUFFER_SIZE - drbdHeaderSize version) / 8) (c.bmWords - c.wordOffset) = n)
    {c' : BmXferCtx} (hc' : c' = ⟨c.bmBits, c.bmWords, min ((c.wordOffset + n) * bitsPerLong) c.bmBits,
      c.wordOffset + n⟩) :
    ∃ r', receivePacket version r c (.bitmap (drbdBmGetLel src c.wordOffset n))
        = some (r', c', decide (n ≠ 0)) ∧ Carries src r r' c c' (decide (n ≠ 0)) := by
  have hcb := hc.bits
  have hcw := hc.words
  have hle := hc.le
  have hroom : 0 < (DRBD_SOCKET_BUFFER_SIZE - drbdHeaderSize version) / 8 := by
    unfold drbdHeaderSize DRBD_SOCKET_BUFFER_SIZE
    split <;> decide
  have hwords : src.bmWords = (src.bmBits + 63) / 64 := rfl
  rw [show bitsPerLong = 64 from rfl] at hc'
  have hlength : (drbdBmGetLel src c.wordOffset n).length = n := by simp [drbdBmGetLel]
  have hoffset : c.wordOffset ≤ c.bmWords := by
    rcases Nat.lt_or_eq_of_le hle with hlt | heq
    · have := hc.inside hlt
      omega
    · exact le_of_eq (hc.atEnd heq)
  have hnum : c.numWords version = n := (BmXferCtx.numWords_eq hoffset (by omega) version).trans hn
  have hnext : (c.wordOffset + n) % 2 ^ 64 = c.wordOffset + n := Nat.mod_eq_of_lt (by omega)
  have hnextBit : (c.wordOffset + n) * bitsPerLong % 2 ^ 64 = (c.wordOffset + n) * bitsPerLong :=
    Nat.mod_eq_of_lt (by simp only [bitsPerLong]; omega)
  unfold receivePacket receiveBitmapPlain
  simp only [hnum, hlength, hnext, hnextBit]
  rw [if_neg (not_not.2 rfl)]
  by_cases hzero : n = 0
  · -- the empty packet: both positions are at the end
    have hend : c.bitOffset = c.bmBits := by
      rcases Nat.lt_or_eq_of_le hle with hlt | heq
      · have := hc.inside hlt
        omega
      · exact heq
    have hword := hc.atEnd hend
    have hsame : c' = c := by
      subst hc' hzero
      obtain ⟨bmBits, bmWords, bitOffset, wordOffset⟩ := c
      dsimp only at hend hword hcb hcw ⊢
      rw [Nat.add_zero, Nat.min_eq_right (by omega), hend]
    rw [if_pos (by rw [hzero]), hsame, decide_eq_false (not_not.2 hzero)]
    refine ⟨r, rfl, ⟨c.bitOffset, c.bitOffset, le_refl _, le_refl _, by omega, (Gains.refl r).congr fun i => ?_⟩,
      fun h => (by cases h), fun _ => .inl (by omega)⟩
    rw [decide_eq_false (by omega), Bool.false_and]
  · rw [if_neg (by omega), decide_eq_true hzero]
    have hin : c.bitOffset < c.bmBits := by
      rcases Nat.lt_or_eq_of_le hle with hlt | heq
      · exact hlt
      · have := hc.atEnd heq
        omega
    have hword := hc.inside hin
    have hfits : c.wordOffset + n ≤ src.bmWords := by omega
    have hgains := Gains.mergeLel hr hsrc hbits.symm
      (show c.wordOffset + n ≤ r.bmWords by rw [DrbdBitmap.bmWords_congr hbits]; exact hfits)
    refine ⟨_, by rw [hc']; rfl, ⟨c.wordOffset * 64, (c.wordOffset + n) * 64, by omega, ?_, by omega,
      hgains.congr fun i => ?_⟩, fun _ => ⟨⟨?_, ?_, ?_, ?_, ?_⟩, ?_⟩, fun h => by cases h⟩
    · subst hc'
      dsimp only
      omega
    · congr 1
      exact decide_eq_decide.2 (by omega)
    all_goals subst hc'; dsimp only; omega

/-- Whatever the sender chooses, the receiver takes the packet and both come to the same position. -/
theorem carries (hmax : src.bmBits ≤ 2 ^ 39) (hbits : r.bmBits = src.bmBits) (hsrc : NoSurplus src)
    (hr : NoSurplus r) (hc : InStep src c) (useRle : Bool) (version encoding : Nat) :
    ∃ c' p again r', sendBitmapRleOrPlain useRle version src encoding c = some (c', p, again) ∧
      receivePacket version r c p = some (r', c', again) ∧ Carries src r r' c c' again := by
  obtain ⟨f, hfill, hcases⟩ := fill_cases hmax hc useRle version
    (DRBD_SOCKET_BUFFER_SIZE - drbdHeaderSize version - 1) encoding
  unfold sendBitmapRleOrPlain
  simp only [hfill]
  rcases hcases with ⟨hlen, hfb, hfw, hfo⟩ | ⟨_, l', rls, hwrites, hle, hlt, hf, hlen⟩
  · rw [if_neg (not_not.2 hlen), hfb, hfw, hfo]
    obtain ⟨n, hn⟩ : ∃ n, min ((DRBD_SOCKET_BUFFER_SIZE - drbdHeaderSize version) / 8)
      (c.bmWords - c.wordOffset) = n := ⟨_, rfl⟩
    obtain ⟨r', hrecv, hcarries⟩ := carries_plain hmax hbits hsrc hr hc hn rfl
    rw [hn]
    exact ⟨_, _, _, r', rfl, hrecv, hcarries⟩
  · rw [if_pos hlen]
    obtain ⟨r', hrecv, hcarries⟩ := carries_rle hmax hbits hc hwrites hle hlt hf hlen
    exact ⟨_, _, _, r', rfl, hrecv, hcarries⟩

end Drbd.Xfer
