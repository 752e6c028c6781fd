import Drbd.Lib.System
import Drbd.Xfer.Theorems

/-!
# Packets nobody vouches for

What `receive_bitmap` does with packets of any content: which ranges it passes to the bitmap, and where
its position may end up.
-/

namespace Drbd.Xfer

open Lib Bitmap Vli

/-! ## Packets as they arrive -/

inductive BitmapCmd
  | bitmap
  | compressedBitmap
deriving DecidableEq, Repr

structure Arrived where
  cmd : BitmapCmd
  payload : List UInt8
deriving DecidableEq, Repr

/-- `lel_to_cpu` of eight bytes. -/
def lelToCpu (bytes : List UInt8) : BitVec 64 :=
  BitVec.ofNat 64 (bytes.foldr (fun x n => x.toNat + 2 ^ 8 * n) 0)

def lelWords : Nat → List UInt8 → List (BitVec 64)
  | 0, _ => []
  | n + 1, bytes => lelToCpu (bytes.take 8) :: lelWords n (bytes.drop 8)

/-- A plain packet of another length than a number of words is never the one that is wanted, and a
compressed one has its encoding byte. -/
def Arrived.packet : Arrived → Option Packet
  | ⟨.bitmap, payload⟩ =>
      if payload.length % 8 = 0 then some (.bitmap (lelWords (payload.length / 8) payload)) else none
  | ⟨.compressedBitmap, []⟩ => none
  | ⟨.compressedBitmap, encoding :: code⟩ => some (.compressedBitmap encoding.toNat (code.map UInt8.toNat))

/-- The loop of `receive_bitmap` between two packets; `again` tells whether it wants another one. -/
structure Transfer where
  b : DrbdBitmap
  c : BmXferCtx
  again : Bool

def Transfer.start (b : DrbdBitmap) : Transfer := ⟨b, .start b, true⟩

def Transfer.step (agreedProVersion : Nat) (t : Transfer) (a : Arrived) : Option Transfer :=
  if t.again then
    match a.packet with
    | none => none
    | some p =>
        match receivePacket agreedProVersion t.b t.c p with
        | none => none
        | some (b, c, again) => some ⟨b, c, again⟩
  else none

/-! ## What a packet asks of the bitmap -/

/-- The calls of `drbd_bm_merge_lel`, in words, and of `_drbd_bm_set_bits`, in bits. -/
inductive Call
  | mergeLel (offset number : Nat)
  | setBits (s e : Nat)
deriving DecidableEq, Repr

def Call.Inside (b : DrbdBitmap) : Call → Prop
  | .mergeLel offset number => offset + number ≤ b.bmWords
  | .setBits s e => s ≤ e ∧ e < b.bmBits

instance (b : DrbdBitmap) : ∀ call : Call, Decidable (call.Inside b)
  | .mergeLel _ _ => inferInstanceAs (Decidable (_ ≤ _))
  | .setBits _ _ => inferInstanceAs (Decidable (_ ∧ _))

/-- The call of one round, which is made before the rest of the round can fail. -/
def roundCalls (bmBits : Nat) (l : RecvLoop) : List Call :=
  match vliDecodeBits l.lookAhead with
  | none => []
  | some (rl, _) => if l.toggle ∧ l.e rl < bmBits then [.setBits l.s (l.e rl)] else []

def loopCalls (bmBits : Nat) : Nat → RecvLoop → List Call
  | 0, _ => []
  | fuel + 1, l =>
      if l.have' = 0 then []
      else
        match recvRound bmBits l with
        | none => roundCalls bmBits l
        | some l' => roundCalls bmBits l ++ loopCalls bmBits fuel l'

def packetCalls (agreedProVersion : Nat) (b : DrbdBitmap) (c : BmXferCtx) : Packet → List Call
  | .bitmap words =>
      let numWords := c.numWords agreedProVersion
      if numWords * 8 = words.length * 8 ∧ numWords ≠ 0 then [.mergeLel c.wordOffset numWords] else []
  | .compressedBitmap encoding code =>
      if DRBD_SOCKET_BUFFER_SIZE - drbdHeaderSize agreedProVersion < code.length + 1 then []
      else if code.length + 1 ≤ 1 then []
      else if dcbpGetCode encoding ≠ RLE_VLI_Bits then []
      else
        match recvStart b encoding code c with
        | none => []
        | some l => loopCalls c.bmBits (code.length * 8 + 1) l

/-- The calls made for what arrives next, whether it is accepted in the end or not. -/
def Transfer.calls (agreedProVersion : Nat) (t : Transfer) (a : Arrived) : List Call :=
  match t.again, a.packet with
  | true, some p => packetCalls agreedProVersion t.b t.c p
  | _, _ => []

/-! ## The run lengths of a code -/

def codeRuns : Nat → RecvLoop → List (Bool × Nat)
  | 0, _ => []
  | fuel + 1, l =>
      if l.have' = 0 then []
      else
        match vliDecodeBits l.lookAhead with
        | none => []
        | some (rl, bits) =>
            match l.consume bits with
            | none => [(l.toggle, rl)]
            | some (bs, lookAhead, have') =>
                (l.toggle, rl) :: codeRuns fuel ⟨l.b, bs, lookAhead, have', l.s, !l.toggle⟩

/-- A run of zeros at the end of a code does not lead past the end of the bitmap. -/
def LastZerosFit (c : BmXferCtx) (runs : List (Bool × Nat)) : Prop :=
  ∀ rl, runs.getLast? = some (false, rl) → c.bitOffset + (runs.map Prod.snd).sum ≤ c.bmBits

def Packet.LastZerosFit (b : DrbdBitmap) (c : BmXferCtx) : Packet → Prop
  | .bitmap _ => True
  | .compressedBitmap encoding code =>
      ∀ l, recvStart b encoding code c = some l → Xfer.LastZerosFit c (codeRuns (code.length * 8 + 1) l)

def Transfer.LastZerosFit (t : Transfer) (a : Arrived) : Prop :=
  ∀ p, a.packet = some p → p.LastZerosFit t.b t.c

/-! ## No bit past the end -/

/-- Nothing past the end of the bitmap has changed. -/
structure Within (b b' : DrbdBitmap) : Prop where
  bits : b'.bmBits = b.bmBits
  outside : ∀ i, b.bmBits ≤ i → b'.bit i = b.bit i

variable {b b' : DrbdBitmap} {c : BmXferCtx} {l l' : RecvLoop} {bmBits : Nat}

theorem Within.refl (b : DrbdBitmap) : Within b b := ⟨rfl, fun _ _ => rfl⟩

theorem Within.trans {b''} (h : Within b b') (h' : Within b' b'') : Within b b'' where
  bits := h'.bits.trans h.bits
  outside i hi := (h'.outside i (by rw [h.bits]; exact hi)).trans (h.outside i hi)

theorem Within.noSurplus (h : Within b b') (hb : NoSurplus b) : NoSurplus b' := by
  intro i hi hw
  rw [h.bits] at hi
  rw [DrbdBitmap.bmWords_congr h.bits] at hw
  rw [h.outside i hi, hb i hi hw]

theorem Within.setBitsBulk (b : DrbdBitmap) (s : Nat) {e : Nat} (he : e < b.bmBits) :
    Within b (drbdBmSetBitsBulk b s e) := by
  have hgains := Gains.setBitsBulk b (s := s) he
  refine ⟨hgains.bits, fun i hi => ?_⟩
  rw [hgains.bit, decide_eq_false (by omega), Bool.false_or]

theorem Within.mergeLel (hb : NoSurplus b) {offset : Nat} (buffer : List (BitVec 64))
    (hin : offset + buffer.length ≤ b.bmWords) : Within b (drbdBmMergeLel b offset buffer) := by
  have hgains := Gains.mergeBuffer b buffer hin
  have hwords : b.bmWords = (b.bmBits + 63) / 64 := rfl
  have hcongr := DrbdBitmap.bmWords_congr hgains.bits
  unfold drbdBmMergeLel
  split
  · exact .refl b
  dsimp only
  rw [hcongr]
  split
  · -- the last word was merged too; what came with it past the end is cleared again
    refine ⟨(bmBits_bmClearSurplus _).trans hgains.bits, fun i hi => ?_⟩
    show (bmClearSurplus _).1.bit i = _
    rw [bit_bmClearSurplus, hgains.bits, hcongr]
    by_cases hw : i < b.bmWords * 64
    · rw [decide_eq_true ⟨hi, hw⟩, hb i hi hw]
      simp
    · rw [decide_eq_false fun h => hw h.2, hgains.bit, decide_eq_false (by omega)]
      simp
  · refine ⟨hgains.bits, fun i hi => ?_⟩
    rw [hgains.bit, decide_eq_false (by omega), Bool.false_and, Bool.false_or]

/-! ## One compressed packet -/

theorem recvRound_some (h : recvRound bmBits l = some l') :
    ∃ rl bits bs lookAhead have', vliDecodeBits l.lookAhead = some (rl, bits) ∧
      l.consume bits = some (bs, lookAhead, have') ∧ (l.toggle = true → l.e rl < bmBits) ∧
      l' = ⟨if l.toggle then drbdBmSetBitsBulk l.b l.s (l.e rl) else l.b, bs, lookAhead, have',
        (l.s + rl) % 2 ^ 64, !l.toggle⟩ := by
  unfold recvRound at h
  split at h
  · cases h
  rename_i rl bits hdecode
  split at h
  · cases h
  rename_i hinside
  dsimp only at h
  split at h
  · cases h
  rename_i bs lookAhead have' hconsume
  cases h
  exact ⟨rl, bits, bs, lookAhead, have', hdecode, hconsume,
    fun ht => Nat.lt_of_not_le fun hle => hinside ⟨ht, hle⟩, rfl⟩

/-- The position is in the bitmap, or has just left it over a run of zeros. -/
def RecvLoop.Placed (bmBits : Nat) (l : RecvLoop) : Prop :=
  l.s ≤ bmBits ∨ (l.toggle = true ∧ l.s < 2 ^ 58)

theorem RecvLoop.Placed.e_eq {rl : Nat} (h : l.Placed bmBits) (hmax : bmBits ≤ 2 ^ 39) (hpos : 0 < rl)
    (hlt : rl < 2 ^ 57) : l.e rl = l.s + rl - 1 ∧ (l.s + rl) % 2 ^ 64 = l.s + rl := by
  have hs : l.s < 2 ^ 58 := by
    rcases h with h | h
    · omega
    · exact h.2
  exact ⟨Xfer.RecvLoop.e_eq hpos (by omega), Nat.mod_eq_of_lt (by omega)⟩

theorem roundCalls_inside (hmax : b.bmBits ≤ 2 ^ 39) (h : l.Placed b.bmBits) :
    ∀ call ∈ roundCalls b.bmBits l, call.Inside b := by
  intro call hcall
  unfold roundCalls at hcall
  split at hcall
  · cases hcall
  rename_i rl bits hdecode
  obtain ⟨hpos, hlt⟩ := vliDecodeBits_bounds hdecode
  split at hcall
  · rename_i hones
    rw [List.mem_singleton.1 hcall]
    have he := (h.e_eq hmax hpos hlt).1
    exact ⟨by omega, hones.2⟩
  · cases hcall

/-- A round takes one run off the code; one of ones it sets. -/
structure Advances (l l' : RecvLoop) (rl : Nat) : Prop where
  within : Within l.b l'.b
  s : l'.s = l.s + rl
  toggle : l'.toggle = !l.toggle

theorem recvRound_advances (hmax : l.b.bmBits ≤ 2 ^ 39) (h : l.Placed l.b.bmBits)
    (hround : recvRound l.b.bmBits l = some l') :
    ∃ rl, Advances l l' rl ∧ l'.Placed l.b.bmBits ∧
      ∀ fuel, l.have' ≠ 0 → codeRuns (fuel + 1) l = (l.toggle, rl) :: codeRuns fuel { l' with b := l.b, s := l.s } := by
  obtain ⟨rl, bits, bs, lookAhead, have', hdecode, hconsume, hones, rfl⟩ := recvRound_some hround
  obtain ⟨hpos, hlt⟩ := vliDecodeBits_bounds hdecode
  obtain ⟨he, hmod⟩ := h.e_eq hmax hpos hlt
  refine ⟨rl, ⟨?_, hmod, rfl⟩, ?_, fun fuel hhave => ?_⟩
  · dsimp only
    split
    · rename_i ht
      exact .setBitsBulk l.b l.s (hones ht)
    · exact .refl l.b
  · dsimp only [RecvLoop.Placed]
    rw [hmod]
    cases ht : l.toggle with
    | true =>
        have := hones ht
        exact .inl (by omega)
    | false =>
        rcases h with h | h
        · exact .inr ⟨rfl, by omega⟩
        · exact absurd (ht.symm.trans h.1) (by decide)
  · rw [codeRuns, if_neg hhave, hdecode]
    dsimp only
    rw [hconsume]

/-- The run lengths depend on the code alone. -/
theorem codeRuns_congr (fuel : Nat) (l : RecvLoop) (b : DrbdBitmap) (s : Nat) :
    codeRuns fuel { l with b := b, s := s } = codeRuns fuel l := by
  induction fuel generalizing l with
  | zero => rfl
  | succ fuel ih =>
      have hconsume : ∀ bits, RecvLoop.consume { l with b := b, s := s } bits = l.consume bits := fun _ => rfl
      unfold codeRuns
      simp only [hconsume]
      split
      · rfl
      split
      · rfl
      split
      · rfl
      · exact congrArg _ (ih ⟨l.b, _, _, _, l.s, !l.toggle⟩)

theorem loopCalls_inside (fuel : Nat) (hmax : l.b.bmBits ≤ 2 ^ 39) (h : l.Placed l.b.bmBits) :
    ∀ call ∈ loopCalls l.b.bmBits fuel l, call.Inside l.b := by
  induction fuel generalizing l with
  | zero => exact fun _ h => nomatch h
  | succ fuel ih =>
      intro call hcall
      unfold loopCalls at hcall
      split at hcall
      · cases hcall
      split at hcall
      · exact roundCalls_inside hmax h call hcall
      · rename_i l' hround
        obtain ⟨rl, hadv, hplaced, _⟩ := recvRound_advances hmax h hround
        have hbits := hadv.within.bits
        rcases List.mem_append.1 hcall with hcall | hcall
        · exact roundCalls_inside hmax h call hcall
        · rw [← hbits] at hcall hplaced hmax
          have hin := ih hmax hplaced call hcall
          cases call with
          | mergeLel offset number => rwa [Call.Inside, DrbdBitmap.bmWords_congr hbits] at hin
          | setBits s e => rwa [Call.Inside, hbits] at hin

theorem recvLoop_nil {fuel : Nat} (hloop : recvLoop bmBits fuel l = some l') (hnil : codeRuns fuel l = []) :
    l' = l := by
  cases fuel with
  | zero => cases hloop
  | succ fuel =>
      unfold recvLoop at hloop
      split at hloop
      · cases hloop
        rfl
      rename_i hhave
      split at hloop
      · cases hloop
      rename_i l₁ hround
      obtain ⟨rl, bits, bs, lookAhead, have', hdecode, hconsume, _⟩ := recvRound_some hround
      rw [codeRuns, if_neg hhave, hdecode] at hnil
      dsimp only at hnil
      rw [hconsume] at hnil
      cases hnil

/-- What the whole loop does when it ends without an error. -/
structure Decodes (l l' : RecvLoop) (runs : List (Bool × Nat)) : Prop where
  within : Within l.b l'.b
  s : l'.s = l.s + (runs.map Prod.snd).sum
  placed : l'.Placed l.b.bmBits
  last : runs = [] ∨ ∃ rl, runs.getLast? = some (!l'.toggle, rl)

theorem recvLoop_decodes (fuel : Nat) (hmax : l.b.bmBits ≤ 2 ^ 39) (h : l.Placed l.b.bmBits)
    (hloop : recvLoop l.b.bmBits fuel l = some l') : Decodes l l' (codeRuns fuel l) := by
  induction fuel generalizing l with
  | zero => cases hloop
  | succ fuel ih =>
      unfold recvLoop at hloop
      split at hloop
      · rename_i hhave
        cases hloop
        rw [codeRuns, if_pos hhave]
        exact ⟨.refl _, rfl, h, .inl rfl⟩
      rename_i hhave
      split at hloop
      · cases hloop
      rename_i l₁ hround
      obtain ⟨rl, hadv, hplaced, hruns⟩ := recvRound_advances hmax h hround
      have hbits := hadv.within.bits
      rw [hruns fuel hhave, codeRuns_congr fuel l₁]
      rw [← hbits] at hloop hplaced hmax
      have hrest := ih hmax hplaced hloop
      refine ⟨hadv.within.trans hrest.within, ?_, hbits ▸ hrest.placed, .inr ?_⟩
      · rw [hrest.s, hadv.s, List.map_cons, List.sum_cons]
        omega
      · rcases hrest.last with hnil | ⟨rl', hlast⟩
        · -- the loop has ended right after this run
          refine ⟨rl, ?_⟩
          have hsame : l' = l₁ := recvLoop_nil hloop hnil
          rw [hnil, hsame, hadv.toggle, Bool.not_not]
          rfl
        · refine ⟨rl', ?_⟩
          rw [List.getLast?_cons, hlast]
          rfl

/-! ## Any packet -/

/-- What holds between two packets: the position is in the bitmap, and nothing past its end was set. -/
structure Contained (b₀ : DrbdBitmap) (t : Transfer) : Prop where
  bmBits : t.c.bmBits = b₀.bmBits
  bmWords : t.c.bmWords = b₀.bmWords
  bitOffset : t.c.bitOffset ≤ t.c.bmBits
  wordOffset : t.c.wordOffset ≤ t.c.bmWords
  within : Within b₀ t.b

theorem Contained.start (b : DrbdBitmap) : Contained b (.start b) :=
  ⟨rfl, rfl, Nat.zero_le _, Nat.zero_le _, .refl b⟩

theorem recvStart_some {encoding : Nat} {code : List Nat} (h : recvStart b encoding code c = some l) :
    l.b = b ∧ l.s = c.bitOffset := by
  unfold recvStart at h
  dsimp only at h
  split at h
  · cases h
  · cases h
    exact ⟨rfl, rfl⟩

theorem receivePacket_rle {version encoding : Nat} {code : List Nat} {again : Bool} {c' : BmXferCtx}
    (h : receivePacket version b c (.compressedBitmap encoding code) = some (b', c', again)) :
    ∃ l l', recvStart b encoding code c = some l ∧ recvLoop c.bmBits (code.length * 8 + 1) l = some l' ∧
      b' = l'.b ∧ c' = { c with bitOffset := l'.s }.bitToWordOffset := by
  unfold receivePacket at h
  dsimp only at h
  split at h
  · cases h
  split at h
  · cases h
  split at h
  · cases h
  unfold recvBmRleBits at h
  split at h
  · cases h
  rename_i l hstart
  split at h
  · cases h
  rename_i l' hloop
  cases h
  exact ⟨l, l', hstart, hloop, rfl, rfl⟩

theorem receivePacket_plain {version : Nat} {words : List (BitVec 64)} {again : Bool} {c' : BmXferCtx}
    (h : receivePacket version b c (.bitmap words) = some (b', c', again)) :
    c.numWords version = words.length ∧
      ((b' = b ∧ c' = c) ∨ (b' = drbdBmMergeLel b c.wordOffset words ∧
        c'.bmBits = c.bmBits ∧ c'.bmWords = c.bmWords ∧
        c'.wordOffset = (c.wordOffset + words.length) % 2 ^ 64 ∧ c'.bitOffset ≤ c.bmBits)) := by
  unfold receivePacket receiveBitmapPlain at h
  dsimp only at h
  split at h
  · cases h
  rename_i hwant
  have hlen : c.numWords version = words.length := by omega
  rw [hlen] at h
  refine ⟨hlen, ?_⟩
  split at h
  · cases h
    exact .inl ⟨rfl, rfl⟩
  · cases h
    exact .inr ⟨rfl, rfl, rfl, rfl, Nat.min_le_right _ _⟩

theorem Contained.packet {b₀ : DrbdBitmap} {t t' : Transfer} {version : Nat} {a : Arrived}
    (hsound : Sound b₀) (h : Contained b₀ t) (hfit : t.LastZerosFit a)
    (hstep : t.step version a = some t') : Contained b₀ t' := by
  obtain ⟨hbits, hwords, hbit, hword, hwithin⟩ := h
  have hmax := hsound.bits
  have hdef : b₀.bmWords = (b₀.bmBits + 63) / 64 := rfl
  have hroom := DrbdBitmap.bmWords_congr hwithin.bits
  unfold Transfer.step at hstep
  split at hstep
  · split at hstep
    · cases hstep
    rename_i p hp
    have hfit := hfit p hp
    split at hstep
    · cases hstep
    rename_i b' c' again hrecv
    cases hstep
    cases p with
    | bitmap words =>
        obtain ⟨hlen, hsame | ⟨hb', hcb, hcw, hco, hcbit⟩⟩ := receivePacket_plain hrecv
        · obtain ⟨rfl, rfl⟩ := hsame
          exact ⟨hbits, hwords, hbit, hword, hwithin⟩
        · have hn := BmXferCtx.numWords_eq hword (by omega) version
          have hin : t.c.wordOffset + words.length ≤ t.c.bmWords := by omega
          refine ⟨hcb.trans hbits, hcw.trans hwords, by dsimp only; omega, by dsimp only; omega, ?_⟩
          rw [hb']
          exact hwithin.trans (.mergeLel (hwithin.noSurplus hsound.noSurplus) words (by omega))
    | compressedBitmap encoding code =>
        obtain ⟨l, l', hstart, hloop, rfl, rfl⟩ := receivePacket_rle hrecv
        obtain ⟨hlb, hls⟩ := recvStart_some hstart
        have hfit := hfit l hstart
        have hb : l.b.bmBits = t.c.bmBits := by rw [hlb, hwithin.bits, hbits]
        have hdec := recvLoop_decodes (code.length * 8 + 1) (by omega) (.inl (by omega)) (hb ▸ hloop)
        have hs : l'.s ≤ t.c.bmBits := by
          rcases hdec.placed with hs | ⟨htoggle, _⟩
          · omega
          · rw [hdec.s, hls]
            rcases hdec.last with hnil | ⟨rl, hlast⟩
            · rw [hnil]
              simpa using hbit
            · rw [htoggle] at hlast
              exact hfit rl hlast
        refine ⟨hbits, hwords, hs, ?_, hwithin.trans (hlb ▸ hdec.within)⟩
        dsimp only [BmXferCtx.bitToWordOffset]
        omega
  · cases hstep

theorem Contained.calls_inside {b₀ : DrbdBitmap} {t : Transfer} (hsound : Sound b₀) (h : Contained b₀ t)
    (version : Nat) (a : Arrived) : ∀ call ∈ t.calls version a, call.Inside b₀ := by
  obtain ⟨hbits, hwords, hbit, hword, hwithin⟩ := h
  have hmax := hsound.bits
  have hdef : b₀.bmWords = (b₀.bmBits + 63) / 64 := rfl
  intro call hcall
  unfold Transfer.calls at hcall
  split at hcall
  · rename_i p _ _
    cases p with
    | bitmap words =>
        simp only [packetCalls] at hcall
        split at hcall
        · rw [List.mem_singleton.1 hcall]
          have hn := BmXferCtx.numWords_eq hword (by omega) version
          show t.c.wordOffset + t.c.numWords version ≤ b₀.bmWords
          omega
        · cases hcall
    | compressedBitmap encoding code =>
        simp only [packetCalls] at hcall
        split at hcall
        · cases hcall
        split at hcall
        · cases hcall
        split at hcall
        · cases hcall
        split at hcall
        · cases hcall
        rename_i l hstart
        obtain ⟨hlb, hls⟩ := recvStart_some hstart
        have hb : l.b.bmBits = t.c.bmBits := by rw [hlb, hwithin.bits, hbits]
        rw [← hb] at hcall
        have hin := loopCalls_inside (code.length * 8 + 1) (by omega) (.inl (by omega)) call hcall
        cases call with
        | mergeLel offset number => rwa [Call.Inside, DrbdBitmap.bmWords_congr (hb.trans hbits)] at hin
        | setBits s e => rwa [Call.Inside, hb.trans hbits] at hin
  · cases hcall

/-- As long as no code ends in a run of zeros that leads past the bitmap, every packet leaves the
position inside and sets only bits of the bitmap, and the next one, whatever it holds, passes only
ranges inside. -/
theorem bitmap_packets_contained (agreedProVersion : Nat) (b : DrbdBitmap) (hsound : Sound b)
    (arrived : List Arrived) (t : Transfer)
    (hfit : Meets (Transfer.step agreedProVersion) Transfer.LastZerosFit (.start b) arrived)
    (hrun : run (Transfer.step agreedProVersion) (.start b) arrived = some t) :
    t.c.bitOffset ≤ b.bmBits ∧ t.c.wordOffset ≤ b.bmWords ∧ t.b.bmBits = b.bmBits ∧
      (∀ i, t.b.bit i = true → b.bit i = true ∨ i < b.bmBits) ∧
      ∀ a, ∀ call ∈ t.calls agreedProVersion a, call.Inside b := by
  have h : Contained b t := run_invariant (fun h hc hs => h.packet hsound hc hs) (.start b) hfit hrun
  refine ⟨h.bmBits ▸ h.bitOffset, h.bmWords ▸ h.wordOffset, h.within.bits, fun i hi => ?_,
    h.calls_inside hsound agreedProVersion⟩
  by_cases hlt : i < b.bmBits
  · exact .inr hlt
  · exact .inl (by rw [← h.within.outside i (by omega)]; exact hi)

/-- One bit of ones and two of zeros fill a bitmap of three bits. -/
theorem bitmap_packets_contained_full :
    ∃ t, run (Transfer.step 100) (.start (threeBits 0 0)) [⟨.compressedBitmap, [0xc2, 0x08]⟩] = some t ∧
      t.c.bitOffset ≤ 3 ∧ ∀ i, t.b.bit i = true → (threeBits 0 0).bit i = true ∨ i < 3 := by
  obtain ⟨t, ht⟩ : ∃ t, run (Transfer.step 100) (.start (threeBits 0 0))
    [⟨.compressedBitmap, [0xc2, 0x08]⟩] = some t := Option.isSome_iff_exists.1 (by decide)
  have hfit : Meets (Transfer.step 100) Transfer.LastZerosFit (.start (threeBits 0 0))
      [⟨.compressedBitmap, [0xc2, 0x08]⟩] := by
    refine ⟨fun p hp => ?_, fun _ _ => trivial⟩
    cases hp
    intro l hl
    cases hl
    intro rl hlast
    decide
  have h := bitmap_packets_contained 100 (threeBits 0 0) (sound_threeBits (by decide) rfl) _ t hfit ht
  exact ⟨t, ht, h.1, h.2.2.2.1⟩

/-- A run of 128 zeros is accepted for a bitmap of three bits. The position is then past the end, the
number of words left wraps, and a full plain packet is merged there. -/
theorem bitmap_packets_escape :
    (run (Transfer.step 100) (.start (threeBits 0 0)) [⟨.compressedBitmap, [0x22, 0xdf, 0x13]⟩]).map
      (fun t => (t.c.bitOffset, t.c.wordOffset, t.calls 100 ⟨.bitmap, List.replicate 4080 0⟩))
      = some (128, 2, [.mergeLel 2 510]) ∧
    ¬ 128 ≤ (threeBits 0 0).bmBits ∧ ¬ 2 ≤ (threeBits 0 0).bmWords ∧
      ¬ (Call.mergeLel 2 510).Inside (threeBits 0 0) ∧ Sound (threeBits 0 0) :=
  ⟨by decide +kernel, by decide, by decide, by decide, sound_threeBits (by decide) rfl⟩

end Drbd.Xfer
