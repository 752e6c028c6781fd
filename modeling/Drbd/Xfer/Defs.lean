import Drbd.Bitmap.Defs
import Drbd.Vli.Defs

/-!
# The bitmap exchange of drbd_main.c and drbd_receiver.c

The sender describes the next stretch of its bitmap as run lengths, and falls back to plain words where
that does not pay. Packets carry no position: both sides keep one and have to move it alike.
-/

namespace Drbd.Xfer

open Bitmap Vli

/-- `struct bm_xfer_ctx`, less its statistics. -/
structure BmXferCtx where
  bmBits : Nat
  bmWords : Nat
  bitOffset : Nat
  wordOffset : Nat
deriving DecidableEq, Repr

def BmXferCtx.start (b : DrbdBitmap) : BmXferCtx := ⟨b.bmBits, b.bmWords, 0, 0⟩

/-- `bm_xfer_ctx_bit_to_word_offset` of a 64-bit machine. -/
def BmXferCtx.bitToWordOffset (c : BmXferCtx) : BmXferCtx :=
  { c with wordOffset := c.bitOffset / 64 }

def drbdHeaderSize (agreedProVersion : Nat) : Nat :=
  if 100 ≤ agreedProVersion then 16 else 8

def DRBD_SOCKET_BUFFER_SIZE : Nat := 4096

inductive Packet
  | bitmap (words : List (BitVec 64))
  | compressedBitmap (encoding : Nat) (code : List Nat)

/-! ## The encoding byte -/

def RLE_VLI_Bits : Nat := 2

def dcbpSetCode (encoding code : Nat) : Nat := (encoding &&& 0xf0) ||| code

def dcbpSetStart (encoding : Nat) (set : Bool) : Nat :=
  (encoding &&& 0x7f) ||| (if set then 0x80 else 0)

-- `~0x7 << 4` keeps only the top bit of a byte
def dcbpSetPadBits (encoding n : Nat) : Nat := (encoding &&& 0x80) ||| (n <<< 4)

def dcbpGetCode (encoding : Nat) : Nat := encoding &&& 0x0f

def dcbpGetStart (encoding : Nat) : Bool := encoding &&& 0x80 ≠ 0

def dcbpGetPadBits (encoding : Nat) : Nat := (encoding >>> 4) &&& 0x7

/-! ## Sending -/

/-- The local variables of the loop in `fill_bitmap_rle_bits`. -/
structure FillLoop where
  bs : Bitstream
  encoding : Nat
  plainBits : Nat
  toggle : Nat
  bitOffset : Nat

inductive FillEnd
  | stopped (l : FillLoop)
  | unencodable (l : FillLoop)
  | zeroRun
  | outOfFuel

/-- The loop: one run length a round, until the bitmap ends or the buffer is full. -/
def fillLoop (b : DrbdBitmap) (bmBits : Nat) : Nat → FillLoop → FillEnd
  | 0, _ => .outOfFuel
  | fuel + 1, l =>
      let tmp := (bmFindNext b l.bitOffset (l.toggle == 0)).getD bmBits
      let rl := tmp - l.bitOffset
      if l.toggle = 2 ∧ rl = 0 then
        -- the first bit is set: a zero run length is not encoded
        let l := { l with encoding := dcbpSetStart l.encoding true, toggle := 0 }
        if l.bitOffset < bmBits then fillLoop b bmBits fuel l else .stopped l
      else
        let encoding := if l.toggle = 2 then dcbpSetStart l.encoding false else l.encoding
        let l := { l with encoding := encoding }
        if rl = 0 then .zeroRun
        else
          match vliEncodeBits l.bs rl with
          | .error .enobufs => .stopped l
          | .error _ => .unencodable l
          | .ok (_, bs) =>
              let l := { l with
                bs := bs
                plainBits := l.plainBits + rl
                toggle := if l.toggle = 0 then 1 else 0
                bitOffset := tmp }
              if l.bitOffset < bmBits then fillLoop b bmBits fuel l else .stopped l

/-- What `fill_bitmap_rle_bits` returns: a length of 0 asks for a plain packet. -/
structure Fill where
  c : BmXferCtx
  len : Nat
  encoding : Nat
  code : Nat → Nat

/-- `fill_bitmap_rle_bits`; `encoding` is what the send buffer happened to hold. -/
def fillBitmapRleBits (useRle : Bool) (agreedProVersion : Nat) (b : DrbdBitmap) (size encoding : Nat)
    (c : BmXferCtx) : Option Fill :=
  if !useRle ∨ agreedProVersion < 90 then some ⟨c, 0, encoding, fun _ => 0⟩
  else if c.bmBits ≤ c.bitOffset then some ⟨c, 0, encoding, fun _ => 0⟩
  else
    match fillLoop b c.bmBits (c.bmBits - c.bitOffset + 2)
      ⟨bitstreamInit (fun _ => 0) size 0, encoding, 0, 2, c.bitOffset⟩ with
    | .outOfFuel => none
    | .zeroRun => none
    | .unencodable l => some ⟨{ c with bitOffset := l.bitOffset }, 0, l.encoding, l.bs.buf⟩
    | .stopped l =>
        let len := l.bs.byte + (if l.bs.bit = 0 then 0 else 1)
        if l.plainBits < len * 8 then
          let c := { c with bitOffset := l.bitOffset - l.plainBits }.bitToWordOffset
          some ⟨{ c with bitOffset := c.wordOffset * bitsPerLong }, 0, l.encoding, l.bs.buf⟩
        else
          let c := { c with bitOffset := l.bitOffset }.bitToWordOffset
          some ⟨c, len, dcbpSetPadBits l.encoding ((8 - l.bs.bit) &&& 0x7), l.bs.buf⟩

/-- `send_bitmap_rle_or_plain`: the packet, and whether another one is needed. -/
def sendBitmapRleOrPlain (useRle : Bool) (agreedProVersion : Nat) (b : DrbdBitmap) (encoding : Nat)
    (c : BmXferCtx) : Option (BmXferCtx × Packet × Bool) :=
  let headerSize := drbdHeaderSize agreedProVersion
  match fillBitmapRleBits useRle agreedProVersion b (DRBD_SOCKET_BUFFER_SIZE - headerSize - 1) encoding c with
  | none => none
  | some f =>
      if f.len ≠ 0 then
        let p := .compressedBitmap (dcbpSetCode f.encoding RLE_VLI_Bits) ((List.range f.len).map f.code)
        some (f.c, p, f.c.bitOffset < f.c.bmBits)
      else
        let c := f.c
        let numWords := min ((DRBD_SOCKET_BUFFER_SIZE - headerSize) / 8) (c.bmWords - c.wordOffset)
        let p := .bitmap (drbdBmGetLel b c.wordOffset numWords)
        let c := { c with wordOffset := c.wordOffset + numWords }
        let c := { c with bitOffset := min (c.wordOffset * bitsPerLong) c.bmBits }
        some (c, p, numWords ≠ 0)

/-- What may differ from packet to packet: the configuration and the stale byte of the buffer. -/
structure Settings where
  useRle : Nat → Bool
  encoding : Nat → Nat

def sendLoop (cfg : Settings) (agreedProVersion : Nat) (b : DrbdBitmap) :
    Nat → Nat → BmXferCtx → Option (List (Packet × BmXferCtx))
  | 0, _, _ => none
  | fuel + 1, k, c =>
      match sendBitmapRleOrPlain (cfg.useRle k) agreedProVersion b (cfg.encoding k) c with
      | none => none
      | some (c, p, again) =>
          if again then (sendLoop cfg agreedProVersion b fuel (k + 1) c).map ((p, c) :: ·)
          else some [(p, c)]

/-- The loop of `_drbd_send_bitmap`: all packets, each with the position after it. -/
def drbdSendBitmap (cfg : Settings) (agreedProVersion : Nat) (b : DrbdBitmap) :
    Option (List (Packet × BmXferCtx)) :=
  sendLoop cfg agreedProVersion b (b.bmBits + 2) 0 (.start b)

/-! ## Receiving

What arrives is not trusted, so the position is kept as the 64-bit number it is in the source.
-/

/-- `bm_words - word_offset`, a `size_t`. -/
def BmXferCtx.wordsLeft (c : BmXferCtx) : Nat := (c.bmWords + (2 ^ 64 - c.wordOffset)) % 2 ^ 64

/-- `num_words` of `receive_bitmap_plain`. -/
def BmXferCtx.numWords (c : BmXferCtx) (agreedProVersion : Nat) : Nat :=
  min ((DRBD_SOCKET_BUFFER_SIZE - drbdHeaderSize agreedProVersion) / 8) c.wordsLeft

def receiveBitmapPlain (agreedProVersion : Nat) (b : DrbdBitmap) (words : List (BitVec 64))
    (c : BmXferCtx) : Option (DrbdBitmap × BmXferCtx × Bool) :=
  let numWords := c.numWords agreedProVersion
  let want := numWords * 8
  if want ≠ words.length * 8 then none
  else if want = 0 then some (b, c, false)
  else
    let b := drbdBmMergeLel b c.wordOffset words
    let c := { c with wordOffset := (c.wordOffset + numWords) % 2 ^ 64 }
    some (b, { c with bitOffset := min (c.wordOffset * bitsPerLong % 2 ^ 64) c.bmBits }, true)

/-- The local variables of the loop in `recv_bm_rle_bits`. -/
structure RecvLoop where
  b : DrbdBitmap
  bs : Bitstream
  lookAhead : Nat
  have' : Nat
  s : Nat
  toggle : Bool

/-- `e` of the loop: the last bit of a run of length `rl`. -/
def RecvLoop.e (l : RecvLoop) (rl : Nat) : Nat := (l.s + rl + (2 ^ 64 - 1)) % 2 ^ 64

/-- The rest of a round: the look-ahead loses the bits of the run and is filled up again. -/
def RecvLoop.consume (l : RecvLoop) (bits : Nat) : Option (Bitstream × Nat × Nat) :=
  if l.have' < bits then none
  else
    let lookAhead := if bits < 64 then l.lookAhead >>> bits else 0
    let have' := l.have' - bits
    match bitstreamGetBits l.bs (64 - have') with
    | .error _ => none
    | .ok (tmp, got, bs) => some (bs, lookAhead ||| (tmp <<< have') % 2 ^ 64, have' + got)

/-- One round: a run is decoded and, if it is one of ones, set. -/
def recvRound (bmBits : Nat) (l : RecvLoop) : Option RecvLoop :=
  match vliDecodeBits l.lookAhead with
  | none => none
  | some (rl, bits) =>
      if l.toggle ∧ bmBits ≤ l.e rl then none
      else
        let b := if l.toggle then drbdBmSetBitsBulk l.b l.s (l.e rl) else l.b
        match l.consume bits with
        | none => none
        | some (bs, lookAhead, have') =>
            some ⟨b, bs, lookAhead, have', (l.s + rl) % 2 ^ 64, !l.toggle⟩

def recvLoop (bmBits : Nat) : Nat → RecvLoop → Option RecvLoop
  | 0, _ => none
  | fuel + 1, l =>
      if l.have' = 0 then some l
      else
        match recvRound bmBits l with
        | none => none
        | some l => recvLoop bmBits fuel l

/-- The loop's variables on entry. -/
def recvStart (b : DrbdBitmap) (encoding : Nat) (code : List Nat) (c : BmXferCtx) : Option RecvLoop :=
  let bs := bitstreamInit (fun q => code.getD q 0) code.length (dcbpGetPadBits encoding)
  match bitstreamGetBits bs 64 with
  | .error _ => none
  | .ok (lookAhead, bits, bs) => some ⟨b, bs, lookAhead, bits, c.bitOffset, dcbpGetStart encoding⟩

def recvBmRleBits (b : DrbdBitmap) (encoding : Nat) (code : List Nat) (c : BmXferCtx) :
    Option (DrbdBitmap × BmXferCtx × Bool) :=
  match recvStart b encoding code c with
  | none => none
  | some l =>
      match recvLoop c.bmBits (code.length * 8 + 1) l with
      | none => none
      | some l =>
          let c := { c with bitOffset := l.s }.bitToWordOffset
          some (l.b, c, l.s ≠ c.bmBits)

/-- One packet in the loop of `receive_bitmap`, with the size checks before it is decoded. -/
def receivePacket (agreedProVersion : Nat) (b : DrbdBitmap) (c : BmXferCtx) :
    Packet → Option (DrbdBitmap × BmXferCtx × Bool)
  | .bitmap words => receiveBitmapPlain agreedProVersion b words c
  | .compressedBitmap encoding code =>
      if DRBD_SOCKET_BUFFER_SIZE - drbdHeaderSize agreedProVersion < code.length + 1 then none
      else if code.length + 1 ≤ 1 then none
      else if dcbpGetCode encoding ≠ RLE_VLI_Bits then none
      else recvBmRleBits b encoding code c

def receiveLoop (agreedProVersion : Nat) :
    DrbdBitmap → BmXferCtx → List Packet → Option (DrbdBitmap × List BmXferCtx × List Packet)
  | _, _, [] => none
  | b, c, p :: rest =>
      match receivePacket agreedProVersion b c p with
      | none => none
      | some (b, c, again) =>
          if again then
            (receiveLoop agreedProVersion b c rest).map fun (b, cs, unread) => (b, c :: cs, unread)
          else some (b, [c], rest)

/-- The loop of `receive_bitmap`: the bitmap, the position after each packet and what was not read. -/
def receiveBitmap (agreedProVersion : Nat) (b : DrbdBitmap) (packets : List Packet) :
    Option (DrbdBitmap × List BmXferCtx × List Packet) :=
  receiveLoop agreedProVersion b (.start b) packets

end Drbd.Xfer
