import Mathlib.Data.Nat.Bitwise
import Mathlib.Logic.Function.Basic

/-!
# Variable length integers and bit streams of drbd_vli.h

Values of type u64 are numbers below `2 ^ 64`, bytes are numbers below `2 ^ 8`; where the source lets
a shift drop high bits, the model takes the remainder.
-/

namespace Drbd.Vli

def ullMax : Nat := 2 ^ 64 - 1

/-- One `LEVEL(t, b, v)`: total bits, leading code bits and their value. -/
structure Level where
  t : Nat
  b : Nat
  v : Nat
deriving DecidableEq

/-- The code table `VLI_L_1_1`. -/
def levels : List Level :=
  [⟨2, 1, 0x00⟩, ⟨3, 2, 0x01⟩, ⟨5, 3, 0x03⟩, ⟨7, 4, 0x07⟩, ⟨10, 5, 0x0f⟩, ⟨14, 6, 0x1f⟩,
   ⟨21, 8, 0x3f⟩, ⟨29, 8, 0x7f⟩, ⟨42, 8, 0xbf⟩, ⟨64, 8, 0xff⟩]

-- an input that no level matches is a `BUG()`
def decodeLevels (inp : Nat) : List Level → Nat → Option (Nat × Nat)
  | [], _ => none
  | l :: ls, adj =>
      if inp &&& (1 <<< l.b - 1) = l.v then
        some (((inp &&& (ullMax >>> (64 - l.t))) >>> l.b) + adj, l.t)
      else decodeLevels inp ls (adj + 1 <<< (l.t - l.b))

/-- `vli_decode_bits`: the decoded value and the number of bits it took. -/
def vliDecodeBits (inp : Nat) : Option (Nat × Nat) :=
  decodeLevels inp levels 1

inductive Error
  | einval
  | eoverflow
  | enobufs
deriving DecidableEq, Repr

def encodeLevels (inp : Nat) : List Level → Nat → Nat → Except Error (Nat × Nat)
  | [], _, _ => .error .eoverflow
  | l :: ls, max, adj =>
      let max := max + 1 <<< (l.t - l.b)
      if inp ≤ max then .ok (((inp - adj) <<< l.b) ||| l.v, l.t)
      else encodeLevels inp ls max (max + 1)

/-- `__vli_encode_bits`: the code and its number of bits. -/
def vliCode (inp : Nat) : Except Error (Nat × Nat) :=
  if inp = 0 then .error .einval else encodeLevels inp levels 0 1

/-! ## Bit streams -/

/-- `struct bitstream` with its cursor, at byte `byte` and bit `bit`. -/
structure Bitstream where
  buf : Nat → Nat
  bufLen : Nat
  padBits : Nat
  byte : Nat
  bit : Nat

def bitstreamInit (buf : Nat → Nat) (len padBits : Nat) : Bitstream :=
  ⟨buf, len, padBits, 0, 0⟩

def Bitstream.advance (bs : Bitstream) (bits : Nat) : Bitstream :=
  { bs with byte := bs.byte + (bs.bit + bits) / 8, bit := (bs.bit + bits) % 8 }

/-- The loop over the bytes after the first. -/
def putBytes (buf : Nat → Nat) (byte val start bits : Nat) : Nat → Nat :=
  (List.range ((bits - start + 7) / 8)).foldl (fun buf k =>
    Function.update buf (byte + k) (buf (byte + k) ||| ((val >>> (start + 8 * k)) &&& 0xff))) buf

def bitstreamPutBits (bs : Bitstream) (val bits : Nat) : Except Error Bitstream :=
  if bits = 0 then .ok bs
  else if bs.bufLen ≤ bs.byte + (bs.bit + bits - 1) / 8 then .error .enobufs
  else
    let val := if bits < 64 then val &&& (ullMax >>> (64 - bits)) else val
    let buf := Function.update bs.buf bs.byte
      (bs.buf bs.byte ||| (((val &&& 0xff) <<< bs.bit) % 2 ^ 8))
    let buf := putBytes buf (bs.byte + 1) val (8 - bs.bit) bits
    .ok ({ bs with buf := buf }.advance bits)

/-- The little-endian value of `n` bytes from `byte` on. -/
def le64ToCpu (buf : Nat → Nat) (byte : Nat) : Nat → Nat
  | 0 => 0
  | n + 1 => buf byte ||| (le64ToCpu buf (byte + 1) n <<< 8)

/-- `bitstream_get_bits`: the value and the number of bits fetched, at most what is left. -/
def bitstreamGetBits (bs : Bitstream) (bits : Nat) : Except Error (Nat × Nat × Bitstream) :=
  if 64 < bits then .error .einval
  else
    let bits :=
      if bs.bufLen ≤ bs.byte + ((bs.bit + bs.padBits + bits + 2 ^ 32 - 1) % 2 ^ 32) / 8 then
        (bs.bufLen - bs.byte) * 8 - bs.bit - bs.padBits
      else bits
    if bits = 0 then .ok (0, 0, bs)
    else
      let n := (bs.bit + bits + 7) / 8
      let val := (le64ToCpu bs.buf (bs.byte + 1) (n - 1) <<< (8 - bs.bit)) % 2 ^ 64
      let val := val ||| (bs.buf bs.byte >>> bs.bit)
      let val := val &&& (ullMax >>> (64 - bits))
      .ok (val, bits, bs.advance bits)

def vliEncodeBits (bs : Bitstream) (inp : Nat) : Except Error (Nat × Bitstream) :=
  match vliCode inp with
  | .error e => .error e
  | .ok (code, bits) => (bitstreamPutBits bs code bits).map fun bs => (bits, bs)

end Drbd.Vli
