import Drbd.Lib.RunLength
import Drbd.Meta.Defs

/-!
# The dump of the meta data

`drbdmeta dump-md` prints the super block and the bitmap as text. The text is given here as what the
scanner of `restore-md` makes of it; comments and blanks leave nothing there.
-/

namespace Drbd.Meta

open Lib

/-- `enum yytokentype`, with what the scanner leaves in `yylval` -/
inductive Token
  | lbrace
  | rbrace
  | semicolon
  | string (txt : String)
  | u64 (v : Nat)
  | u32 (v : Nat)
  | num (v : Nat)
  | bm
  | uuid
  | version
  | laSize
  | bmBytePerBit
  | deviceUuid
  | times
  | flags
  | laBioSize
  | alStripes
  | alStripeSize4k
  | invalid
deriving Repr, DecidableEq

/-- A printed `%u` or `%llu`: the scanner refuses numbers of 20 digits. -/
def printNum (v : Nat) : Token := if v < 10 ^ 19 then .num v else .invalid

/-- A printed `%d`: a sign is no part of a number. -/
def printInt (v : Int) : Token := if 0 ≤ v then printNum v.toNat else .invalid

/-- `ALIGN()` to a power of two -/
def align (x a : Nat) : Nat := (x + a - 1) / a * a

/-- `bm_words()`; a division by zero is none. -/
def bmWords (sectors bytesPerBit : Nat) : Option Nat :=
  let sectorsPerBit := unsigned 64 (Int.tdiv (signed 32 bytesPerBit) 512)
  if sectorsPerBit = 0 then none
  else some (align (align sectors 8 % 2 ^ 64 / sectorsPerBit) 64 % 2 ^ 64 / 64)

/-- `bm_bytes`, an `unsigned int` -/
def Format.bmBytes (cfg : Format) : Option Nat := do
  let words ← bmWords cfg.md.laSect cfg.md.bmBytesPerBit
  some (8 * words % 2 ^ 32)

/-! ## The bitmap -/

/-- The variables of `printf_bm()`, and what it has printed. -/
structure BmPrinter where
  bmOnDiskOff : Int
  bm : Nat → Nat
  cw : Nat
  count : Nat
  nBuffer : Nat
  r : Nat
  i : Nat
  out : List (Piece Nat)

/-- `buffer_size / sizeof(*bm)` -/
def bufferWords : Nat := bufferSize / 8

/-- The head of the loop: a new buffer, on the first turn and on every wrap. -/
def BmPrinter.refill (dev : Device) (hardSectSize n : Nat) (s : BmPrinter) : Option BmPrinter :=
  if s.r * 8 % bufferSize = 0 then
    let chunk := min (align ((n - s.r) * 8) hardSectSize) bufferSize
    if chunk = 0 then none
    else do
      let buf ← preadOrDie dev chunk s.bmOnDiskOff
      some { s with bm := wordsOf buf, bmOnDiskOff := s.bmOnDiskOff + chunk, i := 0, nBuffer := chunk / 8 }
  else some s

/-- Where the body of the loop goes on. -/
inductive BmGoto
  | loop (s : BmPrinter)
  | next (s : BmPrinter)
  | done (s : BmPrinter)

/-- The last lines of the body: one word. -/
def BmPrinter.single (s : BmPrinter) : Option BmGoto :=
  if ¬ s.i < s.nBuffer then none
  else some (.loop { s with r := s.r + 1, i := s.i + 1, out := s.out ++ [.one (s.bm s.i)] })

/-- `j`, the end of the run of `cw` in this buffer, rounded down to a multiple of 4 -/
def BmPrinter.runEnd (s : BmPrinter) : Nat := (s.i + runLength s.bm s.cw (s.nBuffer - s.i) s.i) / 4 * 4

/-- The lines behind `cw = bm[i]`: long enough runs are counted in multiples of 4, from such a place on. -/
def BmPrinter.encode (n : Nat) (s : BmPrinter) : Option BmGoto :=
  if s.i % 4 = 0 then
    let j := s.runEnd
    let tmp := j - s.i
    let s' := if tmp > 4 then { s with count := s.count + tmp, r := s.r + tmp, i := j } else s
    if tmp > 4 ∧ j = s.nBuffer ∧ s'.r < n then some (.loop s')
    else if s'.count ≠ 0 then
      let s'' := { s' with count := 0, out := s'.out ++ [.run s'.count s'.cw] }
      some (if s''.r ≥ n then .done s'' else .next s'')
    else s'.single
  else s.single

/-- The body of the loop, from the label `next` on. -/
def BmPrinter.body (n : Nat) (s : BmPrinter) : Option BmGoto :=
  if ¬ s.i < s.nBuffer then none
  else if s.count = 0 then { s with cw := s.bm s.i }.encode n
  else s.encode n

/-- The loop, at its head or at the label. -/
def BmPrinter.go (dev : Device) (hardSectSize n : Nat) : Nat → BmGoto → Option (List (Piece Nat))
  | _, .done s => some s.out
  | 0, _ => none
  | fuel + 1, .loop s =>
      if s.r < n then do
        let s ← s.refill dev hardSectSize n
        let lab ← s.body n
        go dev hardSectSize n fuel lab
      else some s.out
  | fuel + 1, .next s => do
      let lab ← s.body n
      go dev hardSectSize n fuel lab

/-- What is printed for a piece. -/
def pieceTokens : Piece Nat → List Token
  | .one v => [.u64 v, .semicolon]
  | .run count v => [printNum count, .times, .u64 v, .semicolon]

/-! ## The whole dump -/

/-- The optional lines on the striping of the activity log. -/
def stripeTokens (md : MdCpu) : List Token :=
  if md.alStripes ≠ 1 ∨ md.alStripeSize4k ≠ 8 then
    [.alStripes, printNum md.alStripes, .semicolon, .alStripeSize4k, printNum md.alStripeSize4k, .semicolon]
  else []

/-- The super block of a v08 dump, up to the bitmap. -/
def headerTokens (md : MdCpu) : List Token :=
  [.uuid, .lbrace] ++ (List.finRange 4).flatMap (fun i => [.u64 (md.uuid i), .semicolon])
    ++ [.flags, .u32 md.flags, .semicolon, .rbrace, .laSize, printNum md.laSect, .semicolon,
      .bmBytePerBit, printNum md.bmBytesPerBit, .semicolon, .deviceUuid, .u64 md.deviceUuid, .semicolon,
      .laBioSize, printInt (signed 32 md.laPeerMaxBioSize), .semicolon]
    ++ stripeTokens md

def versionTokens : List Token := [.version, .string "v08", .semicolon]

end Drbd.Meta
