import Drbd.Lib.Reader
import Drbd.Meta.Dump

/-!
# The restore of the meta data

`restore-md` reads the tokens of a dump and writes what they say; `verify-dump` only reads them.
-/

namespace Drbd.Meta

open Lib

/-- `option_al_stripes` and its like -/
structure StripeOption where
  alStripes : Nat
  alStripeSize4k : Nat
  used : Bool

/-- Nothing on the command line. -/
def StripeOption.default : StripeOption := ⟨1, 8, false⟩

def nextToken : Reader Token Token := fun
  | t :: ts => some (t, ts)
  | [] => none

/-- `EXP()` -/
def exp (t : Token) : Reader Token Unit := do
  let tok ← nextToken
  if tok = t then pure () else failure

/-- The value of a token that is expected to have one, and its semicolon. -/
def expU64 : Reader Token Nat := do
  let .u64 v ← nextToken | failure
  exp .semicolon
  pure v

def expU32 : Reader Token Nat := do
  let .u32 v ← nextToken | failure
  exp .semicolon
  pure v

def expNum : Reader Token Nat := do
  let .num v ← nextToken | failure
  exp .semicolon
  pure v

/-- The optional settings of the activity log, and the keyword of the bitmap. -/
def parseStripes (md : MdCpu) : Reader Token MdCpu := do
  match ← nextToken with
  | .alStripes =>
      let stripes ← expNum
      exp .alStripeSize4k
      let size4k ← expNum
      exp .bm
      pure { md with alStripes := stripes % 2 ^ 32, alStripeSize4k := size4k % 2 ^ 32 }
  | .bm => pure md
  | _ => failure

/-- The optional bio size of the peer, and what follows it. -/
def parseBioSize (md : MdCpu) : Reader Token MdCpu := do
  match ← nextToken with
  | .laBioSize =>
      let size ← expNum
      parseStripes { md with laPeerMaxBioSize := size % 2 ^ 32 }
  | .bm => pure md
  | _ => failure

/-- Everything before the brace of the bitmap. -/
def parseHeader (md : MdCpu) : Reader Token MdCpu := do
  exp .version
  exp (.string "v08")
  exp .semicolon
  exp .uuid
  exp .lbrace
  let u0 ← expU64
  let u1 ← expU64
  let u2 ← expU64
  let u3 ← expU64
  exp .flags
  let flags ← expU32
  exp .rbrace
  exp .laSize
  let laSect ← expNum
  exp .bmBytePerBit
  let bytesPerBit ← expNum
  exp .deviceUuid
  let deviceUuid ← expU64
  parseBioSize { md with
    uuid := fun | 0 => u0 | 1 => u1 | 2 => u2 | 3 => u3
    flags := flags
    laSect := laSect
    bmBytesPerBit := bytesPerBit % 2 ^ 32
    deviceUuid := deviceUuid }

/-- The lines at `start_of_bm`: the striping may have changed the offsets. -/
def startOfBm (opt : StripeOption) (cfg : Format) : Option Format :=
  if opt.alStripes ≠ cfg.md.alStripes ∨ opt.alStripeSize4k ≠ cfg.md.alStripeSize4k then
    reInitializeMdOffsets (if opt.used then
      { cfg with md := { cfg.md with alStripes := opt.alStripes, alStripeSize4k := opt.alStripeSize4k } }
    else cfg)
  else some cfg

/-! ## The bitmap -/

/-- `pwrite_with_limit_or_die()`, with the number of bytes that it wrote -/
def pwriteWithLimitOrDie (dev : Device) (buf : Nat → UInt8) (count off limit : Int) : Option (Int × Device) :=
  if off ≥ limit then none
  else do
    let count := min count (limit - off)
    let dev ← pwriteOrDie dev buf count off
    some (count, dev)

/-- The variables of the loop that writes the bitmap. -/
structure BmWriter where
  dev : Device
  bmOnDiskOff : Int
  bm : Nat → Nat
  i : Nat

/-- What became of a word. -/
inductive Put
  | ok (w : BmWriter)
  | truncated (dev : Device)

/-- One word goes into the buffer, which is written when it is full. -/
def BmWriter.put (limit : Int) (w : BmWriter) (v : Nat) : Option Put :=
  let bm := fun k => if k = w.i then v else w.bm k
  if w.i + 1 = bufferWords then do
    let (s, dev) ← pwriteWithLimitOrDie w.dev (bytesOf bm) bufferSize w.bmOnDiskOff limit
    some (if s = bufferSize then .ok ⟨dev, w.bmOnDiskOff + s, bm, 0⟩ else .truncated dev)
  else some (.ok { w with bm := bm, i := w.i + 1 })

/-- The loop `while(times--)`. -/
def BmWriter.putTimes (limit : Int) (v : Nat) : Nat → BmWriter → Option Put
  | 0, w => some (.ok w)
  | times + 1, w => do
      match ← w.put limit v with
      | .ok w => putTimes limit v times w
      | .truncated dev => some (.truncated dev)

/-- How the tokens between the braces ended. -/
inductive Parsed
  | rest (ts : List Token) (w : BmWriter)
  | truncated (dev : Device)

/-- The loop over the words; a negative count is none, the loop would run it down for good. -/
def parseWords (parseOnly : Bool) (limit : Int) : List Token → BmWriter → Option Parsed
  | .u64 v :: .semicolon :: ts, w =>
      if parseOnly then parseWords parseOnly limit ts w
      else do
        match ← w.put limit v with
        | .ok w => parseWords parseOnly limit ts w
        | .truncated dev => some (.truncated dev)
  | .num times :: .times :: .u64 v :: .semicolon :: ts, w =>
      if parseOnly then parseWords parseOnly limit ts w
      else if signed 32 times < 0 then none
      else do
        match ← w.putTimes limit v (signed 32 times).toNat with
        | .ok w => parseWords parseOnly limit ts w
        | .truncated dev => some (.truncated dev)
  | .rbrace :: ts, w => some (.rest ts w)
  | _, _ => none

/-- The format that the parsed super block leads to, and the tokens of the bitmap. -/
def parseSuperBlock (opt : StripeOption) (cfg : Format) (tokens : List Token) : Option (Format × List Token) := do
  let (md, ts) ← parseHeader cfg.md tokens
  let cfg ← startOfBm opt { cfg with md := md }
  some (clipLaSect cfg, ts)

/-- `meta_verify_dump_file()`: the file parses. -/
def metaVerifyDumpFile (opt : StripeOption) (tokens : List Token) : Option Unit := do
  let (cfg, ts) ← parseSuperBlock opt .zero tokens
  let _ ← cfg.bmBytes
  let ((), ts) ← exp .lbrace ts
  match ← parseWords true 0 ts ⟨⟨0, fun _ => 0, by decide⟩, 0, fun _ => 0, 0⟩ with
  | .rest [] _ => some ()
  | _ => none

end Drbd.Meta
