import Drbd.Meta.Defs

/-!
# Applying the hot extents

After a crash, `drbdmeta apply-al` sets all bits of the extents that may have been written. `apply_al`
goes through the bitmap on disk with a buffer that holds one chunk of it at a time.
-/

namespace Drbd.ApplyAl

open Lib

/-- `BM_BYTES_PER_AL_EXT`: one extent of 4 MB has a bit for each 4 kB. -/
def BM_BYTES_PER_AL_EXT : Nat := 2 ^ (22 - 12 - 3)

/-- `~0U` -/
def unused : Nat := 2 ^ 32 - 1

/-- What `apply_al` reads of `struct format`; block devices have sectors of `512 * 2 ^ k` bytes. -/
structure Format where
  bmBytes : Nat
  mdHardSectOrder : Nat
  bmOffset : Nat

def Format.mdHardSectSize (cfg : Format) : Nat := 512 * 2 ^ cfg.mdHardSectOrder

/-- `ALIGN` of an `unsigned int`, to a power of two. -/
def align (x a : Nat) : Nat := (x + a - 1) % 2 ^ 32 / a * a

/-- The device, and the chunk of the bitmap that is in `on_disk_buffer`. -/
structure Chunk where
  dev : Nat → UInt8
  onDiskBuffer : Nat → UInt8
  bmOnDiskPos : Nat
  chunk : Nat

def Chunk.pwrite (c : Chunk) (bmOnDiskOff : Nat) : Chunk :=
  { c with dev := blit c.dev (bmOnDiskOff + c.bmOnDiskPos) c.chunk c.onDiskBuffer }

def Chunk.pread (c : Chunk) (bmOnDiskOff : Nat) : Chunk :=
  { c with onDiskBuffer := fun x =>
      if x < c.chunk then c.dev (bmOnDiskOff + c.bmOnDiskPos + x) else c.onDiskBuffer x }

/-- The next chunk, from the 4k block with the extent on. -/
def Chunk.seek (c : Chunk) (bmBytes bmPos : Nat) : Chunk :=
  { c with
    bmOnDiskPos := bmPos / 4096 * 4096
    chunk := min (bmBytes - bmPos / 4096 * 4096) Meta.bufferSize }

/-- Count and set the bits of an extent; nothing if an `ASSERT` trips or the buffer is touched
beyond the chunk. -/
def Chunk.setExtent (c : Chunk) (bmPos : Nat) : Option Chunk :=
  let off := unsigned 64 (bmPos - c.bmOnDiskPos)
  if unsigned 64 (c.chunk - BM_BYTES_PER_AL_EXT) < off then none
  else if off % 8 ≠ 0 then none
  else if c.chunk < off + BM_BYTES_PER_AL_EXT then none
  else some { c with onDiskBuffer := blit c.onDiskBuffer off BM_BYTES_PER_AL_EXT fun _ => 0xff }

/-- The loop, from the `i`-th hot extent on. -/
def applyExtents (bmBytes bmOnDiskOff : Nat) : Nat → Chunk → List Nat → Option (Nat × Chunk)
  | i, c, [] => some (i, c)
  | i, c, e :: rest =>
      if e = unused then some (i, c)
      else
        let bmPos := e * BM_BYTES_PER_AL_EXT
        -- beyond the end of the bitmap: a warning, no more
        if bmBytes ≤ bmPos then applyExtents bmBytes bmOnDiskOff (i + 1) c rest
        else
          let c :=
            if i = 0 ∨ c.bmOnDiskPos + c.chunk ≤ bmPos + BM_BYTES_PER_AL_EXT then
              ((if i = 0 then c else c.pwrite bmOnDiskOff).seek bmBytes bmPos).pread bmOnDiskOff
            else c
          match c.setExtent bmPos with
          | none => none
          | some c => applyExtents bmBytes bmOnDiskOff (i + 1) c rest

def applyAl (cfg : Format) (dev onDiskBuffer : Nat → UInt8) (hotExtent : List Nat) : Option (Nat → UInt8) :=
  let bmBytes := align cfg.bmBytes cfg.mdHardSectSize
  (applyExtents bmBytes cfg.bmOffset 0 ⟨dev, onDiskBuffer, 0, 0⟩ hotExtent).map fun (i, c) =>
    -- the buffer of the last iteration
    if i = 0 then c.dev else (c.pwrite cfg.bmOffset).dev

/-! ## What it is for -/

/-- The size of the bitmap in whole sectors. -/
def Format.alignedBytes (cfg : Format) : Nat :=
  (cfg.bmBytes + cfg.mdHardSectSize - 1) / cfg.mdHardSectSize * cfg.mdHardSectSize

/-- A byte of the bitmap that belongs to a hot extent. -/
def HotByte (bmBytes : Nat) (hotExtent : List Nat) (x : Nat) : Prop :=
  ∃ e ∈ hotExtent, e ≠ unused ∧ e * BM_BYTES_PER_AL_EXT < bmBytes ∧
    e * BM_BYTES_PER_AL_EXT ≤ x ∧ x < e * BM_BYTES_PER_AL_EXT + BM_BYTES_PER_AL_EXT

instance (bmBytes : Nat) (hotExtent : List Nat) (x : Nat) : Decidable (HotByte bmBytes hotExtent x) :=
  inferInstanceAs (Decidable (∃ _ ∈ hotExtent, _))

/-- The bits of the hot extents are set, and that is all. -/
def Applied (cfg : Format) (hotExtent : List Nat) (dev dev' : Nat → UInt8) : Prop :=
  ∀ x, dev' x = if cfg.bmOffset ≤ x ∧ HotByte cfg.alignedBytes hotExtent (x - cfg.bmOffset) then dev x ||| 0xff
    else dev x

end Drbd.ApplyAl
