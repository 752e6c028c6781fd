import Drbd.Layout.Defs
import Drbd.Meta.Defs

/-!
# The layout that the administration tool computes

The same offsets as `drbd_md_set_sector_offsets()`, computed by `drbdmeta` from the size of the
meta-data device in bytes.
-/

namespace Drbd.Layout

open Lib

/-- The index that the tool uses for v08 meta data: "internal" is flexible there. -/
def MetaDevIdx.v08 : MetaDevIdx → MetaDevIdx
  | .internal => .flexInt
  | idx => idx

/-- `v07_style_md_get_byte_offset()` -/
def v07StyleMdGetByteOffset (idx : MetaDevIdx) (bdSize : Nat) : Nat :=
  match idx with
  | .index i => unsigned 64 (2 ^ 18 * i * 512)
  | .internal => unsigned 64 ((bdSize / 4096 * 4096 : Nat) - 2 ^ 18 * 512)
  | .flexInt => Meta.mdGetByteOffset bdSize
  | .flexExt => 0

/-- `re_initialize_md_offsets()` for v08; a device that is too large makes the tool exit. -/
def reInitializeMdOffsets (idx : MetaDevIdx) (bdSize : Nat) (md : Meta.MdCpu) : Option Meta.MdCpu :=
  match idx with
  | .index _ =>
      some { md with
        mdSizeSect := 2 ^ 18
        alOffset := Meta.mdAlOffset07
        bmOffset := signed 32 (Meta.mdAlOffset07 + Meta.alSizeSect md) }
  | .flexExt =>
      some { md with
        mdSizeSect := unsigned 32 (bdSize / 512 : Nat)
        alOffset := Meta.mdAlOffset07
        bmOffset := signed 32 (Meta.mdAlOffset07 + Meta.alSizeSect md) }
  | .internal =>
      some { md with mdSizeSect := 2 ^ 18, alOffset := Meta.mdAlOffset07, bmOffset := Meta.mdBmOffset07 }
  | .flexInt =>
      if Meta.bmSizeSect bdSize > Meta.mdBmMaxSectFlex then none
      else
        let size := Meta.flexMdSizeSect md bdSize
        some { md with
          alOffset := signed 32 (-Meta.alSizeSect md)
          mdSizeSect := unsigned 32 size
          bmOffset := signed 32 (-size + Meta.mdAlOffset07) }

/-- `is_valid_md()` for v08 -/
def IsValidMd (idx : MetaDevIdx) (md : Meta.MdCpu) (llSize : Nat) : Prop :=
  match idx with
  | .flexInt => Meta.IsValidMd md llSize
  | .internal | .flexExt | .index _ =>
      (md.magic = Meta.mdMagic08 ∨ md.magic = Meta.mdMagic84Unclean) ∧
        md.alOffset = Meta.mdAlOffset07 ∧ md.bmOffset = Meta.mdAlOffset07 + Meta.alSizeSect md

end Drbd.Layout
