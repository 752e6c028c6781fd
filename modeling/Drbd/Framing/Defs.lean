import Drbd.Lib.Bytes
import Drbd.Lib.Reader
import Drbd.Xfer.Contained

/-!
# The packets of the data socket

`drbdd` reads a header, the fixed part of the packet that the header names, and leaves the rest to the
packet's handler. A stream is what the peer sends; a handler that returns an error ends the connection.
-/

namespace Drbd.Framing

open Lib Lib.Reader Xfer

abbrev Recv := Reader UInt8

/-- The packets that have a handler. -/
inductive DrbdPacket
  | data
  | dataReply
  | rsDataReply
  | barrier
  | bitmap
  | compressedBitmap
  | unplugRemote
  | dataRequest
  | rsDataRequest
  | syncParam
  | protocol
  | uuids
  | sizes
  | state
  | syncUuid
  | stateChgReq
  | ovRequest
  | ovReply
  | csumRsRequest
  | syncParam89
  | delayProbe
  | outOfSync
  | connStChgReq
  | protocolUpdate
  | trim
  | snapStart
  | snapEnd
deriving DecidableEq, Repr

def DrbdPacket.ofWire : Nat → Option DrbdPacket
  | 0x00 => some .data
  | 0x01 => some .dataReply
  | 0x02 => some .rsDataReply
  | 0x03 => some .barrier
  | 0x04 => some .bitmap
  | 0x07 => some .unplugRemote
  | 0x08 => some .dataRequest
  | 0x09 => some .rsDataRequest
  | 0x0a => some .syncParam
  | 0x0b => some .protocol
  | 0x0c => some .uuids
  | 0x0d => some .sizes
  | 0x0e => some .state
  | 0x0f => some .syncUuid
  | 0x12 => some .stateChgReq
  | 0x1e => some .ovRequest
  | 0x1f => some .ovReply
  | 0x21 => some .csumRsRequest
  | 0x23 => some .syncParam89
  | 0x24 => some .compressedBitmap
  | 0x27 => some .delayProbe
  | 0x28 => some .outOfSync
  | 0x2a => some .connStChgReq
  | 0x2d => some .protocolUpdate
  | 0x31 => some .trim
  | 0x32 => some .snapStart
  | 0x33 => some .snapEnd
  | _ => none

/-- `struct data_cmd`, less the function. -/
structure DataCmd where
  expectPayload : Bool
  pktSize : Nat

/-- The table `drbd_cmd_handler`. -/
def drbdCmdHandler : DrbdPacket → DataCmd
  | .data | .dataReply | .rsDataReply => ⟨true, 24⟩
  | .barrier => ⟨false, 8⟩
  | .bitmap | .compressedBitmap => ⟨true, 0⟩
  | .unplugRemote => ⟨false, 0⟩
  | .dataRequest | .rsDataRequest | .ovRequest => ⟨false, 24⟩
  | .syncParam | .syncParam89 => ⟨true, 0⟩
  | .protocol | .protocolUpdate => ⟨true, 24⟩
  | .uuids => ⟨false, 48⟩
  | .sizes => ⟨false, 32⟩
  | .state => ⟨false, 4⟩
  | .stateChgReq | .connStChgReq => ⟨false, 8⟩
  | .syncUuid => ⟨false, 8⟩
  | .ovReply | .csumRsRequest => ⟨true, 24⟩
  | .delayProbe => ⟨false, 8⟩
  | .outOfSync => ⟨false, 16⟩
  | .trim => ⟨false, 28⟩
  | .snapStart | .snapEnd => ⟨false, 16⟩

/-! ## What the node knows -/

/-- The segments of a read request's `master_bio`; there is at least one. -/
structure Bio where
  segments : List Nat
  nonempty : segments ≠ []

structure Device where
  capacity : Nat
  /-- `get_ldev` -/
  hasLdev : Bool
  /-- `get_ldev_if_state(device, D_UP_TO_DATE)` -/
  upToDate : Bool
  bitmap : Bitmap.DrbdBitmap
  /-- `find_request` in the read requests, by block id and sector -/
  findRequest : List UInt8 → Nat → Option Bio

/-- What decides a packet besides its bytes. `succeeds` is whether all goes well that a handler does
without the socket: memory, digests, sequence numbers, settings, submitting. -/
structure Node where
  /-- `conn_peer_device` by volume number -/
  peerDevice : Nat → Option Device
  /-- the digest size of `peer_integrity_tfm`, 0 without one; `int_dig_in` was allocated with it -/
  digestSize : Nat
  digestSize_le : digestSize ≤ 2 ^ 25
  succeeds : Bool

def Node.finish (node : Node) : Recv Unit :=
  if node.succeeds then pure () else failure

/-- What a handler reads, and then the rest of it. -/
def Node.after (node : Node) (m : Recv Unit) : Recv Unit := do
  m
  node.finish

/-! ## Receiving bytes -/

/-- `drbd_recv`: as many bytes as there are, up to the size asked for. -/
def drbdRecv (size : Nat) : Recv Nat := fun s => some (min size s.length, s.drop size)

/-- `drbd_recv_all`; the int that `sock_recvmsg` returns never equals a larger size. -/
def drbdRecvAll (size : Nat) : Recv (List UInt8) :=
  if size < 2 ^ 31 then Reader.take size else failure

def PAGE_SIZE : Nat := 4096

/-- The loop of `drbd_drain_block`, at least a byte a round. -/
def drainLoop : Nat → Int → Recv Unit
  | 0, _ => failure
  | fuel + 1, dataSize =>
      if dataSize = 0 then pure ()
      else do
        let _ ← drbdRecvAll (unsigned 32 (min dataSize PAGE_SIZE))
        drainLoop fuel (dataSize - min dataSize PAGE_SIZE)

def drbdDrainBlock (dataSize : Int) : Recv Unit := fun s => drainLoop (s.length + 1) dataSize s

/-- The loop of `ignore_remaining_packet`. -/
def ignoreLoop : Nat → Int → Recv Unit
  | 0, _ => failure
  | fuel + 1, size =>
      if size = 0 then pure ()
      else do
        let s ← drbdRecv (unsigned 64 (min size DRBD_SOCKET_BUFFER_SIZE))
        if s = 0 then failure else ignoreLoop fuel (size - s)

def ignoreRemainingPacket (size : Int) : Recv Unit := fun s => ignoreLoop (s.length + 1) size s

/-! ## Headers -/

structure PacketInfo where
  cmd : Nat
  size : Nat
  vnr : Nat
deriving DecidableEq, Repr

def DRBD_MAGIC : Nat := 0x83740267
def DRBD_MAGIC_BIG : Nat := 0x835a
def DRBD_MAGIC_100 : Nat := 0x8620ec20

/-- The big-endian number in `n` bytes of a buffer. -/
def field (buf : List UInt8) (off n : Nat) : Nat := beNat (fun i => buf.getD i 0) off n

def decodeHeader (agreedProVersion : Nat) (header : List UInt8) : Option PacketInfo :=
  let headerSize := drbdHeaderSize agreedProVersion
  if headerSize = 16 ∧ field header 0 4 = DRBD_MAGIC_100 then
    if field header 12 4 ≠ 0 then none
    else some ⟨field header 6 2, field header 8 4, field header 4 2⟩
  else if headerSize = 8 ∧ field header 0 2 = DRBD_MAGIC_BIG then
    some ⟨field header 2 2, field header 4 4, 0⟩
  else if headerSize = 8 ∧ field header 0 4 = DRBD_MAGIC then
    some ⟨field header 4 2, field header 6 2, 0⟩
  else none

def drbdRecvHeader (agreedProVersion : Nat) : Recv PacketInfo := do
  let header ← drbdRecvAll (drbdHeaderSize agreedProVersion)
  match decodeHeader agreedProVersion header with
  | none => failure
  | some pi => pure pi

/-! ## Handlers

A handler gets the packet's number, volume and remaining size, and the fixed part that was read already.
-/

def DRBD_MAX_BIO_SIZE : Nat := 2 ^ 20

/-- The page loop of `read_in_block`. -/
def recvPages : Nat → Nat → Recv Unit
  | 0, _ => pure ()
  | pages + 1, ds => do
      let _ ← drbdRecvAll (min ds PAGE_SIZE)
      recvPages pages (ds - min ds PAGE_SIZE)

/-- `sector + (size>>9) > capacity`, in 64 bits. -/
def beyondEnd (device : Device) (sector : Nat) (size : Int) : Bool :=
  decide (device.capacity < (sector + unsigned 64 (size / 512)) % 2 ^ 64)

/-- `read_in_block` of a packet with payload; the bound on the size is an unsigned one. -/
def readInBlock (node : Node) (device : Device) (size : Nat) (p : List UInt8) : Recv Unit := do
  let _ ← drbdRecvAll node.digestSize
  let dataSize := unsigned 32 (size - node.digestSize)
  if dataSize % 512 ≠ 0 then failure
  else if DRBD_MAX_BIO_SIZE < dataSize then failure
  else if beyondEnd device (field p 0 8) dataSize then failure
  else recvPages ((dataSize + (PAGE_SIZE - 1)) / PAGE_SIZE) dataSize

/-- `read_in_block` of a trim: the size is in the fixed part, and nothing follows. -/
def readInTrim (device : Device) (p : List UInt8) : Recv Unit :=
  let dataSize := signed 32 (field p 24 4)
  if dataSize % 512 ≠ 0 then failure
  else if beyondEnd device (field p 0 8) dataSize then failure
  else pure ()

def receiveData (node : Node) (cmd : DrbdPacket) (pi : PacketInfo) (p : List UInt8) : Recv Unit :=
  match node.peerDevice pi.vnr with
  | none => failure
  | some device =>
      node.after (if !device.hasLdev then drbdDrainBlock (signed 32 pi.size)
        else if cmd = .trim then readInTrim device p
        else readInBlock node device pi.size p)

/-- The segment loop of `recv_dless_read`. -/
def recvSegments : List Nat → Int → Recv Unit
  | [], _ => pure ()
  | bvLen :: segments, dataSize => do
      let expect := min dataSize bvLen
      let _ ← drbdRecvAll (unsigned 64 expect)
      recvSegments segments (dataSize - expect)

def recvDlessRead (node : Node) (bio : Bio) (size : Nat) : Recv Unit := do
  let _ ← drbdRecvAll node.digestSize
  recvSegments bio.segments (signed 32 (size - node.digestSize))

def receiveDataReply (node : Node) (pi : PacketInfo) (p : List UInt8) : Recv Unit :=
  match node.peerDevice pi.vnr with
  | none => failure
  | some device =>
      match device.findRequest ((p.drop 8).take 8) (field p 0 8) with
      | none => failure
      | some bio => node.after (recvDlessRead node bio pi.size)

def receiveRSDataReply (node : Node) (pi : PacketInfo) (p : List UInt8) : Recv Unit :=
  match node.peerDevice pi.vnr with
  | none => failure
  | some device =>
      node.after (if device.hasLdev then readInBlock node device pi.size p
        else drbdDrainBlock (signed 32 pi.size))

def receiveDataRequest (node : Node) (cmd : DrbdPacket) (pi : PacketInfo) (p : List UInt8) : Recv Unit :=
  match node.peerDevice pi.vnr with
  | none => failure
  | some device =>
      let size := signed 32 (field p 16 4)
      if size ≤ 0 ∨ size % 512 ≠ 0 ∨ DRBD_MAX_BIO_SIZE < size then failure
      else if beyondEnd device (field p 0 8) size then failure
      else
        node.after (if !device.upToDate then drbdDrainBlock (signed 32 pi.size)
          else if cmd = .ovReply ∨ cmd = .csumRsRequest then discard (drbdRecvAll pi.size)
          else pure ())

def SHARED_SECRET_MAX : Nat := 64

def receiveProtocol (agreedProVersion : Nat) (node : Node) (pi : PacketInfo) : Recv Unit :=
  if 87 ≤ agreedProVersion then
    if SHARED_SECRET_MAX < pi.size then failure else node.after (discard (drbdRecvAll pi.size))
  else node.finish

/-- The sizes of `p_rs_param`, `p_rs_param_89` and `p_rs_param_95`, by protocol version. -/
def syncParamHeaderSize (agreedProVersion : Nat) : Nat :=
  if agreedProVersion ≤ 88 then 4
  else if agreedProVersion ≤ 94 then 4 + 2 * SHARED_SECRET_MAX
  else 4 + 2 * SHARED_SECRET_MAX + 16

def syncParamMaxSize (agreedProVersion : Nat) : Nat :=
  if agreedProVersion = 88 then 4 + SHARED_SECRET_MAX else syncParamHeaderSize agreedProVersion

/-- The name that only protocol version 88 sends on its own. -/
def recvVerifyAlg (node : Node) (dataSize : Nat) : Recv Unit :=
  if SHARED_SECRET_MAX < dataSize ∨ dataSize = 0 then failure
  else node.after (discard (drbdRecvAll dataSize))

def receiveSyncParam (agreedProVersion : Nat) (node : Node) (pi : PacketInfo) : Recv Unit :=
  match node.peerDevice pi.vnr with
  | none => ignoreRemainingPacket (signed 32 pi.size)
  | some _ =>
      if syncParamMaxSize agreedProVersion < pi.size then failure
      else do
        let _ ← drbdRecvAll (syncParamHeaderSize agreedProVersion)
        if agreedProVersion = 88 then recvVerifyAlg node (unsigned 32 (pi.size - 4)) else node.finish

/-- `receive_uuids`, `receive_sizes`, `receive_state` and `do_snapshot_remote`, which have no more to
read: a packet for an unknown volume is skipped. -/
def receiveConfig (node : Node) (pi : PacketInfo) : Recv Unit :=
  match node.peerDevice pi.vnr with
  | none => ignoreRemainingPacket (signed 32 pi.size)
  | some _ => node.finish

/-- `receive_req_state`, `receive_sync_uuid` and `receive_out_of_sync`. -/
def receiveForDevice (node : Node) (pi : PacketInfo) : Recv Unit :=
  match node.peerDevice pi.vnr with
  | none => failure
  | some _ => node.finish

def bitmapCmd (cmd : Nat) : Option BitmapCmd :=
  match DrbdPacket.ofWire cmd with
  | some .bitmap => some .bitmap
  | some .compressedBitmap => some .compressedBitmap
  | _ => none

/-- What `receive_bitmap` reads for one packet. -/
def recvBitmapPayload (agreedProVersion : Nat) (c : BmXferCtx) (cmd : BitmapCmd) (size : Nat) :
    Recv (List UInt8) :=
  match cmd with
  | .bitmap => if c.numWords agreedProVersion * 8 ≠ size then failure else drbdRecvAll size
  | .compressedBitmap =>
      if DRBD_SOCKET_BUFFER_SIZE - drbdHeaderSize agreedProVersion < size then failure
      else if size ≤ 1 then failure
      else drbdRecvAll size

/-- The loop of `receive_bitmap`, which reads the headers of further packets itself. -/
def receiveBitmapLoop (agreedProVersion : Nat) (node : Node) : Nat → Transfer → PacketInfo → Recv Unit
  | 0, _, _ => failure
  | fuel + 1, t, pi =>
      match bitmapCmd pi.cmd with
      | none => failure
      | some cmd => do
          let payload ← recvBitmapPayload agreedProVersion t.c cmd pi.size
          match t.step agreedProVersion ⟨cmd, payload⟩ with
          | none => failure
          | some t =>
              if t.again then do
                let pi ← drbdRecvHeader agreedProVersion
                receiveBitmapLoop agreedProVersion node fuel t pi
              else node.finish

def receiveBitmap (agreedProVersion : Nat) (node : Node) (pi : PacketInfo) : Recv Unit := fun s =>
  match node.peerDevice pi.vnr with
  | none => none
  | some device => receiveBitmapLoop agreedProVersion node (s.length + 1) (.start device.bitmap) pi s

/-- The function of the table's entry. -/
def handler (agreedProVersion : Nat) (node : Node) (cmd : DrbdPacket) (pi : PacketInfo) (p : List UInt8) :
    Recv Unit :=
  match cmd with
  | .data | .trim => receiveData node cmd pi p
  | .dataReply => receiveDataReply node pi p
  | .rsDataReply => receiveRSDataReply node pi p
  | .bitmap | .compressedBitmap => receiveBitmap agreedProVersion node pi
  | .dataRequest | .rsDataRequest | .ovRequest | .ovReply | .csumRsRequest => receiveDataRequest node cmd pi p
  | .syncParam | .syncParam89 => receiveSyncParam agreedProVersion node pi
  | .protocol | .protocolUpdate => receiveProtocol agreedProVersion node pi
  | .uuids | .sizes | .state | .snapStart | .snapEnd => receiveConfig node pi
  | .stateChgReq | .syncUuid | .outOfSync => receiveForDevice node pi
  | .barrier | .unplugRemote | .connStChgReq => node.finish
  | .delayProbe => ignoreRemainingPacket (signed 32 pi.size)

/-- One round of `drbdd`. -/
def drbddPacket (agreedProVersion : Nat) (node : Node) : Recv Unit := do
  let pi ← drbdRecvHeader agreedProVersion
  match DrbdPacket.ofWire pi.cmd with
  | none => failure
  | some cmd =>
      let shs := (drbdCmdHandler cmd).pktSize
      if shs < pi.size ∧ (drbdCmdHandler cmd).expectPayload = false then failure
      else do
        let p ← drbdRecvAll shs
        handler agreedProVersion node cmd { pi with size := unsigned 32 (pi.size - shs) } p

/-- `drbdd`: one packet after the other, with what the node knows at each. -/
def drbdd (agreedProVersion : Nat) (s : List UInt8) (node : Node) : Option (List UInt8) :=
  (drbddPacket agreedProVersion node s).map Prod.snd

end Drbd.Framing
