import Drbd.Framing.Header
import Drbd.Lib.System

/-!
# The packets of the meta socket

`drbd_asender` reads what is there, at most to the end of the header or packet it is at, and goes on from there
in the next round of its loop.
-/

namespace Drbd.Framing

open Lib Xfer

/-- The packets that have a function in `asender_tbl`. -/
inductive AsenderPacket
  | ping
  | pingAck
  | recvAck
  | writeAck
  | rsWriteAck
  | superseded
  | negAck
  | negDreply
  | negRsDreply
  | ovResult
  | barrierAck
  | stateChgReply
  | rsIsInSync
  | delayProbe
  | rsCancel
  | connStChgReply
  | retryWrite
deriving DecidableEq, Repr

def AsenderPacket.ofWire : Nat → Option AsenderPacket
  | 0x13 => some .ping
  | 0x14 => some .pingAck
  | 0x15 => some .recvAck
  | 0x16 => some .writeAck
  | 0x17 => some .rsWriteAck
  | 0x18 => some .superseded
  | 0x19 => some .negAck
  | 0x1a => some .negDreply
  | 0x1b => some .negRsDreply
  | 0x1c => some .barrierAck
  | 0x1d => some .stateChgReply
  | 0x20 => some .ovResult
  | 0x22 => some .rsIsInSync
  | 0x27 => some .delayProbe
  | 0x29 => some .rsCancel
  | 0x2b => some .connStChgReply
  | 0x2c => some .retryWrite
  | _ => none

/-- `pkt_size` in `asender_tbl` -/
def asenderTbl : AsenderPacket → Nat
  | .ping | .pingAck => 0
  | .barrierAck | .delayProbe => 8
  | .stateChgReply | .connStChgReply => 4
  | .recvAck | .writeAck | .rsWriteAck | .superseded | .negAck | .negDreply | .negRsDreply | .ovResult
  | .rsIsInSync | .rsCancel | .retryWrite => 24

/-- The functions of `asender_tbl`: the packet, its header and what follows it; whether it fails. -/
abbrev AsenderFn (σ : Type) := AsenderPacket → PacketInfo → List UInt8 → σ → Bool × σ

/-- What is wrong with a packet. -/
inductive Refusal
  | badHeader
  | unexpectedPacket
  | wrongSize
  | failed
deriving DecidableEq, Repr

/-- How the loop comes to its end. -/
inductive Ending
  | refused (why : Refusal)
  | stopped
  | sendPingFailed
  | finishPeerReqsFailed
  | shutDown
  | left
  | pingAckLate
  | recvFailed
deriving DecidableEq, Repr

/-- What `drbd_recv_short` meets: some bytes are there, or one of the other results. -/
inductive RecvShort
  | bytes (more : Nat)
  /-- nothing will come any more; or that was to be, and the connection is left in time -/
  | closed (left : Bool)
  /-- the timeout expired, with or without a packet on the data socket meanwhile -/
  | eagain (recent : Bool)
  | eintr
  | error
deriving DecidableEq, Repr

/-- What one round of the loop meets: whether the thread is to go on, a ping is asked for, a ping can be sent,
the peer's requests can be finished, a signal is pending. -/
structure Round where
  running : Bool
  pingRequest : Bool
  sendPing : Bool
  finishPeerReqs : Bool
  signalPending : Bool
  recv : RecvShort
deriving DecidableEq, Repr

/-- The variables of `drbd_asender`, `buf` as an offset in `rbuf`, with what is still to come from the peer. -/
structure Asender (σ : Type) where
  cmd : Option AsenderPacket
  pi : PacketInfo
  rbuf : Nat → UInt8
  buf : Nat
  received : Nat
  expect : Nat
  pingTimeoutActive : Bool
  sendPing : Bool
  world : σ
  stream : List UInt8
  ended : Option Ending

variable {σ : Type}

def Asender.start (agreedProVersion : Nat) (rbuf : Nat → UInt8) (world : σ) (stream : List UInt8) : Asender σ where
  cmd := none
  pi := ⟨0, 0, 0⟩
  rbuf := rbuf
  buf := 0
  received := 0
  expect := drbdHeaderSize agreedProVersion
  pingTimeoutActive := false
  sendPing := false
  world := world
  stream := stream
  ended := none

namespace Asender

/-- `n` bytes of the buffer. -/
def contents (s : Asender σ) (off n : Nat) : List UInt8 := (List.range n).map fun i => s.rbuf (off + i)

def finish (s : Asender σ) (e : Ending) : Asender σ := { s with ended := some e }

/-- The bytes go to where `buf` points to. -/
def store (s : Asender σ) (chunk : List UInt8) : Asender σ :=
  { s with
    rbuf := fun i => if s.buf ≤ i ∧ i < s.buf + chunk.length then chunk.getD (i - s.buf) 0 else s.rbuf i
    buf := s.buf + chunk.length
    received := s.received + chunk.length
    stream := s.stream.drop chunk.length }

/-- With a whole header in the buffer: what packet is it? -/
def takeHeader (agreedProVersion : Nat) (s : Asender σ) : Asender σ :=
  let headerSize := drbdHeaderSize agreedProVersion
  if s.received = s.expect ∧ s.cmd = none then
    match decodeHeader agreedProVersion (s.contents 0 headerSize) with
    | none => s.finish (.refused .badHeader)
    | some pi =>
        match AsenderPacket.ofWire pi.cmd with
        | none => s.finish (.refused .unexpectedPacket)
        | some cmd =>
            let s := { s with pi := pi, cmd := some cmd, expect := headerSize + asenderTbl cmd }
            if pi.size ≠ s.expect - headerSize then s.finish (.refused .wrongSize) else s
  else s

/-- With a whole packet in the buffer: its function, and on to the next header. -/
def takePacket (agreedProVersion : Nat) (fn : AsenderFn σ) (s : Asender σ) : Asender σ :=
  if s.received = s.expect then
    match s.cmd with
    | none => s
    | some cmd =>
        let data := s.contents (drbdHeaderSize agreedProVersion) (asenderTbl cmd)
        match fn cmd s.pi data s.world with
        | (true, world) => { s with world := world }.finish (.refused .failed)
        | (false, world) =>
            { s with
              world := world
              pingTimeoutActive := s.pingTimeoutActive && cmd ≠ .pingAck
              buf := 0
              received := 0
              expect := drbdHeaderSize agreedProVersion
              cmd := none }
  else s

/-- The rest of the round after a read of one byte or more. -/
def gotBytes (agreedProVersion : Nat) (fn : AsenderFn σ) (s : Asender σ) (chunk : List UInt8) : Asender σ :=
  let s := (s.store chunk).takeHeader agreedProVersion
  if s.ended.isSome then s else s.takePacket agreedProVersion fn

/-- `drbd_recv_short()` and what follows it -/
def receive (agreedProVersion : Nat) (fn : AsenderFn σ) (s : Asender σ) : RecvShort → Asender σ
  | .bytes more =>
      match s.stream.take (min (more + 1) (s.expect - s.received)) with
      | [] => s.finish .shutDown
      | chunk => s.gotBytes agreedProVersion fn chunk
  | .closed left => s.finish (if left then .left else .shutDown)
  | .eagain recent =>
      if recent then s
      else if s.pingTimeoutActive then s.finish .pingAckLate
      else { s with sendPing := true }
  | .eintr => s
  | .error => s.finish .recvFailed

/-- One round of the loop. -/
def round (agreedProVersion : Nat) (fn : AsenderFn σ) (s : Asender σ) (r : Round) : Asender σ :=
  if !r.running then s.finish .stopped
  else
    let ping := s.sendPing || r.pingRequest
    let s := { s with sendPing := false }
    if ping && !r.sendPing then s.finish .sendPingFailed
    else
      let s := { s with pingTimeoutActive := s.pingTimeoutActive || ping }
      if !r.finishPeerReqs then s.finish .finishPeerReqsFailed
      -- short circuit, recv_msg would return EINTR anyways
      else if r.signalPending then s
      else s.receive agreedProVersion fn r.recv

def step (agreedProVersion : Nat) (fn : AsenderFn σ) (s : Asender σ) (r : Round) : Option (Asender σ) :=
  if s.ended.isSome then none else some (s.round agreedProVersion fn r)

end Asender

end Drbd.Framing
