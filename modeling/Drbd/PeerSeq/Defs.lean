import Drbd.Lib.Serial
import Drbd.Lib.System

/-!
# Peer sequence numbers

The peer numbers what it sends about a device, acks on the meta socket and data on the data socket, from
one counter. `peer_seq` is the greatest number that was seen. A data packet that comes too early waits for
the acks before it.
-/

namespace Drbd.PeerSeq

open Lib

/-! ## Numbers of 32 bits -/

def seqGreater (a b : Nat) : Prop := SerialGt a b

instance (a b : Nat) : Decidable (seqGreater a b) := inferInstanceAs (Decidable (SerialGt a b))

def seqMax (a b : Nat) : Nat :=
  if seqGreater a b then a else b

/-- `peer_seq - 1`. -/
def before (peerSeq : Nat) : Nat := (peerSeq + (2 ^ 32 - 1)) % 2 ^ 32

def updatePeerSeq (resolveConflicts : Bool) (devicePeerSeq peerSeq : Nat) : Nat :=
  if resolveConflicts then seqMax devicePeerSeq peerSeq else devicePeerSeq

/-! ## The receiver -/

/-- What a data packet finds: a disk, the option as `receive_Data` reads it, and then a signal,
the option as the waiting loop reads it, and its timeout. -/
structure Moment where
  ldev : Bool
  twoPrimaries : Bool
  signalPending : Bool
  stillTwoPrimaries : Bool
  timedOut : Bool
deriving DecidableEq, Repr

inductive Verdict
  /-- The packet may be processed; `device->peer_seq` from now on. -/
  | process (devicePeerSeq : Nat)
  | again
  | error
deriving DecidableEq, Repr

/-- One turn of the loop in `wait_for_and_update_peer_seq`. -/
def waitForAndUpdatePeerSeq (resolveConflicts : Bool) (m : Moment) (devicePeerSeq peerSeq : Nat) : Verdict :=
  if resolveConflicts = false then .process devicePeerSeq
  else if ¬ seqGreater (before peerSeq) devicePeerSeq then .process (seqMax devicePeerSeq peerSeq)
  else if m.signalPending then .error
  else if m.stillTwoPrimaries = false then .process devicePeerSeq
  else if m.timedOut then .error
  else .again

/-- What `receive_Data` does about the number, before it goes on with the packet. -/
def receiveData (resolveConflicts : Bool) (m : Moment) (devicePeerSeq peerSeq : Nat) : Verdict :=
  if m.ldev = false ∨ m.twoPrimaries = true then
    waitForAndUpdatePeerSeq resolveConflicts m devicePeerSeq peerSeq
  else .process (updatePeerSeq resolveConflicts devicePeerSeq peerSeq)

/-! ## Two sockets -/

/-- Packets go by the unbounded number that the peer means; `msock` and `sock` hold what is under way,
the oldest first. -/
structure State where
  /-- `device->peer_seq`. -/
  peerSeq : Nat
  /-- How many packets the peer has numbered. -/
  packetSeq : Nat
  msock : List Nat
  sock : List Nat
  /-- The packets that were dealt with, the last one last. -/
  accounted : List Nat
  disconnecting : Bool
deriving DecidableEq, Repr

def start : State := ⟨0, 0, [], [], [], false⟩

/-- The number as the packet carries it. -/
def wire (n : Nat) : Nat := n % 2 ^ 32

inductive Event
  | peerSendsAck
  | peerSendsData
  | ack
  | data (m : Moment)
deriving DecidableEq, Repr

/-- With the next number there are still fewer than `2 ^ 31` outstanding, from the oldest on. -/
def MayNumber (s : State) : Prop :=
  ∀ k ∈ s.msock ++ s.sock, s.packetSeq + 1 - k + 1 < 2 ^ 31

instance (s : State) : Decidable (MayNumber s) := inferInstanceAs (Decidable (∀ _ ∈ _, _))

def step (resolveConflicts : Bool) (s : State) : Event → Option State
  | .peerSendsAck =>
      if MayNumber s then
        some { s with packetSeq := s.packetSeq + 1, msock := s.msock ++ [s.packetSeq + 1] }
      else none
  | .peerSendsData =>
      if MayNumber s then
        some { s with packetSeq := s.packetSeq + 1, sock := s.sock ++ [s.packetSeq + 1] }
      else none
  | .ack =>
      match s.msock with
      | [] => none
      | n :: rest =>
          some { s with
            peerSeq := updatePeerSeq resolveConflicts s.peerSeq (wire n)
            msock := rest
            accounted := s.accounted ++ [n] }
  | .data m =>
      match s.disconnecting, s.sock with
      | false, n :: rest =>
          match receiveData resolveConflicts m s.peerSeq (wire n) with
          | .process devicePeerSeq =>
              some { s with peerSeq := devicePeerSeq, sock := rest, accounted := s.accounted ++ [n] }
          | .again => some s
          -- without a disk the packet is also refused and drained before the connection goes down
          | .error => some { s with disconnecting := true }
      | _, _ => none

/-- A data packet gets past its number. -/
def Processes (s s' : State) (n : Nat) : Prop := s.sock = n :: s'.sock

instance (s s' : State) (n : Nat) : Decidable (Processes s s' n) := inferInstanceAs (Decidable (_ = _))

/-- `two_primaries` is set wherever it is looked at. -/
def TwoPrimaries : Event → Prop
  | .data m => m.twoPrimaries = true ∧ m.stillTwoPrimaries = true
  | _ => True

instance : DecidablePred TwoPrimaries
  | .data _ => inferInstanceAs (Decidable (_ ∧ _))
  | .peerSendsAck | .peerSendsData | .ack => inferInstanceAs (Decidable True)

/-- The greatest number that was dealt with. -/
def State.greatest (s : State) : Nat := s.accounted.foldl max 0

end Drbd.PeerSeq
