import Drbd.Lib.System
import Mathlib.Data.List.Basic

/-!
# Epochs of the receiving side

Every P_DATA belongs to the epoch that is current when it arrives. An epoch is finished, and its P_BARRIER_ACK
sent, once its barrier came in, none of its writes is active, all epochs before it are finished, and the
write ordering method is satisfied.
-/

namespace Drbd.PeerEpoch

/-- `enum write_ordering_e`. -/
inductive WriteOrdering
  | none
  | drainIo
  | bdevFlush
  | bioBarrier
deriving DecidableEq, Repr

def WriteOrdering.rank : WriteOrdering → Nat
  | .none => 0
  | .drainIo => 1
  | .bdevFlush => 2
  | .bioBarrier => 3

/-- `struct drbd_epoch`; the name `id` stands for its address. -/
structure DrbdEpoch where
  id : Nat
  barrierNr : Nat
  epochSize : Nat
  active : Nat
  barrierInNextEpochIssued : Bool
  barrierInNextEpochDone : Bool
  containsABarrier : Bool
  haveBarrierNumber : Bool
deriving DecidableEq, Repr

def DrbdEpoch.fresh (id : Nat) : DrbdEpoch :=
  ⟨id, 0, 0, 0, false, false, false, false⟩

/-- Where a peer write is: waiting for conflicts, on `active_ee`, queued for `w_e_reissue`, on `done_ee`, on
`done_ee` to be refused, or freed. A reissued write counts as on `active_ee` again, where `w_e_reissue` does not put
it back. -/
inductive EeState
  | resolving
  | active
  | reissue
  | done
  | superseded
  | finished
deriving DecidableEq, Repr

/-- A peer write; `stable` is not in the source and says that its data is on stable storage for sure. -/
structure PeerReq where
  epoch : Nat
  isBarrier : Bool
  resubmitted : Bool
  state : EeState
  stable : Bool
deriving DecidableEq, Repr

/-- What the receiver is doing: between packets, resolving conflicts in `receive_Data`, waiting for `active_ee`
in `receive_Barrier`, or about to provide a new epoch there. -/
inductive Receiver
  | idle
  | resolving
  | draining
  | allocating
deriving DecidableEq, Repr

/-- A P_BARRIER_ACK, with the epoch it was sent for. -/
structure Ack where
  epoch : Nat
  barrierNr : Nat
  setSize : Nat
deriving DecidableEq, Repr

/-- The epochs of a connection, oldest first, and the peer writes. The last four fields are not in the source:
the barriers received with the number of P_DATA before each, the P_DATA since, and whether there was an
EV_CLEANUP or a change of the write ordering method. -/
structure Connection where
  writeOrdering : WriteOrdering
  older : List DrbdEpoch
  currentEpoch : DrbdEpoch
  epochs : Nat
  writes : List PeerReq
  flushWork : List Nat
  receiver : Receiver
  nextId : Nat
  acks : List Ack
  barriers : List (Nat × Nat)
  dataCount : Nat
  cleanedUp : Bool
  bumped : Bool
deriving DecidableEq, Repr

/-- The epoch list. -/
def Connection.all (c : Connection) : List DrbdEpoch :=
  c.older ++ [c.currentEpoch]

def Connection.oldest (c : Connection) : DrbdEpoch :=
  c.older.head?.getD c.currentEpoch

def modifyId (id : Nat) (f : DrbdEpoch → DrbdEpoch) (e : DrbdEpoch) : DrbdEpoch :=
  if e.id = id then f e else e

def Connection.modify (c : Connection) (id : Nat) (f : DrbdEpoch → DrbdEpoch) : Connection :=
  { c with older := c.older.map (modifyId id f), currentEpoch := modifyId id f c.currentEpoch }

/-! ## Finishing epochs -/

inductive EpochEvent
  | put
  | gotBarrierNr
  | barrierDone
deriving DecidableEq, Repr

/-- The `switch` of `drbd_may_finish_epoch`; nothing happens for EV_BECAME_LAST. -/
def applyEvent (wo : WriteOrdering) (isCurrent : Bool) (ev : EpochEvent) (e : DrbdEpoch) : DrbdEpoch :=
  match ev with
  | .put => { e with active := e.active - 1 }
  | .gotBarrierNr =>
      { e with
        haveBarrierNumber := true
        containsABarrier := e.containsABarrier && !(e.epochSize = 1 && wo ≠ .bioBarrier && isCurrent) }
  | .barrierDone => { e with barrierInNextEpochDone := true }

inductive Verdict
  | live
  | scheduleFlush
  | finish
deriving DecidableEq, Repr

/-- The conditions on the oldest epoch. -/
def verdict (wo : WriteOrdering) (cleanup : Bool) (e : DrbdEpoch) : Verdict :=
  if e.epochSize ≠ 0 && e.active = 0 && (e.haveBarrierNumber || cleanup) then
    if e.barrierInNextEpochDone || wo = .none || (e.epochSize = 1 && e.containsABarrier) || cleanup then .finish
    else if !e.barrierInNextEpochIssued && wo = .bioBarrier then .scheduleFlush
    else .live
  else .live

/-- `drbd_send_b_ack`, unless the connection is being cleaned up. -/
def Connection.sendBAck (c : Connection) (cleanup : Bool) (e : DrbdEpoch) : Connection :=
  if cleanup then c else { c with acks := c.acks ++ [⟨e.id, e.barrierNr, e.epochSize⟩] }

/-- The oldest epoch leaves the list. -/
def Connection.destroyOldest (c : Connection) (cleanup : Bool) (e : DrbdEpoch) (rest : List DrbdEpoch) : Connection :=
  { c.sendBAck cleanup e with older := rest, epochs := c.epochs - 1 }

/-- The current epoch is used again; nothing refers to it any more, so it gets a new name. -/
def Connection.recycle (c : Connection) (cleanup : Bool) : Connection :=
  { c.sendBAck cleanup c.currentEpoch with
    currentEpoch := { DrbdEpoch.fresh c.nextId with
      barrierNr := c.currentEpoch.barrierNr, active := c.currentEpoch.active }
    nextId := c.nextId + 1 }

/-- An active reference is taken for the `flush_work`. -/
def Connection.queueFlush (c : Connection) (id : Nat) : Connection :=
  { c.modify id fun e => { e with active := e.active + 1 } with flushWork := c.flushWork ++ [id] }

/-- The loop of `drbd_may_finish_epoch` from the oldest epoch on. -/
def finishOldest (cleanup : Bool) : List DrbdEpoch → Connection → Connection
  | [], c =>
      match verdict c.writeOrdering cleanup c.currentEpoch with
      | .live => c
      | .scheduleFlush => c.queueFlush c.currentEpoch.id
      | .finish => c.recycle cleanup
  | e :: rest, c =>
      match verdict c.writeOrdering cleanup e with
      | .live => c
      | .scheduleFlush => c.queueFlush e.id
      | .finish => finishOldest cleanup rest (c.destroyOldest cleanup e rest)

def drbdMayFinishEpoch (c : Connection) (id : Nat) (ev : EpochEvent) (cleanup : Bool) : Connection :=
  let c := { c.modify id (applyEvent c.writeOrdering (id = c.currentEpoch.id) ev) with
    cleanedUp := c.cleanedUp || cleanup }
  if c.oldest.id = id then finishOldest cleanup c.older c else c

/-- `previous_epoch`. -/
def previousEpoch : List DrbdEpoch → Nat → Option Nat
  | e :: e' :: rest, id => if e'.id = id then some e.id else previousEpoch (e' :: rest) id
  | _, _ => none

/-! ## Write ordering -/

/-- `drbd_bump_write_ordering`; the disk configurations may allow less than `wo`. -/
def Connection.bumpWriteOrdering (c : Connection) (wo allowed : WriteOrdering) : Connection :=
  let lower := fun a b : WriteOrdering => if b.rank < a.rank then b else a
  let wo := lower (lower c.writeOrdering wo) allowed
  { c with writeOrdering := wo, bumped := c.bumped || wo ≠ c.writeOrdering }

def PeerReq.completed (w : PeerReq) : Bool :=
  w.state = .done || w.state = .finished

/-- A flush that succeeds makes stable what was completed before. -/
def PeerReq.flushed (w : PeerReq) : PeerReq :=
  { w with stable := w.stable || w.completed }

/-- `drbd_flush_after_epoch` up to its event; `failed` has the method that is left. -/
def Connection.issueFlush (c : Connection) (failed : Option WriteOrdering) : Connection :=
  if c.writeOrdering.rank < WriteOrdering.bdevFlush.rank then c
  else
    match failed with
    | some allowed => c.bumpWriteOrdering .drainIo allowed
    | none => { c with writes := c.writes.map PeerReq.flushed }

def drbdFlushAfterEpoch (c : Connection) (id : Nat) (failed : Option WriteOrdering) : Connection :=
  drbdMayFinishEpoch (c.issueFlush failed) id .barrierDone false

/-! ## Peer writes -/

/-- Replace the state of a write that is in the expected state. -/
def Connection.moveWrite (c : Connection) (i : Nat) (before after : EeState) : Option (PeerReq × Connection) :=
  match c.writes[i]? with
  | some w =>
      if w.state = before then some (w, { c with writes := c.writes.set i { w with state := after } }) else none
  | none => none

/-- Whether the first write of an epoch is to be a barrier; `prev` is the epoch before it. -/
def needsBarrier (prev : Option DrbdEpoch) : Bool :=
  match prev with
  | none => true
  | some p => p.epochSize > 1 || !p.containsABarrier

def Connection.setIssued (c : Connection) (id : Nat) : Connection :=
  c.modify id fun e => { e with barrierInNextEpochIssued := true }

/-- Whether the next write is sent to the disk as a barrier. -/
def Connection.nextIsBarrier (c : Connection) : Bool :=
  c.writeOrdering = .bioBarrier && c.currentEpoch.epochSize = 0 && needsBarrier c.older.getLast?

/-- A write joins the current epoch. -/
def Connection.addWrite (c : Connection) (barrier : Bool) : Connection :=
  { c with
    currentEpoch := { c.currentEpoch with
      epochSize := c.currentEpoch.epochSize + 1
      active := c.currentEpoch.active + 1
      containsABarrier := c.currentEpoch.containsABarrier || barrier }
    writes := c.writes ++ [⟨c.currentEpoch.id, barrier, false, .resolving, false⟩]
    receiver := .resolving
    dataCount := c.dataCount + 1 }

/-- The epoch part of `receive_Data`. -/
def receiveData (c : Connection) : Connection :=
  match c.older.getLast? with
  | some prev => if c.nextIsBarrier then (c.setIssued prev.id).addWrite true else c.addWrite false
  | none => c.addWrite c.nextIsBarrier

/-- A completed barrier has itself and all writes submitted before it on stable storage. -/
def Connection.barrierWritten (c : Connection) (i : Nat) : Connection :=
  { c with writes := c.writes.mapIdx fun j w => { w with stable := w.stable || decide (j ≤ i) } }

/-- `drbd_endio_write_sec_final`; `failed` has the method the disk configurations allow after an error. -/
def endio (c : Connection) (i : Nat) (failed : Option WriteOrdering) : Option Connection :=
  match c.moveWrite i .active .done with
  | none => none
  | some (w, c') =>
      match failed with
      | none => some (if w.isBarrier && !w.resubmitted then c'.barrierWritten i else c')
      | some allowed =>
          if w.isBarrier && !w.resubmitted then
            some { (c.bumpWriteOrdering .bdevFlush allowed) with
              writes := c.writes.set i { w with state := .reissue, resubmitted := true } }
          else some c'

/-- `e_end_block`. -/
def eEndBlock (c : Connection) (i : Nat) (cancel : Bool) : Option Connection :=
  match c.moveWrite i .done .finished with
  | none => none
  | some (w, _) =>
      let c :=
        match if w.isBarrier then previousEpoch c.all w.epoch else none with
        | some prev => drbdMayFinishEpoch c prev .barrierDone cancel
        | none => c
      some (drbdMayFinishEpoch { c with writes := c.writes.set i { w with state := .finished } } w.epoch .put cancel)

/-- `w_flush`. -/
def wFlush (c : Connection) (failed : Option WriteOrdering) (cleanup : Bool) : Option Connection :=
  match c.flushWork with
  | [] => none
  | id :: _ =>
      let issued := c.all.any fun e => e.id = id && e.barrierInNextEpochIssued
      let c := if issued then c else drbdFlushAfterEpoch (c.setIssued id) id failed
      some (drbdMayFinishEpoch { c with flushWork := c.flushWork.tail } id .put cleanup)

/-! ## Barriers -/

/-- The number of the barrier is noted. -/
def Connection.noteBarrier (c : Connection) (nr : Nat) : Connection :=
  { c with
    currentEpoch := { c.currentEpoch with barrierNr := nr }
    barriers := c.barriers ++ [(nr, c.dataCount)]
    dataCount := 0
    receiver := .allocating }

/-- `receive_Barrier` up to where it may sleep. -/
def receiveBarrier (c : Connection) (nr : Nat) : Connection :=
  let cur := c.currentEpoch.id
  let c := drbdMayFinishEpoch (c.noteBarrier nr) cur .gotBarrierNr false
  if c.currentEpoch.id ≠ cur then { c with receiver := .idle }
  else if c.writeOrdering = .bioBarrier || c.writeOrdering = .none then c
  else { c.setIssued cur with receiver := .draining }

/-- Its next part, once `active_ee` is empty. -/
def barrierDrained (c : Connection) (failed : Option WriteOrdering) : Connection :=
  let cur := c.currentEpoch.id
  let c := drbdFlushAfterEpoch { c with receiver := .allocating } cur failed
  if c.currentEpoch.id ≠ cur then { c with receiver := .idle } else c

/-- A new epoch, unless the current one was recycled meanwhile. -/
def barrierAllocated (c : Connection) : Connection :=
  if c.currentEpoch.epochSize = 0 then { c with receiver := .idle }
  else
    { c with
      older := c.older ++ [c.currentEpoch]
      currentEpoch := DrbdEpoch.fresh c.nextId
      nextId := c.nextId + 1
      epochs := c.epochs + 1
      receiver := .idle }

/-! ## The system -/

inductive Event
  | data
  | dataNoDisk
  | submit
  | supersede
  | interrupted
  | sendSuperseded (i : Nat)
  | endio (i : Nat) (failed : Option WriteOrdering)
  | reissue (i : Nat)
  | reissueFailed (i : Nat)
  | endBlock (i : Nat) (cancel : Bool)
  | flush (failed : Option WriteOrdering) (cleanup : Bool)
  | barrier (nr : Nat)
  | drained (failed : Option WriteOrdering)
  | allocated
  | bump (wo allowed : WriteOrdering)
deriving DecidableEq, Repr

/-- The write the receiver holds goes on. -/
def Connection.resolve (c : Connection) (after : EeState) : Option (PeerReq × Connection) :=
  if c.receiver ≠ .resolving then none
  else (c.moveWrite (c.writes.length - 1) .resolving after).map fun p => (p.1, { p.2 with receiver := .idle })

/-- It is freed without having been submitted. -/
def Connection.dropWrite (c : Connection) : Option (PeerReq × Connection) :=
  match c.receiver, c.writes.getLast? with
  | .resolving, some w => some (w, { c with writes := c.writes.dropLast, receiver := .idle })
  | _, _ => none

def step (c : Connection) : Event → Option Connection
  | .data => if c.receiver = .idle then some (receiveData c) else none
  | .dataNoDisk =>
      if c.receiver = .idle then
        some { c with
          currentEpoch := { c.currentEpoch with epochSize := c.currentEpoch.epochSize + 1 }
          dataCount := c.dataCount + 1 }
      else none
  | .submit => (c.resolve .active).map Prod.snd
  | .supersede => (c.resolve .superseded).map Prod.snd
  | .interrupted => c.dropWrite.map fun p => drbdMayFinishEpoch p.2 p.1.epoch .put true
  | .sendSuperseded i => (c.moveWrite i .superseded .finished).map Prod.snd
  | .endio i failed => endio c i failed
  | .reissue i => (c.moveWrite i .reissue .active).map Prod.snd
  | .reissueFailed i => (c.moveWrite i .reissue .finished).map fun p => drbdMayFinishEpoch p.2 p.1.epoch .put true
  | .endBlock i cancel => eEndBlock c i cancel
  | .flush failed cleanup => wFlush c failed cleanup
  | .barrier nr => if c.receiver = .idle then some (receiveBarrier c nr) else none
  | .drained failed =>
      if c.receiver = .draining && c.writes.all (·.state ≠ .active) then some (barrierDrained c failed) else none
  | .allocated => if c.receiver = .allocating then some (barrierAllocated c) else none
  | .bump wo allowed => some (c.bumpWriteOrdering wo allowed)

/-- A connection as it is established. -/
def connected (wo : WriteOrdering) : Connection where
  writeOrdering := wo
  older := []
  currentEpoch := DrbdEpoch.fresh 0
  epochs := 1
  writes := []
  flushWork := []
  receiver := .idle
  nextId := 1
  acks := []
  barriers := []
  dataCount := 0
  cleanedUp := false
  bumped := false

end Drbd.PeerEpoch
