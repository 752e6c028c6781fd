import Mathlib.Data.List.Basic

/-!
# Deferred submission

Writes that would wait for the activity log are queued to `device->submit`, and `do_submit` works them off. More may
be queued at any time; what the activity log says to each request is part of the event.
-/

namespace Drbd.Submit

/-- What `drbd_al_begin_io_fastpath` comes to for a request. -/
inductive FastPath
  /-- it needs no activity log: no local disk, no data, or `AL_SUSPENDED` -/
  | unneeded
  | hot
  | cold
deriving DecidableEq

/-- What was done about a request, or by `drbd_al_begin_io_commit`. -/
inductive Action
  /-- references were taken for the request; `hot` if nothing has to be committed for them -/
  | took (req : Nat) (hot : Bool)
  | committed
  /-- `drbd_send_and_submit`, with or without `RQ_IN_ACT_LOG` -/
  | sent (req : Nat) (inActLog : Bool)
deriving DecidableEq

/-- Where the worker is. -/
inductive Pc
  | idle
  /-- at the head of the outer loop -/
  | splice
  /-- in `submit_fast_path`, with these requests of `incoming` before it -/
  | fast (rest : List Nat)
  /-- at `skip_fast_path` -/
  | wait
  /-- at the head of the inner loop -/
  | more
  /-- in it, `submit.writes` has not been empty -/
  | spliceMore
  | prepareMore (moreIncoming : List Nat)
  | commit
  | send
  /-- in the loop in blocking mode -/
  | blocking
deriving DecidableEq

/-- The requests are numbered as they come. -/
structure Submitter where
  next : Nat
  /-- `submit.writes` -/
  writes : List Nat
  /-- threads in `drbd_queue_write` that have not called `queue_work` yet -/
  queueing : Nat
  /-- the work is on its queue -/
  queued : Bool
  pc : Pc
  incoming : List Nat
  pending : List Nat
  /-- newest first -/
  log : List Action
deriving DecidableEq

inductive SubmitEvent
  /-- `drbd_request_prepare` and what follows it in `__drbd_make_request` -/
  | request (result : FastPath)
  | queueWork
  | run
  | splice
  | fast (result : FastPath)
  | fastDone
  /-- an evaluation of the condition of `wait_event`, with what `drbd_al_begin_io_nonblock` says to each request -/
  | prepare (admitted : List Bool)
  | look
  | spliceMore
  | prepareMore (admitted : List Bool)
  | commit
  | send
  | sendDone
  /-- `drbd_al_begin_io_prepare` for the next request, and whether its extents were hot after all -/
  | begin (hot : Bool)
  | blockingDone
deriving DecidableEq

/-- The loop of `prepare_al_transaction_nonblock`: the requests that are admitted, and those that stay. -/
def prepareAlTransactionNonblock : List Bool → List Nat → List Nat × List Nat
  | true :: admitted, req :: incoming =>
      let (pending, rest) := prepareAlTransactionNonblock admitted incoming
      (req :: pending, rest)
  | false :: admitted, req :: incoming =>
      let (pending, rest) := prepareAlTransactionNonblock admitted incoming
      (pending, req :: rest)
  | _, incoming => ([], incoming)

namespace Submitter

/-- References are taken for the requests, to extents that may have to be committed. -/
def tookCold (reqs : List Nat) (log : List Action) : List Action := reqs.map (.took · false) ++ log

def step (s : Submitter) (ev : SubmitEvent) : Option Submitter :=
  match ev, s.pc with
  | .request result, _ =>
      let s' := { s with next := s.next + 1 }
      match result with
      | .unneeded => some { s' with log := .sent s.next false :: s.log }
      | .hot => some { s' with log := .sent s.next true :: .took s.next true :: s.log }
      | .cold => some { s' with writes := s.writes ++ [s.next], queueing := s.queueing + 1 }
  | .queueWork, _ => if 0 < s.queueing then some { s with queueing := s.queueing - 1, queued := true } else none
  | .run, .idle => if s.queued then some { s with queued := false, pc := .splice } else none
  | .splice, .splice => some { s with incoming := [], writes := [], pc := .fast (s.incoming ++ s.writes) }
  | .fast result, .fast (req :: rest) =>
      let s' := { s with pc := .fast rest }
      match result with
      | .unneeded => some { s' with log := .sent req false :: s.log }
      | .hot => some { s' with log := .sent req true :: .took req true :: s.log }
      | .cold => some { s' with incoming := s.incoming ++ [req] }
  | .fastDone, .fast [] => some { s with pc := if s.incoming = [] then .idle else .wait }
  | .prepare admitted, .wait =>
      let (pending, rest) := prepareAlTransactionNonblock admitted s.incoming
      some { s with
        incoming := rest
        pending := s.pending ++ pending
        log := tookCold pending s.log
        pc := if s.pending ++ pending = [] then .wait else .more }
  | .look, .more => some { s with pc := if s.writes = [] then .commit else .spliceMore }
  | .spliceMore, .spliceMore =>
      some { s with writes := [], pc := if s.writes = [] then .commit else .prepareMore s.writes }
  | .prepareMore admitted, .prepareMore moreIncoming =>
      let (morePending, moreIncoming) := prepareAlTransactionNonblock admitted moreIncoming
      some { s with
        pending := s.pending ++ morePending
        incoming := s.incoming ++ moreIncoming
        log := tookCold morePending s.log
        pc := if morePending = [] then .commit else .more }
  | .commit, .commit => some { s with log := .committed :: s.log, pc := .send }
  | .send, .send =>
      match s.pending with
      | [] => none
      | req :: pending => some { s with pending := pending, log := .sent req true :: s.log }
  | .sendDone, .send => if s.pending = [] then some { s with pc := .blocking } else none
  | .begin hot, .blocking =>
      match s.incoming with
      | [] => none
      | req :: incoming =>
          if hot then some { s with incoming := incoming, log := .sent req true :: .took req true :: s.log }
          else some { s with
            incoming := incoming, pending := req :: s.pending, log := .took req false :: s.log, pc := .wait }
  | .blockingDone, .blocking => if s.incoming = [] then some { s with pc := .splice } else none
  | _, _ => none

def start : Submitter := ⟨0, [], 0, false, .idle, [], [], []⟩

end Submitter

/-- The requests on a list of the worker that is not `incoming` or `pending`. -/
def Pc.held : Pc → List Nat
  | .fast rest => rest
  | .prepareMore moreIncoming => moreIncoming
  | _ => []

/-! ## What the log should be -/

/-- The requests that went through `drbd_send_and_submit`. -/
def sentIn : List Action → List Nat
  | [] => []
  | .sent req _ :: log => req :: sentIn log
  | _ :: log => sentIn log

/-- Requests with references that are not committed. -/
def uncommitted : List Action → List Nat
  | [] => []
  | .committed :: _ => []
  | .took req false :: log => req :: uncommitted log
  | _ :: log => uncommitted log

/-- References were taken for the request. -/
def Took (log : List Action) (req : Nat) : Prop := ∃ hot, .took req hot ∈ log

/-- A request is sent with `RQ_IN_ACT_LOG` exactly if it has references, and only after they are committed. -/
def Sound : List Action → Prop
  | [] => True
  | .sent req inActLog :: log => Sound log ∧ (inActLog = true ↔ Took log req) ∧ req ∉ uncommitted log
  | _ :: log => Sound log

end Drbd.Submit
