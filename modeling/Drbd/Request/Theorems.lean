import Drbd.Request.Lemmas.Events

/-!
# The references of a request

Over every sequence of events the two counts are what the bits stand for, the master bio is completed at
most once, and no logic bug is met.
-/

namespace Drbd.Request

open Drbd.Lib State

variable {env : Env} {r r' : DrbdRequest} {what : Event}

/-- The second change of a write that pretends to be acked is never late: suspension came with the first. -/
theorem notLate_handedOver (h : Inv r')
    (hs : ∃ p, r'.rqState = { r.rqState.apply { noBits with netPending := true }
      (effectiveSet env r.rqState { noBits with netPending := true } { noBits with netOk := true })
      with postponed := p }) :
    NotLate env r' { noBits with netQueued := true } { noBits with netSent := true } := by
  intro hz
  obtain ⟨p, hp⟩ := hs
  have hc := h.completionRef
  have hsusp : r'.rqState.completionSusp = false := by
    cases hcs : r'.rqState.completionSusp
    · rfl
    · simp [RqState.completionRefs, hcs] at hc
      omega
  have hoff : env.suspended = false := by
    rw [hp] at hsusp
    cases he : env.suspended
    · rfl
    · simp [RqState.apply, effectiveSet, noBits, he] at hsusp
      split at hsusp <;> simp_all
  simp [effectiveSet, completionGet, noBits, hoff]

theorem fine_lastChange (h : Inv r) (hassert : Asserts r what) (horder : Orderly env r what) :
    Fine (lastChange env r what) := by
  have hd := @inv_direct env _ _ h hassert
  unfold lastChange
  split
  · exact .inl hd
  · rename_i clear set hm
    refine fine_modRqState hd (fits_direct (masks_fits hassert horder hm)).effective
      (notLate_direct (horder.1 (clear, set) hm)) (answered_effective ?_)
    exact masks_answered h.answered hassert horder hm

theorem fine_reqMod (h : Inv r) (hassert : Asserts r what) (horder : Orderly env r what)
    (hs : reqMod env r what = some r') : Fine r' := by
  obtain ⟨q, hlive, rfl, hq⟩ := reqMod_cases hs
  rcases hq with rfl | ⟨rfl, hpret, hq⟩
  · exact fine_lastChange h hassert horder
  have hnp : r.rqState.netPending = true := by
    simp only [pretendsAck, Bool.and_eq_true] at hpret
    exact hpret.2
  -- a write is acked without an ack only while a barrier ack is to come, or all is done
  have hpaid : r.rqState.expBarrAck = true ∨ r.rqState.netDone = true := by
    rcases horder.2 with hb | hd | ⟨-, hno⟩
    · exact .inl hb
    · exact .inr hd
    · rw [hpret] at hno
      cases hno
  have hfirst : Fine (modRqState env r { noBits with netPending := true } { noBits with netOk := true }) := by
    refine fine_modRqState h (Fits.effective ?_) (fun hz => ?_) (answered_effective fun _ => ?_)
    · apply fits_plain <;> simp [noBits]
    · have hc := h.completionRef
      simp [RqState.completionRefs, hnp] at hc
      omega
    · rcases hpaid with hb | hd
      · exact .inl (by simp [RqState.apply, noBits, hb])
      · exact .inr (.inl (by simp [RqState.apply, noBits, hd]))
  obtain ⟨p, hp⟩ := rqState_modRqState env r { noBits with netPending := true } { noBits with netOk := true }
  rw [← hq] at hfirst hp
  rcases hfirst with hinv | ⟨hfreed, -, -⟩
  · refine fine_lastChange hinv trivial ⟨?_, ?_⟩
    · intro m hm
      cases hm
      exact notLate_handedOver hinv ⟨p, hp⟩
    · rcases hpaid with hb | hd
      · exact .inl (by rw [hp]; simp [RqState.apply, effectiveSet, noBits, hb])
      · exact .inr (.inl (by rw [hp]; simp [RqState.apply, effectiveSet, noBits, hd]))
  · rw [hlive] at hfreed
    cases hfreed

/-! ## Runs -/

/-- The preconditions that the code asserts. -/
def Asserted (r : DrbdRequest) : Env × Act → Prop
  | (_, .event what) => Asserts r what
  | _ => True

/-- The step is none of those that the code leaves unguarded. -/
def Guarded (r : DrbdRequest) : Env × Act → Prop
  | (env, .event what) => Orderly env r what
  | _ => True

theorem fine_step {act : Env × Act} (h : Inv r) (hassert : Asserted r act) (hguard : Guarded r act)
    (hs : step r act = some r') : Fine r' := by
  obtain ⟨env, act⟩ := act
  cases act with
  | event what => exact fine_reqMod h hassert hguard hs
  | inActLog =>
      simp only [step] at hs
      split at hs
      · cases hs
        exact .inl ⟨h.live, h.completionRef, h.kref, h.retry, h.master, h.late, h.answered, h.log.noBug,
          h.log.completions⟩
      · cases hs
  | addToTransferLog =>
      simp only [step] at hs
      split at hs
      · cases hs
        exact .inl ⟨h.live, h.completionRef, h.kref, h.retry, h.master, h.late, h.answered, h.log.noBug,
          h.log.completions⟩
      · cases hs
  | pushBack =>
      simp only [step] at hs
      split at hs
      · cases hs
        exact .inl ⟨h.live, h.completionRef, h.kref, h.retry, h.master, fun _ _ => rfl, h.answered, h.log.noBug,
          h.log.completions⟩
      · cases hs
  | putSubmitter =>
      simp only [step] at hs
      split at hs
      · rename_i hsub
        have hc := h.completionRef
        have hk := h.kref
        rw [hsub.1] at hc
        have hpos : 0 < r.completionRef := by simp at hc; omega
        have hretry : r.retry = false := by
          cases hr : r.retry
          · rfl
          · have := h.retry hr
            omega
        rw [decide_eq_true hpos, hretry] at hk
        obtain ⟨q, more, hq, hq'⟩ := @Owing.putCompletion { r with submitter := false } 1 0
          h.live ⟨h.log.noBug, h.log.completions⟩ (by simp at hc ⊢; omega) (by simpa using hk) hretry
          (h.master hpos) h.answered
        rw [show ((1 : Nat) : Int) = 1 from rfl] at hq
        rw [hq] at hs
        cases hs
        have hput := @Owing.put env _ _ hq'
        cases more with
        | true => exact hput
        | false => exact hput
      · cases hs
  | doRetry =>
      simp only [step] at hs
      split at hs
      · rename_i hr
        cases hs
        have hz := h.retry hr.1
        have howe : Owing { r with retry := false } 1 := by
          refine ⟨h.live, h.completionRef, ?_, fun hf => (by cases hf), h.master, h.late, h.answered, h.log.noBug,
            h.log.completions⟩
          have hk := h.kref
          rw [hr.1] at hk
          show r.kref = (decide (0 < r.completionRef)).toNat + r.rqState.krefs + (0 : Nat) + (1 : Nat)
          simp at hk ⊢
          omega
        exact howe.put
      · cases hs

theorem fine_run {acts : List (Env × Act)} (h : Fine r) (hassert : Meets step Asserted r acts)
    (hguard : Meets step Guarded r acts) (hrun : run step r acts = some r') : Fine r' := by
  induction acts generalizing r with
  | nil =>
      simp only [Lib.run, Option.some.injEq] at hrun
      exact hrun ▸ h
  | cons act acts ih =>
      obtain ⟨t, ht, hrest⟩ := run_cons hrun
      rcases h with h | ⟨hfreed, -, -⟩
      · exact ih (fine_step h hassert.1 hguard.1 ht) (hassert.2 t ht) (hguard.2 t ht) hrest
      · rw [step_freed hfreed] at ht
        cases ht

/-- Nothing of the request is pending or queued, other than a local bio that was aborted. -/
structure Idle (s : RqState) : Prop where
  localPart : s.localPending = true → s.localAborted = true
  netPending : s.netPending = false
  netQueued : s.netQueued = false

theorem idle_of_completionRefs {s : RqState} (h : s.completionRefs = 0) : Idle s := by
  simp only [RqState.completionRefs] at h
  refine ⟨fun hl => ?_, ?_, ?_⟩
  · cases ha : s.localAborted
    · rw [hl, ha] at h
      simp at h
    · rfl
  · cases hn : s.netPending
    · rfl
    · rw [hn] at h
      simp at h
  · cases hn : s.netQueued
    · rfl
    · rw [hn] at h
      simp at h

theorem Fine.idle (h : Fine r) (hm : r.masterBio = false) : Idle r.rqState := by
  rcases h with h | ⟨-, -, hrefs⟩
  · refine idle_of_completionRefs ?_
    have hc := h.completionRef
    by_contra hne
    have hpos : 0 < r.completionRef := by omega
    rw [h.master hpos] at hm
    cases hm
  · exact idle_of_completionRefs hrefs

/-- The references, the completion of the master bio and the absence of logic bugs. -/
structure Accounted (r : DrbdRequest) : Prop where
  balanced : r.freed = false → Balanced r
  once : r.log.countP Effect.isCompletion ≤ 1
  idle : r.masterBio = false → Idle r.rqState
  noBug : ∀ e ∈ r.log, e.isBug = false

theorem request_accounted (rw : Rw) (acts : List (Env × Act)) (r : DrbdRequest)
    (hassert : Meets step Asserted (drbdReqNew rw) acts) (hguard : Meets step Guarded (drbdReqNew rw) acts)
    (hrun : run step (drbdReqNew rw) acts = some r) : Accounted r := by
  have hfine := fine_run (.inl (inv_drbdReqNew rw)) hassert hguard hrun
  refine ⟨fun hlive => ?_, ?_, hfine.idle, hfine.log.noBug⟩
  · rcases hfine with h | ⟨hfreed, -, -⟩
    · exact h.balanced
    · rw [hlive] at hfreed
      cases hfreed
  · rw [hfine.log.completions]
    cases r.masterBio <;> decide

instance Asserts.instDecidable (r : DrbdRequest) : ∀ what, Decidable (Asserts r what)
  | .toBeSent | .toBeSubmitted | .dataReceived => inferInstanceAs (Decidable (_ = _))
  | .queueForNetRead => inferInstanceAs (Decidable (_ ∧ _ ∧ _))
  | .queueForNetWrite | .conflictResolved | .postponeWrite | .writeAckedByPeer | .writeAckedByPeerAndSis
  | .recvAckedByPeer => inferInstanceAs (Decidable (_ ∧ _))
  | .abortDiskIo => inferInstanceAs (Decidable (_ ∨ _))
  | .queueForSendOos | .queueAsDrbdBarrier | .sendCanceled | .sendFailed | .handedOverToNetwork
  | .oosHandedToNetwork | .connectionLostWhilePending | .readRetryRemoteCanceled | .negAcked | .barrierAcked
  | .completedOk | .readCompletedWithError | .readAheadCompletedWithError | .writeCompletedWithError
  | .discardCompletedNotsupp | .discardCompletedWithError | .resend | .failFrozenDiskIo | .restartFrozenDiskIo =>
      inferInstanceAs (Decidable True)

instance NotLate.instDecidable (env : Env) (r : DrbdRequest) (clear set : RqState) :
    Decidable (NotLate env r clear set) :=
  inferInstanceAs (Decidable (_ → _))

instance Orderly.instDecidable (env : Env) (r : DrbdRequest) (what : Event) : Decidable (Orderly env r what) :=
  have : Decidable (∀ m ∈ masks r what, NotLate env r m.1 m.2) :=
    match h : masks r what with
    | none => isTrue fun m hm => by cases hm
    | some m => decidable_of_iff (NotLate env r m.1 m.2) (by simp)
  match what with
  | .restartFrozenDiskIo => inferInstanceAs (Decidable (_ ∧ (_ → _)))
  | .queueForNetWrite | .recvAckedByPeer | .writeAckedByPeer | .writeAckedByPeerAndSis =>
      inferInstanceAs (Decidable (_ ∧ (_ ∨ _)))
  | .negAcked | .handedOverToNetwork => inferInstanceAs (Decidable (_ ∧ (_ ∨ _ ∨ (_ ∧ _))))
  | .toBeSent | .toBeSubmitted | .queueForNetRead | .queueForSendOos | .queueAsDrbdBarrier | .sendCanceled
  | .sendFailed | .oosHandedToNetwork | .connectionLostWhilePending | .readRetryRemoteCanceled
  | .conflictResolved | .postponeWrite | .barrierAcked | .dataReceived | .completedOk | .readCompletedWithError
  | .readAheadCompletedWithError | .writeCompletedWithError | .discardCompletedNotsupp
  | .discardCompletedWithError | .abortDiskIo | .resend | .failFrozenDiskIo =>
      inferInstanceAs (Decidable (_ ∧ True))

instance Asserted.instDecidable (r : DrbdRequest) : ∀ act, Decidable (Asserted r act)
  | (_, .event what) => Asserts.instDecidable r what
  | (_, .inActLog) | (_, .addToTransferLog) | (_, .pushBack) | (_, .putSubmitter) | (_, .doRetry) =>
      inferInstanceAs (Decidable True)

instance Guarded.instDecidable (r : DrbdRequest) : ∀ act, Decidable (Guarded r act)
  | (env, .event what) => Orderly.instDecidable env r what
  | (_, .inActLog) | (_, .addToTransferLog) | (_, .pushBack) | (_, .putSubmitter) | (_, .doRetry) =>
      inferInstanceAs (Decidable True)

/-- Running with a good disk under protocol C. -/
def normal : Env := ⟨false, .c, .upToDate⟩

/-- The same acts, all met in `normal`. -/
def normally (acts : List Act) : List (Env × Act) :=
  acts.map (normal, ·)

/-- A mirrored write, up to its barrier ack. -/
def mirroredWrite : List (Env × Act) :=
  normally [.inActLog, .addToTransferLog, .event .toBeSent, .event .queueForNetWrite, .event .toBeSubmitted,
    .putSubmitter, .event .handedOverToNetwork, .event .writeAckedByPeer, .event .completedOk]

theorem request_accounted_mirrored :
    ∃ r, run step (drbdReqNew .write) mirroredWrite = some r ∧ r.kref = 1 ∧ Accounted r := by
  have hsome : (run step (drbdReqNew .write) mirroredWrite).map DrbdRequest.kref = some 1 := by decide
  obtain ⟨r, hr, hk⟩ := Option.map_eq_some_iff.1 hsome
  exact ⟨r, hr, hk, request_accounted .write mirroredWrite r (by decide) (by decide) hr⟩

-- a remote read that the peer answers negatively is destroyed while its network part is not done
example : (run step (drbdReqNew .read) (normally [.addToTransferLog, .event .toBeSent, .event .queueForNetRead,
    .putSubmitter, .event .handedOverToNetwork, .event .negAcked, .doRetry])).map (fun r => r.log.contains .bugDestroy)
    = some true := by decide

-- an aborted write whose bio comes back while the device is suspended is destroyed with a completion reference
example : (run step (drbdReqNew .write) (normally [.addToTransferLog, .event .toBeSubmitted, .putSubmitter,
    .event .abortDiskIo] ++ [({ normal with suspended := true }, .event .writeCompletedWithError)])).map
    (fun r => r.log.contains .bugDestroy) = some true := by decide

-- a write that was answered negatively, and has completed, is sent again
example : (run step (drbdReqNew .write) (normally [.addToTransferLog, .event .toBeSent, .event .queueForNetWrite,
    .putSubmitter, .event .handedOverToNetwork, .event .negAcked, .event .resend])).map
    (fun r => (r.masterBio, r.completionRef, r.kref)) = some (false, 2, 1) := by decide

/-- The equations without the reference of a request on the retry list, and completion with no local part
pending at all. -/
structure AsStated (r : DrbdRequest) : Prop where
  completionRef : r.freed = false → r.completionRef = r.submitter.toNat + r.rqState.completionRefs
  kref : r.freed = false → r.kref = (decide (0 < r.completionRef)).toNat + r.rqState.krefs
  once : r.log.countP Effect.isCompletion ≤ 1
  idle : r.masterBio = false →
    r.rqState.localPending = false ∧ r.rqState.netPending = false ∧ r.rqState.netQueued = false
  noBug : ∀ e ∈ r.log, e.isBug = false

/-- A local read fails and waits for its retry. -/
def failedRead : List (Env × Act) :=
  normally [.addToTransferLog, .event .toBeSubmitted, .putSubmitter, .event .readCompletedWithError]

theorem retried_read_holds_kref :
    ¬ ∀ (rw : Rw) (acts : List (Env × Act)) (r : DrbdRequest), Meets step Asserted (drbdReqNew rw) acts →
      run step (drbdReqNew rw) acts = some r → AsStated r := by
  intro hall
  have hsome : (run step (drbdReqNew .read) failedRead).map
      (fun r => (r.freed, r.completionRef, r.kref, r.rqState.krefs)) = some (false, 0, 1, 0) := by decide
  obtain ⟨r, hr, hval⟩ := Option.map_eq_some_iff.1 hsome
  simp only [Prod.mk.injEq] at hval
  have hk := (hall .read failedRead r (by decide) hr).kref hval.1
  rw [hval.2.1, hval.2.2.1, hval.2.2.2] at hk
  cases hk

end Drbd.Request
