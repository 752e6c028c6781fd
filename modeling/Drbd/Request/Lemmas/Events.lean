import Drbd.Request.Lemmas.Invariant

/-!
# What each event does to the balance
-/

namespace Drbd.Request

variable {env : Env} {r r' : DrbdRequest} {s clear set : RqState} {what : Event}

/-! ## The bits after a change -/

theorem rqState_krefSub (env : Env) (r : DrbdRequest) (put : Int) : (krefSub env r put).rqState = r.rqState := by
  unfold krefSub drbdReqDestroy
  dsimp only
  split
  · split <;> rfl
  · rfl

theorem rqState_drbdReqComplete (r : DrbdRequest) :
    ∃ p, (drbdReqComplete r).rqState = { r.rqState with postponed := p } := by
  unfold drbdReqComplete
  dsimp only
  split
  · exact ⟨_, rfl⟩
  · split
    · exact ⟨_, rfl⟩
    · split
      · exact ⟨true, rfl⟩
      · split <;> exact ⟨_, rfl⟩

theorem rqState_putRefs (env : Env) (r : DrbdRequest) (cPut kPut : Nat) :
    ∃ p, (putRefs env r cPut kPut).rqState = { r.rqState with postponed := p } := by
  have hput : ∃ p, (drbdReqPutCompletionRef r cPut).1.rqState = { r.rqState with postponed := p } := by
    unfold drbdReqPutCompletionRef
    dsimp only
    split
    · exact ⟨_, rfl⟩
    · have := rqState_drbdReqComplete { r with completionRef := r.completionRef - cPut }
      split <;> exact this
  unfold putRefs
  split
  · split
    · exact ⟨_, rfl⟩
    · exact ⟨_, rqState_krefSub env r kPut⟩
  · dsimp only
    split
    · exact hput
    · rw [rqState_krefSub]
      exact hput

/-- Up to being postponed, the bits are those that the masks give. -/
theorem rqState_modRqState (env : Env) (r : DrbdRequest) (clear set : RqState) :
    ∃ p, (modRqState env r clear set).rqState
      = { r.rqState.apply clear (effectiveSet env r.rqState clear set) with postponed := p } := by
  have hput : ∀ (r₁ : DrbdRequest) (new : RqState) (cPut kPut : Nat), r₁.rqState = new →
      ∃ p, (putRefs env r₁ cPut kPut).rqState = { new with postponed := p } := by
    intro r₁ new cPut kPut hnew
    rw [← hnew]
    exact rqState_putRefs env r₁ cPut kPut
  unfold modRqState
  dsimp only
  split
  · rename_i hsame
    exact ⟨r.rqState.postponed, by rw [hsame]⟩
  · refine hput _ _ _ _ ?_
    rw [apply_ite DrbdRequest.rqState]
    exact ite_self _

/-! ## Suspension -/

theorem Fits.effective (h : Fits s clear set) : Fits s clear (effectiveSet env s clear set) := by
  unfold effectiveSet
  split
  · rename_i hsusp
    refine ⟨h.keeps, h.localPending, h.netPending, h.netQueued, fun hc => ?_, h.abort, h.submit, h.barrier⟩
    simp [hc] at hsusp
  · exact h

theorem answered_effective (h : (s.apply clear set).Answered) :
    (s.apply clear (effectiveSet env s clear set)).Answered := by
  unfold effectiveSet
  split <;> exact h

/-! ## Before `mod_rq_state` -/

theorem bookkeeping_eq (r : DrbdRequest) (what : Event) :
    (bookkeeping r what).completionRef = r.completionRef ∧ (bookkeeping r what).kref = r.kref ∧
      (bookkeeping r what).submitter = r.submitter ∧ (bookkeeping r what).retry = r.retry ∧
      (bookkeeping r what).masterBio = r.masterBio ∧ (bookkeeping r what).freed = r.freed ∧
      (LogOk r → LogOk (bookkeeping r what)) := by
  cases what with
  | readCompletedWithError => exact ⟨rfl, rfl, rfl, rfl, rfl, rfl, fun h => h.effect rfl rfl⟩
  | restartFrozenDiskIo =>
      simp only [bookkeeping]
      split <;> exact ⟨rfl, rfl, rfl, rfl, rfl, rfl, fun h => ⟨h.noBug, h.completions⟩⟩
  | _ => exact ⟨rfl, rfl, rfl, rfl, rfl, rfl, fun h => ⟨h.noBug, h.completions⟩⟩

/-- What an event sets on its own leaves the balance alone. -/
theorem inv_direct (h : Inv r) (hassert : Asserts r what) :
    Inv { bookkeeping r what with rqState := directBits env r.rqState what } := by
  obtain ⟨hc, hk, hsub, hretry, hm, hfreed, hlog⟩ := bookkeeping_eq r what
  have hrefs : (directBits env r.rqState what).completionRefs = r.rqState.completionRefs := by
    cases what <;> rfl
  have hkrefs : (directBits env r.rqState what).krefs = r.rqState.krefs := by
    cases what <;> rfl
  have hpost : r.rqState.postponed = true → (directBits env r.rqState what).postponed = true := by
    cases what <;> intro hp <;> first | exact hp | rfl
  have ha : (directBits env r.rqState what).Answered := by
    cases what with
    | writeAckedByPeerAndSis => exact fun _ => .inr (.inr hassert.2)
    | _ => exact h.answered
  have hlog := hlog h.log
  refine ⟨hfreed.trans h.live, ?_, ?_, fun hr => ?_, fun hlt => ?_, fun hz hm' => ?_, ha,
    ⟨hlog.noBug, hlog.completions⟩⟩
  · show (bookkeeping r what).completionRef = (bookkeeping r what).submitter.toNat + _
    rw [hc, hsub, hrefs]
    exact h.completionRef
  · show (bookkeeping r what).kref = (decide (0 < (bookkeeping r what).completionRef)).toNat + _
      + (bookkeeping r what).retry.toNat + _
    rw [hc, hk, hretry, hkrefs]
    exact h.kref
  · exact hc.trans (h.retry (hretry.symm.trans hr))
  · exact hm.trans (h.master (by rw [← hc]; exact hlt))
  · exact hpost (h.late (by rw [← hc]; exact hz) (hm.symm.trans hm'))

/-! ## Each event -/

/-- What `__req_mod` does: one change, after the pretended ack of a protocol A write. -/
theorem reqMod_cases (hs : reqMod env r what = some r') :
    ∃ q, q.freed = false ∧ r' = lastChange env q what ∧
      (q = r ∨ (what = .handedOverToNetwork ∧ pretendsAck r = true ∧
        q = modRqState env r { noBits with netPending := true } { noBits with netOk := true })) := by
  unfold reqMod at hs
  split at hs
  · cases hs
  split at hs
  · cases hs
  dsimp only at hs
  by_cases hpret : what = .handedOverToNetwork ∧ pretendsAck r = true
  · rw [if_pos hpret] at hs
    generalize modRqState env r { noBits with netPending := true } { noBits with netOk := true } = q at hs ⊢
    by_cases hf : q.freed = true
    · rw [if_pos hf] at hs
      cases hs
    · rw [if_neg hf] at hs
      cases hs
      exact ⟨q, by simpa using hf, rfl, .inr ⟨hpret.1, hpret.2, rfl⟩⟩
  · rw [if_neg hpret] at hs
    by_cases hf : r.freed = true
    · rw [if_pos hf] at hs
      cases hs
    · rw [if_neg hf] at hs
      cases hs
      exact ⟨r, by simpa using hf, rfl, .inl rfl⟩

/-- The steps that the code does not guard: a reference to a request that has completed, a restart of an
aborted bio, a write queued after its network part is done, and an answer without one to come. -/
def Orderly (env : Env) (r : DrbdRequest) (what : Event) : Prop :=
  (∀ m ∈ masks r what, NotLate env r m.1 m.2) ∧
  match what with
  | .restartFrozenDiskIo => r.rqState.localCompleted = true → r.rqState.localAborted = false
  | .queueForNetWrite => r.rqState.expBarrAck = true ∨ r.rqState.netDone = false
  | .negAcked =>
      r.rqState.expBarrAck = true ∨ r.rqState.netDone = true ∨ (r.rqState.netSent = false ∧ r.rqState.netSis = false)
  | .handedOverToNetwork =>
      r.rqState.expBarrAck = true ∨ r.rqState.netDone = true ∨ (r.rqState.netPending = true ∧ pretendsAck r = false)
  | .recvAckedByPeer | .writeAckedByPeer | .writeAckedByPeerAndSis =>
      r.rqState.expBarrAck = true ∨ r.rqState.netDone = true
  | _ => True

theorem notLate_direct (hl : NotLate env r clear set) :
    NotLate env { bookkeeping r what with rqState := directBits env r.rqState what } clear set := by
  intro hz
  have hz : (bookkeeping r what).completionRef = 0 := hz
  rw [(bookkeeping_eq r what).1] at hz
  have hget := hl hz
  cases what <;> exact hget

theorem fits_direct (h : Fits r.rqState clear set) : Fits (directBits env r.rqState what) clear set := by
  cases what <;> exact ⟨h.keeps, h.localPending, h.netPending, h.netQueued, h.completionSusp, h.abort, h.submit,
    h.barrier⟩

/-- Masks that neither abort, submit nor wait for a barrier fit any state. -/
theorem fits_plain (hkeeps : clear.localAborted = false ∧ clear.expBarrAck = false ∧ clear.netDone = false
      ∧ clear.postponed = false ∧ set.postponed = false)
    (hlocal : clear.localPending = true → set.localPending = false)
    (hpending : clear.netPending = true → set.netPending = false)
    (hqueued : clear.netQueued = true → set.netQueued = false)
    (hsusp : clear.completionSusp = true → set.completionSusp = false)
    (hset : set.localAborted = false ∧ set.localPending = false ∧ set.expBarrAck = false) : Fits s clear set := by
  obtain ⟨h₁, h₂, h₃⟩ := hset
  exact ⟨hkeeps, hlocal, hpending, hqueued, hsusp, fun h => (by rw [h₁] at h; cases h),
    fun h => (by rw [h₂] at h; cases h), fun h => (by rw [h₃] at h; cases h)⟩

theorem masks_fits (hassert : Asserts r what) (horder : Orderly env r what) {m : RqState × RqState}
    (hm : masks r what = some m) : Fits r.rqState m.1 m.2 := by
  have hbarrier : ∀ m, masks.barrierMasks r = some m → Fits r.rqState m.1 m.2 := by
    intro m hm
    unfold masks.barrierMasks at hm
    split at hm
    · cases hm
    · cases hm
      apply fits_plain <;> simp [noBits]
  cases what with
  | toBeSubmitted =>
      cases hm
      have habort : r.rqState.localAborted = false := by
        simp only [Asserts, RqState.localMask, Bool.or_eq_false_iff] at hassert
        exact hassert.2
      refine ⟨?_, ?_, ?_, ?_, ?_, ?_, fun _ => .inr ⟨habort, rfl⟩, ?_⟩ <;> simp [noBits]
  | abortDiskIo =>
      cases hm
      refine ⟨?_, ?_, ?_, ?_, ?_, fun _ => hassert.imp_right fun h => ⟨h, rfl⟩, ?_, ?_⟩ <;> simp [noBits]
  | queueForNetWrite =>
      cases hm
      refine ⟨?_, ?_, ?_, ?_, ?_, ?_, ?_, fun _ => horder.2.imp_right fun h => ⟨h, rfl⟩⟩ <;> simp [noBits]
  | restartFrozenDiskIo =>
      simp only [masks] at hm
      split at hm
      · rename_i hcompleted
        cases hm
        refine ⟨?_, ?_, ?_, ?_, ?_, ?_, fun _ => .inr ⟨horder.2 hcompleted, rfl⟩, ?_⟩ <;> simp [noBits]
      · cases hm
  | failFrozenDiskIo =>
      simp only [masks] at hm
      split at hm
      · cases hm
        apply fits_plain <;> simp [noBits]
      · cases hm
  | resend =>
      simp only [masks] at hm
      split at hm
      · cases hm
        apply fits_plain <;> simp [noBits]
      · split at hm
        · cases hm
          apply fits_plain <;> simp [noBits]
        · exact hbarrier m hm
  | barrierAcked => exact hbarrier m hm
  | postponeWrite => cases hm
  | _ =>
      cases hm
      apply fits_plain <;> simp [noBits]

/-- An event leaves no answer without one to come. -/
theorem masks_answered (ha : r.rqState.Answered) (hassert : Asserts r what) (horder : Orderly env r what)
    {m : RqState × RqState} (hm : masks r what = some m) :
    ((directBits env r.rqState what).apply m.1 m.2).Answered := by
  -- the network bits are those of the state, or the network part is done, or still pending
  have hsame : ∀ {new : RqState}, (new.netSent = true → r.rqState.netSent = true) →
      (new.netOk = true → r.rqState.netOk = true) → (new.netSis = true → r.rqState.netSis = true) →
      (r.rqState.expBarrAck = true → new.expBarrAck = true) → (r.rqState.netDone = true → new.netDone = true) →
      (r.rqState.netPending = true → new.netPending = true) → new.Answered := by
    intro new h₁ h₂ h₃ h₄ h₅ h₆ hany
    exact (ha (hany.imp h₁ (Or.imp h₂ h₃))).imp h₄ (Or.imp h₅ h₆)
  have hbarrier : ∀ m, masks.barrierMasks r = some m → (r.rqState.apply m.1 m.2).Answered := by
    intro m hm
    unfold masks.barrierMasks at hm
    split at hm
    · cases hm
    · cases hm
      intro hany
      refine .inr (.inl ?_)
      simp only [RqState.apply, noBits, Bool.not_false, Bool.and_true, Bool.or_false, RqState.netMask] at hany ⊢
      rcases hany with h | h | h <;> simp [h]
  cases what with
  | recvAckedByPeer | writeAckedByPeer | writeAckedByPeerAndSis =>
      cases hm
      intro _
      rcases horder.2 with h | h
      · exact .inl (by simp [RqState.apply, directBits, noBits, h])
      · exact .inr (.inl (by simp [RqState.apply, directBits, noBits, h]))
  | negAcked =>
      cases hm
      intro hany
      rcases horder.2 with h | h | ⟨h, h'⟩
      · exact .inl (by simp [RqState.apply, directBits, noBits, h])
      · exact .inr (.inl (by simp [RqState.apply, directBits, noBits, h]))
      · simp [RqState.apply, directBits, noBits, h, h'] at hany
  | handedOverToNetwork =>
      cases hm
      intro _
      rcases horder.2 with h | h | ⟨h, -⟩
      · exact .inl (by simp [RqState.apply, directBits, noBits, h])
      · exact .inr (.inl (by simp [RqState.apply, directBits, noBits, h]))
      · exact .inr (.inr (by simp [RqState.apply, directBits, noBits, h]))
  | resend =>
      simp only [masks] at hm
      split at hm
      · cases hm
        apply hsame <;> simp +contextual [RqState.apply, directBits, noBits]
      · split at hm
        · cases hm
          exact fun _ => .inr (.inr (by simp [RqState.apply]))
        · exact hbarrier m hm
  | barrierAcked => exact hbarrier m hm
  | failFrozenDiskIo | restartFrozenDiskIo =>
      simp only [masks] at hm
      split at hm
      · cases hm
        apply hsame <;> simp +contextual [RqState.apply, directBits, noBits]
      · cases hm
  | postponeWrite => cases hm
  | toBeSent => exact fun _ => .inr (.inr (by cases hm; simp [RqState.apply]))
  | oosHandedToNetwork | connectionLostWhilePending | conflictResolved | dataReceived | queueAsDrbdBarrier =>
      exact fun _ => .inr (.inl (by cases hm; simp [RqState.apply]))
  | _ =>
      cases hm
      apply hsame <;> simp +contextual [RqState.apply, directBits, noBits]

theorem step_freed {act : Env × Act} (h : r.freed = true) : step r act = none := by
  obtain ⟨env, act⟩ := act
  cases act <;> simp [step, reqMod, h]

end Drbd.Request
