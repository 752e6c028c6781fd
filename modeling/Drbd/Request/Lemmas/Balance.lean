import Drbd.Request.Defs

/-!
# The balance of a request

Each reference stands for a bit of the state; `mod_rq_state` takes and puts exactly what the change of
the bits asks for, as long as its masks fit.
-/

namespace Drbd.Request

variable {env : Env} {r r' : DrbdRequest} {s clear set : RqState}

/-- The completion references that the bits stand for. -/
def RqState.completionRefs (s : RqState) : Nat :=
  (s.localPending && !s.localAborted).toNat + s.netPending.toNat + s.netQueued.toNat + s.completionSusp.toNat

/-- The references to the request itself that the bits stand for. -/
def RqState.krefs (s : RqState) : Nat :=
  (s.expBarrAck && !s.netDone).toNat + (s.localAborted && s.localPending).toNat

/-- The two equations. -/
structure Balanced (r : DrbdRequest) : Prop where
  completionRef : r.completionRef = r.submitter.toNat + r.rqState.completionRefs
  kref : r.kref = (decide (0 < r.completionRef)).toNat + r.rqState.krefs + r.retry.toNat

/-- The masks do not set what they clear, and no bit is set in a state that cannot pay for it. -/
structure Fits (s clear set : RqState) : Prop where
  keeps : clear.localAborted = false ∧ clear.expBarrAck = false ∧ clear.netDone = false
    ∧ clear.postponed = false ∧ set.postponed = false
  localPending : clear.localPending = true → set.localPending = false
  netPending : clear.netPending = true → set.netPending = false
  netQueued : clear.netQueued = true → set.netQueued = false
  completionSusp : clear.completionSusp = true → set.completionSusp = false
  abort : set.localAborted = true → s.localAborted = true ∨ (s.localPending = true ∧ clear.localPending = false)
  submit : set.localPending = true → s.localPending = true ∨ (s.localAborted = false ∧ set.localAborted = false)
  barrier : set.expBarrAck = true → s.expBarrAck = true ∨ (s.netDone = false ∧ set.netDone = false)

theorem toNat_apply {s c t : Bool} (h : c = true → t = false) :
    (s && !c || t).toNat + (s && c).toNat = s.toNat + (!s && t).toNat := by
  cases s <;> cases c <;> cases t <;> simp_all

/-- What is taken and put is what the bits gain and lose. -/
theorem Fits.completionRefs (h : Fits s clear set) :
    (s.apply clear set).completionRefs + completionPut s clear set (s.apply clear set)
      = s.completionRefs + completionGet s set := by
  obtain ⟨hab, -, -, -, -⟩ := h.keeps
  have hnp := toNat_apply (s := s.netPending) h.netPending
  have hnq := toNat_apply (s := s.netQueued) h.netQueued
  have hcs := toNat_apply (s := s.completionSusp) h.completionSusp
  have hlocal : ((s.localPending && !clear.localPending || set.localPending)
        && !(s.localAborted && !clear.localAborted || set.localAborted)).toNat
      + (!s.localAborted && set.localAborted).toNat
      + (s.localPending && clear.localPending && !(s.localAborted && !clear.localAborted || set.localAborted)).toNat
      = (s.localPending && !s.localAborted).toNat + (!s.localPending && set.localPending).toNat := by
    have h₁ := h.localPending
    have h₂ := h.abort
    have h₃ := h.submit
    rw [hab]
    generalize s.localPending = a, s.localAborted = b, clear.localPending = c, set.localPending = d,
      set.localAborted = e at *
    revert a b c d e
    decide
  simp only [RqState.completionRefs, RqState.apply, completionPut, completionGet] at *
  omega

theorem Fits.krefs (h : Fits s clear set) :
    (s.apply clear set).krefs + krefPut s clear set (s.apply clear set) = s.krefs + krefGet s set := by
  obtain ⟨hab, hbarr, hdone, -, -⟩ := h.keeps
  have hlocal : ((s.localAborted && !clear.localAborted || set.localAborted)
        && (s.localPending && !clear.localPending || set.localPending)).toNat
      + (s.localPending && clear.localPending && (s.localAborted && !clear.localAborted || set.localAborted)).toNat
      = (s.localAborted && s.localPending).toNat + (!s.localAborted && set.localAborted).toNat := by
    have h₁ := h.localPending
    have h₂ := h.abort
    have h₃ := h.submit
    rw [hab]
    generalize s.localPending = a, s.localAborted = b, clear.localPending = c, set.localPending = d,
      set.localAborted = e at *
    revert a b c d e
    decide
  have hbarrier : ((s.expBarrAck && !clear.expBarrAck || set.expBarrAck)
        && !(s.netDone && !clear.netDone || set.netDone)).toNat + (s.expBarrAck && !s.netDone && set.netDone).toNat
      = (s.expBarrAck && !s.netDone).toNat + (!s.expBarrAck && set.expBarrAck).toNat := by
    have h₁ := h.barrier
    rw [hbarr, hdone]
    generalize s.expBarrAck = a, s.netDone = b, set.expBarrAck = c, set.netDone = d at *
    revert a b c d
    decide
  simp only [RqState.krefs, RqState.apply, krefPut, krefGet] at *
  omega

end Drbd.Request
