import Drbd.State.Defs

/-!
# What a state change carries along
-/

namespace Drbd.State

variable {env : Env} {os ns : DrbdState}

theorem Conn.lt_irrefl (c : Conn) : ¬ c < c := Nat.lt_irrefl _

theorem Conn.not_le {a b : Conn} : ¬ a ≤ b ↔ b < a := Nat.not_le

theorem Conn.not_lt {a b : Conn} : ¬ a < b ↔ b ≤ a := Nat.not_lt

/-! ## The role is never changed -/

@[simp] theorem implyPeer_role : (implyPeer ns).role = ns.role := by unfold implyPeer; split <;> rfl
@[simp] theorem clearAftrIsp_role : (clearAftrIsp ns).role = ns.role := by
  unfold clearAftrIsp; split <;> rfl
@[simp] theorem abortResync_role : (abortResync ns).role = ns.role := by unfold abortResync; split <;> rfl
@[simp] theorem lostNegotiating_role : (lostNegotiating env os ns).role = ns.role := by
  unfold lostNegotiating; split
  · split <;> rfl
  · rfl
@[simp] theorem settleDisks_role : (settleDisks ns).role = ns.role := by unfold settleDisks; split <;> rfl

@[simp] theorem sanitizeState_role : (sanitizeState env os ns).role = ns.role := by
  simp [sanitizeState, pauseResync, suspendIo, limitDisks]

/-! ## Without a connection -/

theorem diskLimits_of_lt {c : Conn} (h : c < .connected) :
    diskLimits c = ((.diskless, .upToDate), (.inconsistent, .unknown)) := by
  revert h
  cases c <;> decide

theorem pauseConn_of_lt {c : Conn} (h : c < .connected) (paused : Bool) : pauseConn paused c = c := by
  revert h
  cases c <;> cases paused <;> decide

/-- Losing the connection leaves an up-to-date disk alone and makes the peer's disk unknown. -/
theorem sanitizeState_disconnected (hconn : ns.conn < .connected) (hdisk : ns.disk = .upToDate) :
    (sanitizeState env os ns).conn = ns.conn ∧ (sanitizeState env os ns).disk = .upToDate ∧
      (ns.pdsk = .upToDate → (sanitizeState env os ns).pdsk = .unknown) := by
  have hnot : ¬ ns.conn > .connected := Nat.lt_asymm hconn
  have hnle : ¬ Conn.connected ≤ ns.conn := Nat.not_le.mpr hconn
  have h1 : abortResync (clearAftrIsp (implyPeer ns)) = implyPeer ns := by
    simp [implyPeer, clearAftrIsp, abortResync, hconn, hnot, hdisk]
  have h2 : settleDisks (lostNegotiating env os (implyPeer ns)) = implyPeer ns := by
    simp [implyPeer, lostNegotiating, settleDisks, hconn, hnle, hdisk]
  unfold sanitizeState
  simp only [h1, h2]
  refine ⟨?_, ?_, fun hp => ?_⟩
  · simp [pauseResync, suspendIo, limitDisks, implyPeer, hconn, pauseConn_of_lt hconn]
  · simp [pauseResync, suspendIo, limitDisks, implyPeer, hconn, diskLimits_of_lt hconn, hdisk]
    decide
  · simp [pauseResync, suspendIo, limitDisks, implyPeer, hconn, diskLimits_of_lt hconn, hp]
    decide

/-! ## Plainly connected -/

theorem sanitizeState_connected (hconn : ns.conn = .connected) (hdisk : ns.disk = .upToDate)
    (hpdsk : ns.pdsk = .upToDate ∨ ns.pdsk = .outdated) :
    (sanitizeState env os ns).conn = .connected ∧ (sanitizeState env os ns).disk = .upToDate ∧
      (sanitizeState env os ns).pdsk = .upToDate := by
  have hlt : ¬ Conn.connected < Conn.connected := by decide
  have h1 : abortResync (clearAftrIsp (implyPeer ns)) = ns := by
    simp [implyPeer, clearAftrIsp, abortResync, hconn, hlt]
  have h2 : settleDisks (lostNegotiating env os ns) = { ns with pdsk := .upToDate } := by
    have hle : Conn.connected ≤ Conn.connected ∧ Conn.connected < Conn.ahead := by decide
    rcases hpdsk with hp | hp <;> simp [lostNegotiating, settleDisks, hconn, hlt, hle, hdisk, hp]
  unfold sanitizeState
  simp only [h1, h2]
  refine ⟨?_, ?_, ?_⟩
  · simp [pauseResync, suspendIo, limitDisks, hconn, pauseConn]
  · simp [pauseResync, suspendIo, limitDisks, hconn, diskLimits, hdisk]
    decide
  · simp [pauseResync, suspendIo, limitDisks, hconn, diskLimits]
    decide

/-! ## The outcome of a state change -/

/-- A change that goes through, with everything it implies. -/
theorem drbdSetState_ok {hard : Bool} (h : (drbdSetState env hard os ns).1.ok) :
    (drbdSetState env hard os ns).2 = sanitizeState env os ns ∧
      (sanitizeState env os ns = os ∨ (checkChange env hard os (sanitizeState env os ns)).ok) := by
  unfold drbdSetState at h ⊢
  dsimp only at h ⊢
  by_cases heq : sanitizeState env os ns = os
  · rw [if_pos heq]
    exact ⟨heq.symm, .inl heq⟩
  · simp only [if_neg heq] at h ⊢
    rw [if_pos h]
    exact ⟨rfl, .inr h⟩

theorem drbdSetState_ok_iff {hard : Bool} : (drbdSetState env hard os ns).1.ok ↔
    sanitizeState env os ns = os ∨ (checkChange env hard os (sanitizeState env os ns)).ok := by
  refine ⟨fun h => (drbdSetState_ok h).2, fun h => ?_⟩
  unfold drbdSetState
  dsimp only
  by_cases heq : sanitizeState env os ns = os
  · rw [if_pos heq]
    rfl
  · simp only [if_neg heq]
    exact h.resolve_left heq

theorem drbdSetState_not_ok {hard : Bool} (h : ¬ (drbdSetState env hard os ns).1.ok) :
    (drbdSetState env hard os ns).2 = os := by
  unfold drbdSetState at h ⊢
  dsimp only at h ⊢
  by_cases heq : sanitizeState env os ns = os
  · rw [if_pos heq]
  · simp only [if_neg heq] at h ⊢
    rw [if_neg h]

end Drbd.State
