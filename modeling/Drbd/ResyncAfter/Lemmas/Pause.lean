import Drbd.ResyncAfter.Lemmas.Graph
import Drbd.State.Lemmas.Settled

/-!
# What pausing and resuming a resync changes
-/

namespace Drbd.ResyncAfter

open State

variable {env : Env} {s s' : DrbdState} {b : Bool}

/-- The state after `aftr_isp` was set to `b` on a configured device. -/
structure AftrSet (b : Bool) (s s' : DrbdState) : Prop where
  aftrIsp : s'.aftrIsp = b
  userIsp : s'.userIsp = s.userIsp
  peerIsp : s'.peerIsp = true → s.peerIsp = true
  diskless : s.disk = .diskless → s'.disk = .diskless
  conn : s'.conn = pauseConn s'.paused s.conn ∨ (s.conn > .connected ∧ s'.conn = .connected)

theorem lostNegotiating_userIsp {os ns : DrbdState} : (lostNegotiating env os ns).userIsp = ns.userIsp := by
  unfold lostNegotiating
  repeat' split
  all_goals rfl

theorem lostNegotiating_peerIsp {os ns : DrbdState} : (lostNegotiating env os ns).peerIsp = ns.peerIsp := by
  unfold lostNegotiating
  repeat' split
  all_goals rfl

theorem aftrSet_disconnected (hu : ¬ Unconfigured s) (h : s.conn < .connected) :
    AftrSet b s (sanitizeState env s { s with aftrIsp := b }) := by
  obtain ⟨_, _, heq⟩ := sanitizeState_eq env s { s with aftrIsp := b }
  rw [heq, corrected_disconnected (show (DrbdState.conn { s with aftrIsp := b }) < .connected from h)]
  have himply : implyPeer { s with aftrIsp := b } =
      { s with
        aftrIsp := b
        peerIsp := false
        peer := .unknown
        pdsk := if s.pdsk > .unknown ∨ s.pdsk < .inconsistent then .unknown else s.pdsk } := if_pos h
  have hclear : clearAftrIsp (implyPeer { s with aftrIsp := b }) = implyPeer { s with aftrIsp := b } := by
    rw [himply]
    exact if_neg (fun hc => hu ⟨hc.1, hc.2.1⟩)
  rw [hclear, himply]
  constructor
  · exact lostNegotiating_aftrIsp
  · exact lostNegotiating_userIsp
  · intro hp
    rw [lostNegotiating_peerIsp] at hp
    exact absurd hp Bool.false_ne_true
  · intro hd
    have hne : ¬ (s.conn < Conn.connected ∧ s.disk = Disk.negotiating ∧ Disk.negotiating ≤ s.disk) := by
      rw [hd]
      exact fun hc => absurd hc.2.1 (by decide)
    simp only [lostNegotiating, if_neg hne]
    rw [limitedDisk_of_lt h, hd]
  · refine .inl ?_
    simp only [lostNegotiating_conn]
    rfl

theorem aftrSet_connected (h : .connected ≤ s.conn) :
    AftrSet b s (sanitizeState env s { s with aftrIsp := b }) := by
  obtain ⟨_, _, heq⟩ := sanitizeState_eq env s { s with aftrIsp := b }
  rw [heq, corrected_connected (show .connected ≤ (DrbdState.conn { s with aftrIsp := b }) from h)]
  unfold abortResync
  dsimp only
  split
  · rename_i hab
    refine ⟨rfl, rfl, id, fun hd => ?_, .inr ⟨hab.1, ?_⟩⟩
    · dsimp only
      rw [hd]
      decide
    · dsimp only
      generalize DrbdState.paused _ = p
      cases p <;> rfl
  · rename_i hab
    refine ⟨rfl, rfl, id, fun hd => ?_, .inl rfl⟩
    -- with a resync and no disk the resync would have been aborted
    have hc : s.conn = .connected := by
      by_contra hne
      refine hab ⟨Nat.lt_of_le_of_ne h (fun he => hne ?_), .inl (by rw [hd]; decide)⟩
      revert he
      cases s.conn <;> decide
    dsimp only
    rw [hd, hc]
    decide

theorem aftrSet_sanitizeState (hu : ¬ Unconfigured s) : AftrSet b s (sanitizeState env s { s with aftrIsp := b }) := by
  by_cases h : s.conn < .connected
  · exact aftrSet_disconnected hu h
  · exact aftrSet_connected (Conn.not_lt.mp h)

/-- Such a change goes through. -/
theorem AftrSet.isValidTransition (h : AftrSet b s s') : State.isValidTransition s s' =
    if s.conn = s'.conn then .nothingToDo else .success := by
  unfold State.isValidTransition
  have hfail : ¬ (s'.disk = .failed ∧ s.disk = .diskless) := by
    intro hc
    have := h.diskless hc.2
    rw [hc.1] at this
    exact absurd this (by decide)
  rw [if_neg hfail]
  obtain hc | ⟨hgt, hc⟩ := h.conn
  · rw [hc]
    generalize s'.paused = p
    cases p <;> cases s.conn <;> decide
  · rw [hc]
    revert hgt
    cases s.conn <;> decide

theorem drbdSetState_aftrIsp (hu : ¬ Unconfigured s) :
    (drbdSetState env true s { s with aftrIsp := b }).2 = sanitizeState env s { s with aftrIsp := b } ∧
      ((drbdSetState env true s { s with aftrIsp := b }).1 ≠ .nothingToDo →
        (sanitizeState env s { s with aftrIsp := b }).conn ≠ s.conn) := by
  have hset : AftrSet b s (sanitizeState env s { s with aftrIsp := b }) := aftrSet_sanitizeState hu
  unfold drbdSetState
  dsimp only
  generalize sanitizeState env s { s with aftrIsp := b } = s' at hset ⊢
  by_cases heq : s' = s
  · rw [if_pos heq]
    exact ⟨heq.symm, fun hn => absurd rfl hn⟩
  · rw [if_neg heq]
    have hrv : checkChange env true s s' = if s.conn = s'.conn then .nothingToDo else .success := by
      unfold checkChange
      simp only [not_true_eq_false, and_false, if_false]
      exact hset.isValidTransition
    simp only [hrv]
    split
    · exact ⟨rfl, fun hn => absurd rfl hn⟩
    · rename_i hne
      exact ⟨rfl, fun _ he => hne he.symm⟩

end Drbd.ResyncAfter
