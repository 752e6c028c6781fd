import Drbd.Epoch.Defs
import Mathlib.Tactic.Common

/-!
# What goes over the wire

The packets sent so far are epochs that were closed by a barrier, followed by the writes of the epoch that
is still open. The peer counts the same epochs.
-/

namespace Drbd.Epoch

variable {c c' : Connection} {closed past rest : List (Nat × Nat)} {sent : List Nat} {nr n epoch : Nat}

/-- Closed epochs on the wire: the writes of each, then its barrier. -/
def frame (closed : List (Nat × Nat)) : List Packet :=
  closed.flatMap fun p => List.replicate p.2 (.data p.1) ++ [.barrier p.1]

/-- The epoch of every write in them. -/
def expand (closed : List (Nat × Nat)) : List Nat :=
  closed.flatMap fun p => List.replicate p.2 p.1

@[simp] theorem frame_nil : frame [] = [] := rfl

@[simp] theorem expand_nil : expand [] = [] := rfl

@[simp] theorem frame_append (xs ys : List (Nat × Nat)) : frame (xs ++ ys) = frame xs ++ frame ys := by
  simp [frame]

@[simp] theorem expand_append (xs ys : List (Nat × Nat)) : expand (xs ++ ys) = expand xs ++ expand ys := by
  simp [expand]

theorem frame_singleton (nr n : Nat) : frame [(nr, n)] = List.replicate n (.data nr) ++ [.barrier nr] := by
  simp [frame]

theorem expand_singleton (nr n : Nat) : expand [(nr, n)] = List.replicate n nr := by
  simp [expand]

theorem mem_expand {e : Nat} : e ∈ expand closed ↔ ∃ p ∈ closed, p.2 ≠ 0 ∧ p.1 = e := by
  simp [expand, List.mem_replicate, eq_comm]

/-! ## The peer's count -/

/-- The size of the open epoch and the acks after one more packet. -/
def peerCountStep (s : Nat × List (Nat × Nat)) : Packet → Nat × List (Nat × Nat)
  | .data _ => (s.1 + 1, s.2)
  | .barrier nr => (0, if s.1 = 0 then s.2 else s.2 ++ [(nr, s.1)])

def peerCount (s : Nat × List (Nat × Nat)) (ps : List Packet) : Nat × List (Nat × Nat) :=
  ps.foldl peerCountStep s

theorem peerCount_append (s : Nat × List (Nat × Nat)) (ps qs : List Packet) :
    peerCount s (ps ++ qs) = peerCount (peerCount s ps) qs := by
  simp [peerCount]

theorem peerCount_prefix (s : Nat × List (Nat × Nat)) (ps : List Packet) : s.2 <+: (peerCount s ps).2 := by
  induction ps generalizing s with
  | nil => exact List.prefix_refl _
  | cons p ps ih =>
      refine List.IsPrefix.trans ?_ (ih (peerCountStep s p))
      cases p with
      | data _ => exact List.prefix_refl _
      | barrier nr =>
          simp only [peerCountStep]
          split
          · exact List.prefix_refl _
          · exact List.prefix_append _ _

theorem peerCount_replicate (s : Nat × List (Nat × Nat)) (e n : Nat) :
    peerCount s (List.replicate n (.data e)) = (s.1 + n, s.2) := by
  induction n generalizing s with
  | zero => rfl
  | succ n ih =>
      simp only [List.replicate_succ, peerCount, List.foldl_cons] at ih ⊢
      rw [ih]
      simp only [peerCountStep, Prod.mk.injEq, and_true]
      omega

theorem peerCount_frame (acks : List (Nat × Nat)) (hpos : ∀ p ∈ closed, 0 < p.2) :
    peerCount (0, acks) (frame closed) = (0, acks ++ closed) := by
  induction closed generalizing acks with
  | nil => simp [peerCount]
  | cons p ps ih =>
      have hp : p.2 ≠ 0 := Nat.ne_of_gt (hpos p List.mem_cons_self)
      have hframe : frame (p :: ps) = List.replicate p.2 (.data p.1) ++ ([.barrier p.1] ++ frame ps) := by
        simp [frame]
      have hbarrier : peerCount (0 + p.2, acks) [.barrier p.1] = (0, acks ++ [p]) := by
        simp [peerCount, peerCountStep, hp]
      rw [hframe, peerCount_append, peerCount_replicate, peerCount_append, hbarrier,
        ih _ (fun q hq => hpos q (List.mem_cons_of_mem p hq))]
      simp

/-! ## The sender -/

/-- Well framed: no closed epoch is empty, and their numbers grow up to the one that is open. -/
structure Framed (closed : List (Nat × Nat)) (nr : Nat) : Prop where
  pos : ∀ p ∈ closed, 0 < p.2
  increasing : closed.Pairwise (·.1 < ·.1)
  below : ∀ p ∈ closed, p.1 < nr

theorem Framed.mono {nr'} (h : Framed closed nr) (hle : nr ≤ nr') : Framed closed nr' :=
  ⟨h.pos, h.increasing, fun p hp => Nat.lt_of_lt_of_le (h.below p hp) hle⟩

theorem Framed.close {nr'} (h : Framed closed nr) (hn : 0 < n) (hlt : nr < nr') :
    Framed (closed ++ [(nr, n)]) nr' := by
  refine ⟨?_, ?_, ?_⟩
  · intro p hp
    rcases List.mem_append.mp hp with hp | hp
    · exact h.pos p hp
    · cases List.mem_singleton.mp hp
      exact hn
  · refine List.pairwise_append.mpr ⟨h.increasing, List.pairwise_singleton _ _, ?_⟩
    intro p hp q hq
    cases List.mem_singleton.mp hq
    exact h.below p hp
  · intro p hp
    rcases List.mem_append.mp hp with hp | hp
    · exact Nat.lt_trans (h.below p hp) hlt
    · cases List.mem_singleton.mp hp
      exact hlt

/-- The packets on the wire, the sender's counters and the epochs of the writes that were sent but are not yet
acked fit together; `past` are the epochs that were acked, `rest` those closed since. -/
structure Sending (wire : List Packet) (send : Send) (past rest : List (Nat × Nat)) (sent : List Nat) : Prop where
  wire_eq : wire = frame (past ++ rest) ++ List.replicate send.currentEpochWrites (.data send.currentEpochNr)
  sent_eq : sent = expand rest ++ List.replicate send.currentEpochWrites send.currentEpochNr
  framed : Framed (past ++ rest) send.currentEpochNr
  unseen : send.seenAnyWriteYet = false → past ++ rest = [] ∧ send.currentEpochWrites = 0

theorem Sending.maybeSendBarrier (h : Sending c.wire c.send past rest sent)
    (hle : c.send.seenAnyWriteYet = true → c.send.currentEpochNr ≤ epoch) :
    ∃ rest', Sending (maybeSendBarrier c epoch).wire (maybeSendBarrier c epoch).send past rest' sent := by
  unfold Epoch.maybeSendBarrier
  split
  · exact ⟨rest, h⟩
  · rename_i hseen
    have hseen : c.send.seenAnyWriteYet = true := by simpa using hseen
    split
    · exact ⟨rest, h⟩
    · rename_i hne
      have hlt : c.send.currentEpochNr < epoch := Nat.lt_of_le_of_ne (hle hseen) hne
      by_cases hw : c.send.currentEpochWrites = 0
      · refine ⟨rest, ⟨?_, ?_, ?_, ?_⟩⟩
        · simpa [hw] using h.wire_eq
        · simpa [hw] using h.sent_eq
        · simpa [hw] using h.framed.mono (Nat.le_of_lt hlt)
        · simp [hw, hseen]
      · have hclose := h.framed.close (Nat.pos_of_ne_zero hw) hlt
        rw [List.append_assoc] at hclose
        refine ⟨rest ++ [(c.send.currentEpochNr, c.send.currentEpochWrites)], ⟨?_, ?_, ?_, ?_⟩⟩
        · simp [hw, drbdSendBarrier, Connection.put, h.wire_eq, frame_singleton]
        · simp [hw, drbdSendBarrier, Connection.put, h.sent_eq, expand_singleton]
        · simpa [hw, drbdSendBarrier, Connection.put] using hclose
        · simp [hw, drbdSendBarrier, Connection.put, hseen]

theorem Sending.reInitIfFirstWrite (h : Sending c.wire c.send past rest sent) :
    Sending (reInitIfFirstWrite c epoch).wire (reInitIfFirstWrite c epoch).send past rest sent := by
  unfold Epoch.reInitIfFirstWrite
  split
  · exact h
  · rename_i hseen
    obtain ⟨hempty, hzero⟩ := h.unseen (by simpa using hseen)
    refine ⟨?_, ?_, ?_, fun hf => by cases hf⟩
    · simpa [hempty, hzero] using h.wire_eq
    · simpa [hzero] using h.sent_eq
    · rw [hempty]
      exact ⟨by simp, List.Pairwise.nil, by simp⟩

theorem reInitIfFirstWrite_seen : (reInitIfFirstWrite c epoch).send.seenAnyWriteYet = true := by
  unfold reInitIfFirstWrite
  split
  · assumption
  · rfl

theorem reInitIfFirstWrite_le (hle : c.send.seenAnyWriteYet = true → c.send.currentEpochNr ≤ epoch) :
    (reInitIfFirstWrite c epoch).send.currentEpochNr ≤ epoch := by
  unfold reInitIfFirstWrite
  split
  · exact hle (by assumption)
  · exact Nat.le_refl _

theorem maybeSendBarrier_nr (hseen : c.send.seenAnyWriteYet = true) :
    (maybeSendBarrier c epoch).send.currentEpochNr = epoch := by
  unfold maybeSendBarrier
  simp only [hseen, Bool.not_true, Bool.false_eq_true, ↓reduceIte]
  split
  · assumption
  · rfl

theorem maybeSendBarrier_seen : (maybeSendBarrier c epoch).send.seenAnyWriteYet = c.send.seenAnyWriteYet := by
  unfold maybeSendBarrier
  split
  · rfl
  · split
    · rfl
    · dsimp only
      split
      · rfl
      · rfl

/-- A write that goes out is one more write of the open epoch. -/
theorem Sending.put_data (h : Sending c.wire c.send past rest sent) (hseen : c.send.seenAnyWriteYet = true)
    (hnr : c.send.currentEpochNr = epoch) :
    Sending (c.wire ++ [.data epoch]) { c.send with currentEpochWrites := c.send.currentEpochWrites + 1 } past rest
      (sent ++ [epoch]) := by
  refine ⟨?_, ?_, h.framed, ?_⟩
  · simp [h.wire_eq, List.replicate_succ', hnr]
  · simp [h.sent_eq, List.replicate_succ', hnr]
  · simp [hseen]

end Drbd.Epoch
