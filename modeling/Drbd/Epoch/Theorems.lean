import Drbd.Epoch.Lemmas.Invariant

/-!
# Epoch sizes agree

As long as no epoch of the transfer log mixes replicated writes with later ones that are not, every
P_BARRIER_ACK of the peer is what `tl_release` expects.
-/

namespace Drbd.Epoch

open Drbd.Lib

/-- The barriers on the wire are in place, the acks under way are for epochs as they were sent, and the next of
them is the one `tl_release` expects. -/
structure EpochsAgree (c : Connection) : Prop where
  framed : ∃ closed nr n, c.wire = frame closed ++ List.replicate n (.data nr) ∧ Framed closed nr ∧
    ∃ past, past ++ c.acks <+: closed
  expected : ∀ nr size acks, c.acks = (nr, size) :: acks → tlExpect c.transferLog = some (nr, size)
  noError : c.protocolError = false

/-- A write that is not replicated finds no replicated write in the current epoch. -/
def KeepsEpochWhole (c : Connection) : Event → Prop
  | .write remote sendOos noblock marked =>
      drbdProcessWriteRequest remote sendOos noblock marked ≠ .data →
        ∀ r ∈ c.transferLog, r.epoch = c.currentTleNr → r.kind ≠ .data
  | _ => True

instance (c : Connection) : ∀ e, Decidable (KeepsEpochWhole c e)
  | .write _ _ _ _ => inferInstanceAs (Decidable (_ → _))
  | .read _ | .flush _ | .closeEpoch | .worker | .idle | .destroy _ | .peer | .barrierAck =>
      inferInstanceAs (Decidable True)

theorem Agrees.epochsAgree {c : Connection} {delivered : List Packet} {past rest : List (Nat × Nat)}
    (h : Agrees c delivered past rest) : EpochsAgree c := by
  refine ⟨⟨past ++ rest, _, _, h.sending.wire_eq, h.sending.framed, past, ?_⟩, ?_, h.noError⟩
  · exact (List.prefix_append_right_inj past).mpr h.acks_prefix
  · intro nr size acks hacks
    obtain ⟨tail, hrest⟩ := h.acks_prefix
    rw [hacks, List.cons_append] at hrest
    subst hrest
    exact h.tlExpect_eq

theorem step_agreeing {maxEpochSize : Nat} {c c' : Connection} {e : Event} (h : Agreeing c)
    (hwhole : KeepsEpochWhole c e) (hstep : step maxEpochSize c e = some c') : Agreeing c' := by
  obtain ⟨delivered, past, rest, h⟩ := h
  unfold step at hstep
  rw [if_neg (by simp [h.noError])] at hstep
  cases e with
  | write remote sendOos noblock marked =>
      cases hstep
      exact ⟨delivered, past, rest, h.submitWrite (drbdProcessWriteRequest_ne_read _ _ _ _) hwhole⟩
  | read remote =>
      cases hstep
      exact ⟨delivered, past, rest, h.submitRead⟩
  | flush remote =>
      cases hstep
      refine ⟨delivered, past, rest, ?_⟩
      split
      · exact h.startNewTlEpoch
      · exact h
  | closeEpoch =>
      cases hstep
      exact ⟨delivered, past, rest, h.startNewTlEpoch⟩
  | worker =>
      obtain ⟨rest', h'⟩ := h.workerStep hstep
      exact ⟨delivered, past, rest', h'⟩
  | idle =>
      obtain ⟨rest', h'⟩ := h.workerIdle hstep
      exact ⟨delivered, past, rest', h'⟩
  | destroy i =>
      dsimp only at hstep
      split at hstep
      · cases hstep
      · rename_i r hr
        split at hstep
        · rename_i hleave
          cases hstep
          exact ⟨delivered, past, rest, h.destroy hr hleave⟩
        · cases hstep
  | peer =>
      obtain ⟨delivered', h'⟩ := h.peerStep hstep
      exact ⟨delivered', past, rest, h'⟩
  | barrierAck =>
      dsimp only at hstep
      split at hstep
      · cases hstep
      · rename_i nr size acks hacks
        cases hstep
        obtain ⟨past', rest', h'⟩ := h.barrierAck hacks
        exact ⟨delivered, past', rest', h'⟩

/-- Barriers close the epochs as they were sent, and the peer's counts are those of `tl_release`. -/
theorem epoch_sizes_agree (maxEpochSize currentTleNr : Nat) (es : List Event) (c : Connection)
    (hwhole : Meets (step maxEpochSize) KeepsEpochWhole (connected currentTleNr) es)
    (hrun : run (step maxEpochSize) (connected currentTleNr) es = some c) : EpochsAgree c := by
  have hinv : Agreeing c := run_invariant step_agreeing (agreeing_connected currentTleNr) hwhole hrun
  obtain ⟨delivered, past, rest, h⟩ := hinv
  exact h.epochsAgree

/-- Two epochs with a read between them, both acked, and a write of protocol S that was not sent. -/
def mixedRun : List Event :=
  [.write true false false false, .write true false false false, .worker, .worker, .flush true, .read true,
    .write false true false true, .worker, .worker, .peer, .peer, .peer, .closeEpoch, .write true false true false,
    .flush true, .write true false false false, .barrierAck, .worker, .closeEpoch, .idle, .peer, .peer, .barrierAck]

theorem epoch_sizes_agree_mixed : ∃ c, run (step 20) (connected 7) mixedRun = some c ∧ EpochsAgree c := by
  obtain ⟨c, hrun⟩ : ∃ c, run (step 20) (connected 7) mixedRun = some c :=
    Option.isSome_iff_exists.mp (by decide)
  exact ⟨c, hrun, epoch_sizes_agree 20 7 mixedRun c (by decide) hrun⟩

/-- The sync_noblock thread of protocol S starts between two writes of one epoch: the second is counted but not
sent, and the ack for the first ends the connection. -/
theorem unsent_write_is_counted :
    ∃ c, run (step 20) (connected 7)
        [.write true false false false, .write true false true false, .worker, .closeEpoch, .idle, .peer, .peer,
          .barrierAck] = some c ∧ c.protocolError = true ∧ ¬ EpochsAgree c := by
  refine ⟨_, rfl, by decide, fun h => ?_⟩
  exact absurd h.noError (by decide)

end Drbd.Epoch
