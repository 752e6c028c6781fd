import Drbd.Divergence.Lemmas.Invariant
import Drbd.Lib.System

/-!
# Divergence is detected
-/

namespace Drbd.Divergence

open State Uuid Lib

variable {c c' : Cluster} {es : List Event}

/-- Two nodes in sync: connected, with up-to-date disks and, bit 0 of the current UUID aside, the same
UUIDs; the bitmap UUID is zero. -/
structure InSync (c : Cluster) : Prop where
  conn : ∀ i, (c.node i).state.conn = .connected
  disk : ∀ i, (c.node i).state.disk = .upToDate
  pdsk : ∀ i, (c.node i).state.pdsk = .upToDate
  current : base (c.node false).uuid.current = base (c.node true).uuid.current
  bitmap : ∀ i, (c.node i).uuid.bitmap = 0
  historyStart : (c.node false).uuid.historyStart = (c.node true).uuid.historyStart
  historyEnd : (c.node false).uuid.historyEnd = (c.node true).uuid.historyEnd
  work : ∀ i, (c.node i).work = []
  wrote : ∀ i, (c.node i).wrote = false
  promoted : ∀ i, (c.node i).promoted = false

theorem InSync.inv (h : InSync c) : Inv (c.node false).uuid.historyStart c := by
  intro i
  refine ⟨?_, h.disk i, .inr ⟨h.conn i, h.pdsk i, not_pending_nil (h.work i)⟩, ?_, ?_, ?_, ?_⟩
  · cases i with
    | false => rfl
    | true => exact h.historyStart.symm
  · exact fun hb => absurd (h.bitmap i) hb
  · intro hp
    rw [h.promoted i] at hp
    cases hp
  · intro _ _ hlt
    rw [h.conn i] at hlt
    exact absurd hlt (by decide)
  · intro _ hw
    rw [h.wrote i] at hw
    cases hw

theorem step_protocol {e : Event} (hs : step c e = some c') : c'.protocol = c.protocol := by
  cases e <;> simp only [step] at hs <;> grind [Cluster.set, Option.map_eq_some_iff]

/-- When both nodes have accepted writes without the other since they were in sync, the comparison
finds a split brain, unless the protocol is S and one of them was never promoted alone. -/
theorem divergence_detected {r : Bool} {version : Nat} (h0 : InSync c)
    (hf : Meets step DrawsFresh c es) (h : run step c es = some c') (hw : c'.Waiting)
    (hwrote : ∀ i, (c'.node i).wrote)
    (hproto : c.protocol ≠ .s ∨ ∀ i, (c'.node i).promoted) :
    ∀ i, (c'.compare r version i).hg = 100 ∨ (c'.compare r version i).hg = -100 := by
  have hinv : Inv (c.node false).uuid.historyStart c' ∧ c'.protocol = c.protocol :=
    run_invariant (I := fun d => Inv (c.node false).uuid.historyStart d ∧ d.protocol = c.protocol)
      (fun hi hd hs => ⟨hi.1.step hd hs, (step_protocol hs).trans hi.2⟩) ⟨h0.inv, rfl⟩ hf h
  have hown : ∀ i, Own (c'.node i) (c'.node !i) := by
    intro i
    rcases hproto with hproto | hprom
    · rw [← hinv.2] at hproto
      exact (hinv.1 i).own_of_wrote (not_pending_nil (hw i).2.1) hproto (hwrote i)
    · exact (hinv.1 i).promoted (hprom i)
  intro i
  have hother := hown (!i)
  rw [Bool.not_not] at hother
  exact (hown i).compare_splitBrain hother ((hinv.1 i).history.trans (hinv.1 (!i)).history.symm)

/-! ## A Primary that is left alone, and its peer that takes over -/

def plainEnv : Env where
  netConf := some ⟨false, false⟩
  fencing := .dontCare
  suspendOnNoData := false
  agreedProVersion := 101
  openCnt := 0
  otherPeerPrimary := false
  edUuidCurrent := true
  newDisk := .upToDate
  newPdsk := .upToDate
  stateSent := false

def connectedState (role peer : Role) : DrbdState :=
  ⟨role, peer, .connected, .upToDate, .upToDate, false, false, false, false, false, false⟩

def idleNode (role peer : Role) (uuid : Uuids) : Node :=
  ⟨connectedState role peer, uuid, false, [], false, false, false⟩

/-- Node `false` is Primary. -/
def onePrimary (protocol : WireProtocol) : Cluster where
  protocol := protocol
  node i := if i then idleNode .secondary .primary ⟨0x100, 0, 0x60, 0x40⟩
    else idleNode .primary .secondary ⟨0x101, 0, 0x60, 0x40⟩

theorem onePrimary_inSync (protocol : WireProtocol) : InSync (onePrimary protocol) := by
  cases protocol <;> constructor <;> decide

/-- The connection breaks, both nodes notice, and both write. -/
def takeOver : List Event :=
  [.lose false plainEnv .networkFailure, .lose true plainEnv .networkFailure,
    .afterStateCh false 0x201, .afterStateCh true 0x301, .write false,
    .promote true plainEnv false, .afterStateCh true 0x401, .promoted true 0x501, .write true]

theorem divergence_detected_takeOver :
    ∃ c', run step (onePrimary .c) takeOver = some c' ∧ c'.Waiting ∧ (∀ i, (c'.node i).wrote) ∧
      ∀ i, (c'.compare true 101 i).hg = 100 ∨ (c'.compare true 101 i).hg = -100 := by
  have hsome : (run step (onePrimary .c) takeOver).isSome := by decide
  obtain ⟨c', hrun⟩ := Option.isSome_iff_exists.mp hsome
  have hall : (run step (onePrimary .c) takeOver).all fun d =>
      decide (d.Waiting ∧ ∀ i, (d.node i).wrote) := by decide
  rw [hrun, Option.all_some, decide_eq_true_eq] at hall
  exact ⟨c', hrun, hall.1, hall.2,
    divergence_detected (onePrimary_inSync .c) (by decide) hrun hall.1 hall.2
      (.inl (by decide))⟩

/-- With protocol S the Primary that lost its peer keeps its UUID, and its peer takes it for outdated. -/
theorem protocolS_misses_divergence :
    ¬ ∀ (c c' : Cluster) (es : List Event) (r : Bool) (version : Nat), InSync c →
      Meets step DrawsFresh c es → run step c es = some c' → c'.Waiting → (∀ i, (c'.node i).wrote) →
      ∀ i, (c'.compare r version i).hg = 100 ∨ (c'.compare r version i).hg = -100 := by
  intro hclaim
  have hobs : (run step (onePrimary .s) takeOver).map (fun d =>
      (decide (d.Waiting ∧ ∀ i, (d.node i).wrote), (d.compare true 101 true).hg)) = some (true, 1) := by
    decide
  obtain ⟨c', hrun, hc'⟩ := Option.map_eq_some_iff.mp hobs
  rw [Prod.mk.injEq, decide_eq_true_eq] at hc'
  have hsplit := hclaim _ _ _ true 101 (onePrimary_inSync .s) (by decide) hrun hc'.1.1 hc'.1.2 true
  rw [hc'.2] at hsplit
  exact absurd hsplit (by decide)

end Drbd.Divergence
