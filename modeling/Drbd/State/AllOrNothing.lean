import Drbd.State.Lemmas.Volumes

/-!
# A connection-wide change is all or nothing
-/

namespace Drbd.State

variable {c : Connection} {r : Request} {fl : ChgStateFlags}

/-- No volume of a soft change runs into something that the check has not seen. -/
def NoSurprise (c : Connection) (r : Request) (fl : ChgStateFlags) : Prop :=
  fl.hard = false → ∀ i v, c.volumes[i]? = some v →
    ¬ RefusedAgain c (c.applied r fl i) r fl v ∧ ¬ PeerRoleFault c (c.applied r fl i) r fl v

theorem connSetState_isSome_iff (hacc : (connIsValidTransition c r fl).ok) :
    (connSetState c r fl).isSome ↔ NoSurprise c r fl := by
  rw [connIsValidTransition_ok] at hacc
  rw [connSetState_isSome]
  have hturn {i v} (hv : c.volumes[i]? = some v) :=
    (frame_applied c r fl i).succeeds_iff (hacc v (List.mem_of_getElem? hv))
  constructor
  · intro h hhard i v hv
    exact (hturn hv).mp (h i v hv) hhard
  · intro h i v hv
    exact (hturn hv).mpr fun hhard => h hhard i v hv

theorem connRequestState_rejected (hrej : ¬ (connIsValidTransition c r fl).ok) (reply : Reply) :
    ∃ rv, connRequestState c r fl reply = some (rv, c) := by
  unfold connRequestState
  dsimp only
  split
  · exact ⟨_, rfl⟩
  · exact ⟨_, rfl⟩

/-- The check is repeated when the peer has answered. -/
theorem connRequestState_rejected_later {c' : Connection} {okay fail : Bool} (hcw : ClusterWide c r fl)
    (hrej : ¬ (connIsValidTransition c' r {}).ok) :
    ∃ rv d, connRequestState c r fl (.answered c' okay fail) = some (rv, d) ∧ (d = c ∨ d = c') := by
  have hcond : ¬ (connRqCond c' r okay fail).ok := by
    unfold connRqCond
    dsimp only
    rw [if_neg]
    · exact hrej
    · rintro ⟨hs, -⟩
      rw [hs] at hrej
      exact hrej rfl
  unfold connRequestState
  dsimp only
  split
  · exact ⟨_, _, rfl, .inl rfl⟩
  · split
    · exact ⟨_, _, rfl, .inl rfl⟩
    · exact ⟨_, _, rfl, .inr rfl⟩

/-- An accepted change goes through on every volume exactly when no volume runs into something that the
check has not seen; a change that is rejected, at first or when the peer has answered, changes nothing. -/
theorem conn_change_all_or_nothing (c : Connection) (r : Request) (fl : ChgStateFlags) :
    ((connIsValidTransition c r fl).ok → ((connSetState c r fl).isSome ↔ NoSurprise c r fl)) ∧
    (¬ (connIsValidTransition c r fl).ok →
      ∀ reply, ∃ rv, connRequestState c r fl reply = some (rv, c)) ∧
    (ClusterWide c r fl → ∀ c' okay fail, ¬ (connIsValidTransition c' r {}).ok →
      ∃ rv d, connRequestState c r fl (.answered c' okay fail) = some (rv, d) ∧ (d = c ∨ d = c')) :=
  ⟨connSetState_isSome_iff, connRequestState_rejected, fun hcw _ _ _ => connRequestState_rejected_later hcw⟩

/-! ## Two volumes -/

def volumeIn (role peer : Role) (conn : Conn) (disk : Disk) : Volume where
  state := ⟨role, peer, conn, disk, .upToDate, false, false, false, false, false, false⟩
  fencing := .dontCare
  openCnt := 0
  edUuidCurrent := true
  newDisk := .upToDate
  newPdsk := .upToDate

def twoVolumes (v w : Volume) : Connection where
  cstate := .wfReportParams
  netConf := some ⟨false, false⟩
  agreedProVersion := 101
  suspendOnNoData := false
  stateSent := false
  susp := ⟨false, false, false⟩
  volumes := [v, w]

/-- `drbdadm disconnect` -/
def disconnect : Request := { conn := some .disconnecting }

/-- The peer is Primary on both volumes. -/
theorem conn_change_disconnect :
    (connSetState (twoVolumes (volumeIn .secondary .primary .connected .upToDate)
        (volumeIn .secondary .primary .syncTarget .inconsistent)) disconnect {}).isSome ∧
      NoSurprise (twoVolumes (volumeIn .secondary .primary .connected .upToDate)
        (volumeIn .secondary .primary .syncTarget .inconsistent)) disconnect {} := by
  have h := (conn_change_all_or_nothing (twoVolumes (volumeIn .secondary .primary .connected .upToDate)
    (volumeIn .secondary .primary .syncTarget .inconsistent)) disconnect {}).1 (by decide)
  have hsome : (connSetState (twoVolumes (volumeIn .secondary .primary .connected .upToDate)
      (volumeIn .secondary .primary .syncTarget .inconsistent)) disconnect {}).isSome := by decide
  exact ⟨hsome, h.mp hsome⟩

/-- The peer is Primary on the first volume, this node on the second: the check takes the fault of the
second volume for an old one, as the peer is still Primary on the first. -/
theorem disconnect_runs_into_bug :
    ¬ ∀ (c : Connection) (r : Request) (fl : ChgStateFlags),
      (connIsValidTransition c r fl).ok → (connSetState c r fl).isSome := by
  intro hclaim
  have hsome := hclaim (twoVolumes (volumeIn .secondary .primary .connected .upToDate)
    (volumeIn .primary .secondary .syncTarget .inconsistent)) disconnect {} (by decide)
  have hnone : ¬ (connSetState (twoVolumes (volumeIn .secondary .primary .connected .upToDate)
      (volumeIn .primary .secondary .syncTarget .inconsistent)) disconnect {}).isSome := by decide
  exact hnone hsome

end Drbd.State
