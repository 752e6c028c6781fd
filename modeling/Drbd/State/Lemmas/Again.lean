import Drbd.State.Connection
import Drbd.State.Lemmas.Settled

/-!
# Sanitizing for the change what was sanitized for the check

`conn_set_state()` hands the state that was checked to `__drbd_set_state()`, which sanitizes it once
more.
-/

namespace Drbd.State

variable {env : Env} {os ns m n s : DrbdState} {r : Request} {fl : ChgStateFlags}

/-! ## The faults that the disks have no part in -/

/-- The faults of a state that `is_valid_state()` finds before it looks at the disks. -/
def roleFault (env : Env) (os ns : DrbdState) : Option Rv :=
  if (env.netConf.any (fun nc => !nc.twoPrimaries) ∧ ns.role = .primary) ∧ ns.peer = .primary then
    some .twoPrimaries
  else if (env.netConf.any (fun nc => !nc.twoPrimaries) ∧ ns.role = .primary) ∧
      connHighestPeerPrimary env os then some .oVolPeerPri
  else if ns.role = .secondary ∧ env.openCnt ≠ 0 then some .deviceInUse
  else none

/-- Nothing is wrong with the disks of a connected device that is not verifying. -/
structure DisksFine (s : DrbdState) : Prop where
  conn : .connected ≤ s.conn
  notVerify : s.conn ≠ .verifyS ∧ s.conn ≠ .verifyT
  upToDate : s.disk = .upToDate ∨ s.pdsk = .upToDate
  attached : s.conn > .connected → .inconsistent ≤ s.disk ∧ .inconsistent ≤ s.pdsk
  outdated : s.conn = .connected ∨ s.conn = .wfBitMapS ∨ s.conn = .syncSource ∨ s.conn = .pausedSyncS →
    s.disk ≠ .outdated
  known : s.pdsk ≠ .unknown

theorem isValidState_of_roleFault {rv : Rv} (h : roleFault env os ns = some rv) :
    isValidState env os ns = rv := by
  unfold roleFault at h
  unfold isValidState
  dsimp only
  split at h
  · rename_i h1
    cases h
    rw [if_pos h1]
  · rename_i h1
    split at h
    · rename_i h2
      cases h
      rw [if_neg h1, if_pos h2]
    · rename_i h2
      split at h
      · rename_i h3
        cases h
        rw [if_neg h1, if_neg h2, if_pos h3]
      · cases h

theorem isValidState_fine (h : roleFault env os ns = none) (hd : DisksFine ns) :
    isValidState env os ns = .success := by
  have hlt : ¬ ns.conn < .connected := Conn.not_lt.mpr hd.conn
  have hup : ¬ (ns.disk < .upToDate ∧ ns.pdsk < .upToDate) := by
    rintro ⟨h1, h2⟩
    rcases hd.upToDate with he | he
    · rw [he] at h1; exact Nat.lt_irrefl _ h1
    · rw [he] at h2; exact Nat.lt_irrefl _ h2
  have hinc : ¬ (ns.disk ≤ .inconsistent ∧ ns.pdsk ≤ .inconsistent) := fun hle =>
    hup ⟨Nat.lt_of_le_of_lt hle.1 (by decide), Nat.lt_of_le_of_lt hle.2 (by decide)⟩
  unfold roleFault at h
  unfold isValidState
  dsimp only
  split at h
  · cases h
  · rename_i h1
    split at h
    · cases h
    · rename_i h2
      split at h
      · cases h
      · rename_i h3
        rw [if_neg h1, if_neg h2, if_neg h3, if_neg (fun hc => hlt hc.2.1), if_neg (fun hc => hlt hc.2.2.1),
          if_neg (fun hc => hinc hc.2), if_neg (fun hc => Nat.not_lt_of_le (hd.attached hc.1).1 hc.2),
          if_neg (fun hc => Nat.not_lt_of_le (hd.attached hc.1).2 hc.2), if_neg (fun hc => hup hc.2),
          if_neg (fun hc => hd.outdated hc.1 hc.2),
          if_neg (fun hc => hc.1.elim hd.notVerify.1 hd.notVerify.2),
          if_neg (fun hc => hc.1.elim hd.notVerify.1 hd.notVerify.2), if_neg (fun hc => hup hc.2),
          if_neg (fun hc => hd.known hc.2), if_neg (fun hc => hd.known hc.2)]

/-! ## The fields of a sanitized state -/

theorem sanitizeState_conn : (sanitizeState env os ns).conn =
    pauseConn (corrected env os ns).paused (corrected env os ns).conn := by
  obtain ⟨_, _, heq⟩ := sanitizeState_eq env os ns
  rw [heq]

theorem sanitizeState_disk : (sanitizeState env os ns).disk =
    limitedDisk (corrected env os ns).conn (corrected env os ns).disk := by
  obtain ⟨_, _, heq⟩ := sanitizeState_eq env os ns
  rw [heq]

theorem sanitizeState_pdsk : (sanitizeState env os ns).pdsk =
    limitedPdsk (corrected env os ns).conn (corrected env os ns).pdsk := by
  obtain ⟨_, _, heq⟩ := sanitizeState_eq env os ns
  rw [heq]

theorem sanitizeState_paused : (sanitizeState env os ns).paused = (corrected env os ns).paused := by
  obtain ⟨_, _, heq⟩ := sanitizeState_eq env os ns
  rw [heq]
  rfl

theorem corrected_peer : (corrected env os ns).peer = if ns.conn < .connected then .unknown else ns.peer := by
  split
  · rename_i h
    simp [corrected_disconnected h, implyPeer, h]
  · rename_i h
    rw [corrected_connected (Conn.not_lt.mp h)]
    unfold abortResync
    split <;> rfl

theorem sanitizeState_peer :
    (sanitizeState env os ns).peer = if ns.conn < .connected then .unknown else ns.peer := by
  obtain ⟨_, _, heq⟩ := sanitizeState_eq env os ns
  rw [heq, ← corrected_peer]

theorem sanitizeState_conn_lt : (sanitizeState env os ns).conn < .connected ↔ ns.conn < .connected := by
  rw [sanitizeState_conn, pauseConn_lt_connected]
  exact ⟨conn_lt_of_corrected, fun h => corrected_conn_of_lt h ▸ h⟩

theorem keepDisk_conn : (keepDisk fl os ns).conn = ns.conn := by unfold keepDisk; split <;> rfl
theorem keepDisk_peer : (keepDisk fl os ns).peer = ns.peer := by unfold keepDisk; split <;> rfl
theorem keepDisk_pdsk : (keepDisk fl os ns).pdsk = ns.pdsk := by unfold keepDisk; split <;> rfl
theorem keepDisk_paused : (keepDisk fl os ns).paused = ns.paused := by unfold keepDisk; split <;> rfl

theorem keepDisk_disk (fl : ChgStateFlags) (os ns : DrbdState) : (keepDisk fl os ns).disk = ns.disk ∨
    ns.disk = .outdated ∧ os.disk < .outdated ∧ (keepDisk fl os ns).disk = os.disk := by
  unfold keepDisk
  split
  · rename_i h
    exact .inr ⟨h.2.1, h.2.2, rfl⟩
  · exact .inl rfl

/-- How the state that is set can differ from the one that was checked. -/
inductive Again (os n m : DrbdState) : Prop
  | same (conn : m.conn = n.conn) (disk : m.disk = n.disk) (pdsk : m.pdsk = n.pdsk)
  /-- the disk was Negotiating all along and is given up now -/
  | nego (lost : n.conn < .connected) (conn : m.conn = n.conn) (disk : n.disk = .negotiating)
      (old : os.disk = .negotiating)
  /-- the limits of the final connection state are enforced now -/
  | limits (gt : n.conn > .connected) (conn : m.conn = n.conn ∨ m.conn = .connected)
      (disk : m.disk = .failed → os.disk = .failed) (fine : DisksFine m)

theorem corrected_pdsk (h : ns.conn < .connected) : (corrected env os ns).pdsk =
    (if ns.disk = .negotiating ∧ .negotiating ≤ os.disk then
      (if env.edUuidCurrent then env.newPdsk else .unknown)
      else if ns.pdsk > .unknown ∨ ns.pdsk < .inconsistent then .unknown else ns.pdsk) := by
  rw [corrected_disconnected h]
  have hpdsk : (clearAftrIsp (implyPeer ns)).pdsk =
      if ns.pdsk > .unknown ∨ ns.pdsk < .inconsistent then .unknown else ns.pdsk := by
    rw [clearAftrIsp_pdsk, implyPeer, if_pos h]
  unfold lostNegotiating
  simp only [clearAftrIsp_conn, implyPeer_conn, clearAftrIsp_disk, implyPeer_disk, h, true_and]
  split
  · split <;> rfl
  · exact hpdsk

theorem limitedPdsk_limitedPdsk {c : Conn} (h : c < .connected) (d : Disk) :
    limitedPdsk c (limitedPdsk c d) = limitedPdsk c d := by
  have hp := limitedPdsk_pauseConn true c d (fun h => nomatch h.1)
  rwa [pauseConn_of_lt h] at hp

/-- Without a connection only a disk that was Negotiating all along changes again. -/
theorem again_disconnected (h : ns.conn < .connected) :
    Again os (keepDisk fl os (sanitizeState env os ns))
      (sanitizeState env os (keepDisk fl os (sanitizeState env os ns))) := by
  obtain ⟨n, hn⟩ : ∃ n, n = keepDisk fl os (sanitizeState env os ns) := ⟨_, rfl⟩
  rw [← hn]
  have hkc : (corrected env os ns).conn = ns.conn := corrected_conn_of_lt h
  have hnc : n.conn = ns.conn := by
    rw [hn, keepDisk_conn, sanitizeState_conn, hkc, pauseConn_of_lt h]
  have hlt : n.conn < .connected := hnc ▸ h
  have hmc : (sanitizeState env os n).conn = n.conn := by
    rw [sanitizeState_conn, corrected_conn_of_lt hlt, pauseConn_of_lt hlt]
  have hmd : (sanitizeState env os n).disk = (corrected env os n).disk := by
    rw [sanitizeState_disk, corrected_conn_of_lt hlt, limitedDisk_of_lt hlt]
  have hmp : (sanitizeState env os n).pdsk = limitedPdsk ns.conn (corrected env os n).pdsk := by
    rw [sanitizeState_pdsk, corrected_conn_of_lt hlt, hnc]
  have hnp : n.pdsk = limitedPdsk ns.conn (corrected env os ns).pdsk := by
    rw [hn, keepDisk_pdsk, sanitizeState_pdsk, hkc]
  by_cases hf : n.disk = .negotiating ∧ Disk.negotiating ≤ os.disk
  · rcases keepDisk_disk fl os (sanitizeState env os ns) with hd | ⟨-, -, hd⟩
    · -- the disk was negotiated the first time, to be Negotiating
      rw [← hn, sanitizeState_disk, hkc, limitedDisk_of_lt h] at hd
      have hq : ns.disk = .negotiating ∧ Disk.negotiating ≤ os.disk := by
        refine ⟨?_, hf.2⟩
        by_contra hne
        rw [corrected_disk h, if_neg (fun hc => hne hc.1), hf.1] at hd
        exact hne hd.symm
      refine .same hmc ?_ ?_
      · rw [hmd, hd, corrected_disk hlt, corrected_disk h, if_pos hf, if_pos hq]
      · rw [hmp, hnp, corrected_pdsk hlt, corrected_pdsk h, if_pos hf, if_pos hq]
    · rw [← hn, hf.1] at hd
      exact .nego hlt hmc hf.1 hd.symm
  · refine .same hmc ?_ ?_
    · rw [hmd, corrected_disk hlt, if_neg hf]
    · rw [hmp, corrected_pdsk hlt, if_neg hf, if_neg (hnp ▸ limitedPdsk_of_lt h _), hnp,
        limitedPdsk_limitedPdsk h]

/-! ### With a connection -/

theorem limitedDisk_connected (d : Disk) : limitedDisk .connected d ≠ .outdated ∧
    limitedDisk .connected (limitedDisk .connected d) = limitedDisk .connected d := by
  cases d <;> decide

theorem limitedPdsk_connected (d : Disk) :
    limitedPdsk .connected (limitedPdsk .connected d) = limitedPdsk .connected d := by
  cases d <;> decide

theorem limitedDisk_connected_of_le {d : Disk} (h : d ≤ .failed) : limitedDisk .connected d = d := by
  revert h
  cases d <;> decide

/-- The connection states of a device that is not the source of the data. -/
def TargetSide (c : Conn) : Prop :=
  c = .wfBitMapT ∨ c = .pausedSyncT ∨ c = .startingSyncT ∨ c = .wfSyncUuid ∨ c = .behind ∨ c = .syncTarget

theorem targetSide_of_limitedDisk {c : Conn} {d : Disk} (hgt : c > .connected)
    (h : limitedDisk c d = .outdated) (p : Bool) : TargetSide c ∧ TargetSide (pauseConn p c) := by
  unfold TargetSide
  revert hgt h
  cases p <;> cases c <;> cases d <;> decide

theorem TargetSide.limits {c : Conn} (h : TargetSide c) (d : Disk) :
    limitedPdsk c d = .upToDate ∧ .inconsistent ≤ limitedDisk c d := by
  rcases h with h | h | h | h | h | h <;> subst h <;> cases d <;> decide

theorem TargetSide.conn {c : Conn} (h : TargetSide c) : c > .connected ∧ (c ≠ .verifyS ∧ c ≠ .verifyT) ∧
    ¬ (c = .connected ∨ c = .wfBitMapS ∨ c = .syncSource ∨ c = .pausedSyncS) := by
  rcases h with h | h | h | h | h | h <;> subst h <;> decide

theorem TargetSide.disksFine (h : TargetSide s.conn) (hp : s.pdsk = .upToDate) (hd : .inconsistent ≤ s.disk) :
    DisksFine s where
  conn := Nat.le_of_lt h.conn.1
  notVerify := h.conn.2.1
  upToDate := .inr hp
  attached _ := ⟨hd, hp ▸ by decide⟩
  outdated hc := absurd hc h.conn.2.2
  known := hp ▸ by decide

theorem disksFine_connected (hc : s.conn = .connected) (hp : s.pdsk = .upToDate) (hd : s.disk ≤ .failed) :
    DisksFine s where
  conn := hc ▸ Nat.le_refl _
  notVerify := hc ▸ by decide
  upToDate := .inr hp
  attached hgt := absurd (hc ▸ hgt) (Conn.lt_irrefl _)
  outdated _ he := by
    rw [he] at hd
    exact absurd hd (by decide)
  known := hp ▸ by decide

theorem disksFine_syncSource (hc : s.conn = .syncSource) (hd : s.disk = .upToDate)
    (hp : s.pdsk = .inconsistent) : DisksFine s where
  conn := hc ▸ by decide
  notVerify := hc ▸ by decide
  upToDate := .inl hd
  attached _ := by
    rw [hd, hp]
    decide
  outdated _ := by
    rw [hd]
    decide
  known := by
    rw [hp]
    decide

/-- The plain connection: nothing changes again. -/
theorem again_connected (h : (corrected env os ns).conn = .connected) :
    Again os (keepDisk fl os (sanitizeState env os ns))
      (sanitizeState env os (keepDisk fl os (sanitizeState env os ns))) := by
  obtain ⟨n, hn⟩ : ∃ n, n = keepDisk fl os (sanitizeState env os ns) := ⟨_, rfl⟩
  rw [← hn]
  have hnc : n.conn = .connected := by
    rw [hn, keepDisk_conn, sanitizeState_conn, h]
    cases (corrected env os ns).paused <;> rfl
  have hnd : n.disk = limitedDisk .connected (corrected env os ns).disk := by
    rcases keepDisk_disk fl os (sanitizeState env os ns) with hd | ⟨ho, -⟩
    · rw [hn, hd, sanitizeState_disk, h]
    · rw [sanitizeState_disk, h] at ho
      exact absurd ho (limitedDisk_connected _).1
  have hnp : n.pdsk = limitedPdsk .connected (corrected env os ns).pdsk := by
    rw [hn, keepDisk_pdsk, sanitizeState_pdsk, h]
  have hself : corrected env os n = n := by
    rw [corrected_connected (hnc ▸ Nat.le_refl _)]
    refine if_neg fun hab => Conn.lt_irrefl .connected ?_
    rw [hnc] at hab
    exact hab.1
  refine .same ?_ ?_ ?_
  · rw [sanitizeState_conn, hself, hnc]
    cases n.paused <;> rfl
  · rw [sanitizeState_disk, hself, hnc, hnd, (limitedDisk_connected _).2]
  · rw [sanitizeState_pdsk, hself, hnc, hnp, limitedPdsk_connected]

/-- Beyond the plain connection the limits of the final connection state come in. -/
theorem again_resync (hgt : (corrected env os ns).conn > .connected) :
    Again os (keepDisk fl os (sanitizeState env os ns))
      (sanitizeState env os (keepDisk fl os (sanitizeState env os ns))) := by
  obtain ⟨hself, -, -⟩ := corrected_pausing hgt rfl
  rw [hself] at hgt
  obtain ⟨n, hn⟩ : ∃ n, n = keepDisk fl os (sanitizeState env os ns) := ⟨_, rfl⟩
  rw [← hn]
  have hpa : n.paused = ns.paused := by rw [hn, keepDisk_paused, sanitizeState_paused, hself]
  have hnc : n.conn = pauseConn ns.paused ns.conn := by rw [hn, keepDisk_conn, sanitizeState_conn, hself]
  have hnp : n.pdsk = limitedPdsk ns.conn ns.pdsk := by rw [hn, keepDisk_pdsk, sanitizeState_pdsk, hself]
  have hngt : n.conn > .connected := hnc ▸ pauseConn_gt_connected.mpr hgt
  have hcorr : corrected env os n = abortResync n := corrected_connected (Nat.le_of_lt hngt)
  have hpp : pauseConn n.paused n.conn = n.conn := by rw [hpa, hnc, pauseConn_pauseConn]
  rcases keepDisk_disk fl os (sanitizeState env os ns) with hd | ⟨ho, hlt, hd⟩
  · rw [← hn, sanitizeState_disk, hself] at hd
    have hkeep : abortResync n = n := by
      refine if_neg fun hab => ?_
      rcases hab.2 with hle | hle
      · exact Nat.not_le_of_lt (limitedDisk_of_gt hgt _) (hd ▸ hle)
      · exact Nat.not_le_of_lt (limitedPdsk_of_gt hgt _) (hnp ▸ hle)
    rw [hkeep] at hcorr
    have hmc : (sanitizeState env os n).conn = n.conn := by rw [sanitizeState_conn, hcorr, hpp]
    have hmd : (sanitizeState env os n).disk = limitedDisk n.conn n.disk := by
      rw [sanitizeState_disk, hcorr]
    have hmp : (sanitizeState env os n).pdsk = limitedPdsk n.conn n.pdsk := by
      rw [sanitizeState_pdsk, hcorr]
    by_cases hT : ns.paused = false ∧ ns.conn = .pausedSyncT
    · have hst : n.conn = .syncTarget := by rw [hnc, hT.1, hT.2]; rfl
      have hside : TargetSide n.conn := hst ▸ by unfold TargetSide; decide
      obtain ⟨hp, hi⟩ := hside.limits n.disk
      refine .limits hngt (.inl hmc) (fun hf => ?_) ?_
      · rw [hmd] at hf
        exact absurd (hf ▸ hi) (by decide)
      · rw [← hmc] at hside
        rw [← hmd] at hi
        exact hside.disksFine (hmp.trans (hmc ▸ (hside.limits n.pdsk).1)) hi
    · by_cases hS : ns.paused = false ∧ ns.conn = .pausedSyncS
      · have hst : n.conn = .syncSource := by rw [hnc, hS.1, hS.2]; rfl
        have hdd : (sanitizeState env os n).disk = .upToDate := by
          rw [hmd, hst]
          cases n.disk <;> rfl
        have hdp : (sanitizeState env os n).pdsk = .inconsistent := by
          rw [hmp, hst]
          cases n.pdsk <;> rfl
        refine .limits hngt (.inl hmc) (fun hf => ?_) (disksFine_syncSource (hmc.trans hst) hdd hdp)
        rw [hdd] at hf
        cases hf
      · refine .same hmc ?_ ?_
        · rw [hmd, hd, hnc]
          exact limitedDisk_pauseConn _ _ _ fun hc => hT ⟨hc.1, hc.2.1⟩
        · rw [hmp, hnp, hnc]
          exact limitedPdsk_pauseConn _ _ _ fun hc => hS ⟨hc.1, hc.2.1⟩
  · rw [sanitizeState_disk, hself] at ho
    rw [← hn] at hd
    obtain ⟨hside, hside'⟩ := targetSide_of_limitedDisk hgt ho ns.paused
    rw [← hnc] at hside'
    have hup : n.pdsk = .upToDate := hnp.trans (hside.limits _).1
    by_cases hf : os.disk ≤ .failed
    · have hab : corrected env os n = { n with conn := .connected } := by
        rw [hcorr]
        exact if_pos ⟨hngt, .inl (hd ▸ hf)⟩
      have hmc : (sanitizeState env os n).conn = .connected := by
        rw [sanitizeState_conn, hab]
        generalize DrbdState.paused _ = p
        cases p <;> rfl
      have hmd : (sanitizeState env os n).disk = os.disk := by
        rw [sanitizeState_disk, hab, ← hd]
        exact limitedDisk_connected_of_le (hd ▸ hf)
      have hmp : (sanitizeState env os n).pdsk = .upToDate := by
        rw [sanitizeState_pdsk, hab, hup]
        rfl
      rw [← hmd] at hf
      exact .limits hngt (.inr hmc) hmd.symm.trans (disksFine_connected hmc hmp hf)
    · have hkeep : abortResync n = n := by
        refine if_neg fun hab => ?_
        rcases hab.2 with hle | hle
        · exact hf (hd ▸ hle)
        · rw [hup] at hle
          exact absurd hle (by decide)
      rw [hkeep] at hcorr
      have hmc : (sanitizeState env os n).conn = n.conn := by rw [sanitizeState_conn, hcorr, hpp]
      obtain ⟨hp, -⟩ := hside'.limits n.pdsk
      obtain ⟨-, hi⟩ := hside'.limits n.disk
      have hmd : .inconsistent ≤ (sanitizeState env os n).disk := by
        rw [sanitizeState_disk, hcorr]
        exact hi
      rw [← hmc] at hside'
      refine .limits hngt (.inl hmc) (fun hfa => ?_) (hside'.disksFine ?_ hmd)
      · rw [hfa] at hmd
        exact absurd hmd (by decide)
      · rw [sanitizeState_pdsk, hcorr]
        exact hp

theorem again_wanted (env : Env) (r : Request) (fl : ChgStateFlags) (os : DrbdState) :
    Again os (wanted env r fl os) (sanitizeState env os (wanted env r fl os)) := by
  unfold wanted
  generalize r.apply os = ns
  by_cases hlt : ns.conn < .connected
  · exact again_disconnected hlt
  · have hle := @le_corrected_conn env os ns (Conn.not_lt.mp hlt)
    rcases Nat.lt_or_eq_of_le hle with hgt | heq
    · exact again_resync hgt
    · refine again_connected ?_
      revert heq
      generalize (corrected env os ns).conn = c
      cases c <;> decide

theorem wanted_role_again : (sanitizeState env os (wanted env r fl os)).role = (wanted env r fl os).role :=
  sanitizeState_role

theorem wanted_peer_again : (sanitizeState env os (wanted env r fl os)).peer = (wanted env r fl os).peer := by
  unfold wanted
  rw [sanitizeState_peer, keepDisk_conn]
  split
  · rename_i h
    rw [keepDisk_peer, sanitizeState_peer, if_pos (sanitizeState_conn_lt.mp h)]
  · rfl

/-! ## The checks of the change -/

theorem isValidConnTransition_connected {oc nc : Conn} (hgt : nc > .connected)
    (h : (isValidConnTransition oc nc).ok) : (isValidConnTransition oc .connected).ok := by
  revert hgt h
  cases oc <;> cases nc <;> decide

theorem isValidTransition_ok : (isValidTransition os ns).ok ↔
    ¬ (ns.disk = .failed ∧ os.disk = .diskless) ∧ (isValidConnTransition os.conn ns.conn).ok := by
  unfold isValidTransition
  split
  · rename_i h
    exact iff_of_false (fun hc => nomatch hc) (fun hc => hc.1 h)
  · rename_i h
    exact (and_iff_right h).symm

theorem Again.isValidTransition (ha : Again os n m) (h : (isValidTransition os n).ok) :
    (isValidTransition os m).ok := by
  rw [isValidTransition_ok] at h ⊢
  cases ha with
  | same conn disk pdsk => rwa [conn, disk]
  | nego lost conn disk old =>
      refine ⟨fun hc => ?_, conn ▸ h.2⟩
      rw [old] at hc
      cases hc.2
  | limits gt conn disk fine =>
      refine ⟨fun hc => ?_, ?_⟩
      · have hf := disk hc.1
        rw [hc.2] at hf
        cases hf
      · rcases conn with conn | conn
        · exact conn ▸ h.2
        · exact conn ▸ isValidConnTransition_connected gt h.2

theorem roleFault_congr (hrole : m.role = n.role) (hpeer : m.peer = n.peer) :
    roleFault env os m = roleFault env os n := by
  unfold roleFault
  rw [hrole, hpeer]

theorem isValidState_congr (hrole : m.role = n.role) (hpeer : m.peer = n.peer) (hconn : m.conn = n.conn)
    (hdisk : m.disk = n.disk) (hpdsk : m.pdsk = n.pdsk) : isValidState env os m = isValidState env os n := by
  unfold isValidState
  rw [hrole, hpeer, hconn, hdisk, hpdsk]

/-- Without a connection, without a role fault and without a fencing policy only a Primary has to have
up-to-date data. -/
theorem isValidState_disconnected (h : roleFault env os ns = none) (hlt : ns.conn < .connected)
    (hfp : fencingPolicy env os = .dontCare) :
    isValidState env os ns = if ns.role = .primary ∧ ns.disk < .upToDate then .noUpToDateDisk else .success := by
  have hgt : ¬ ns.conn > .connected := Nat.lt_asymm hlt
  have hne {c : Conn} (hc : .connected ≤ c) : ns.conn ≠ c := fun he =>
    Nat.not_le_of_lt hlt (he ▸ hc)
  have hver : ¬ (ns.conn = .verifyS ∨ ns.conn = .verifyT) := fun hc =>
    hc.elim (hne (by decide)) (hne (by decide))
  have hsrc : ¬ (ns.conn = .connected ∨ ns.conn = .wfBitMapS ∨ ns.conn = .syncSource ∨ ns.conn = .pausedSyncS) :=
    fun hc => hc.elim (hne (by decide)) fun hc => hc.elim (hne (by decide)) fun hc =>
      hc.elim (hne (by decide)) (hne (by decide))
  have hstart : ¬ (ns.conn = .startingSyncS ∨ ns.conn = .startingSyncT) := fun hc =>
    hc.elim (hne (by decide)) (hne (by decide))
  unfold roleFault at h
  unfold isValidState
  dsimp only
  split at h
  · cases h
  · rename_i h1
    split at h
    · cases h
    · rename_i h2
      split at h
      · cases h
      · rename_i h3
        rw [if_neg h1, if_neg h2, if_neg h3]
        by_cases hp : ns.role = .primary ∧ ns.disk < .upToDate
        · rw [if_pos ⟨hp.1, hlt, hp.2⟩, if_pos hp]
        · rw [if_neg (fun hc => hp ⟨hc.1, hc.2.2⟩), if_neg (fun hc => hc.1 hfp),
            if_neg (fun hc => hp ⟨hc.1, Nat.lt_of_le_of_lt hc.2.1 (by decide)⟩), if_neg (fun hc => hgt hc.1),
            if_neg (fun hc => hgt hc.1), if_neg (fun hc => hgt hc.1), if_neg (fun hc => hsrc hc.1),
            if_neg (fun hc => hver hc.1), if_neg (fun hc => hver hc.1), if_neg (fun hc => hp ⟨hc.1, hc.2.1⟩),
            if_neg (fun hc => hstart hc.1), if_neg (fun hc => Nat.not_le_of_lt hlt hc.1), if_neg hp]

/-- Sanitizing again finds no new fault. -/
theorem Again.isValidState (ha : Again os n m) (env : Env) (hrole : m.role = n.role) (hpeer : m.peer = n.peer) :
    isValidState env os m = .success ∨ isValidState env os m = isValidState env os n := by
  cases hf : roleFault env os n with
  | some rv =>
      right
      rw [isValidState_of_roleFault hf, isValidState_of_roleFault ((roleFault_congr hrole hpeer).trans hf)]
  | none =>
      have hf' : roleFault env os m = none := (roleFault_congr hrole hpeer).trans hf
      cases ha with
      | same conn disk pdsk => exact .inr (isValidState_congr hrole hpeer conn disk pdsk)
      | nego lost conn disk old =>
          have hfp : fencingPolicy env os = .dontCare := by
            unfold fencingPolicy
            rw [old]
            rfl
          rw [isValidState_disconnected hf lost hfp, isValidState_disconnected hf' (conn ▸ lost) hfp, hrole]
          by_cases hp : n.role = .primary ∧ m.disk < .upToDate
          · right
            rw [if_pos hp, if_pos ⟨hp.1, disk ▸ by decide⟩]
          · left
            rw [if_neg hp]
      | limits gt conn disk fine => exact .inl (isValidState_fine hf' fine)

end Drbd.State
