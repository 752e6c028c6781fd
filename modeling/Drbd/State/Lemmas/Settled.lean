import Drbd.State.Lemmas.Sanitize

/-!
# Sanitizing a state again

A state that `sanitize_state()` returns need not be one that it leaves alone: the limits on the disks
are those of the connection state before a resync is resumed, and `aftr_isp` is looked at before a
disk that was negotiating is given up.
-/

namespace Drbd.State

variable {env env' : Env} {os ns s : DrbdState}

def DrbdState.paused (s : DrbdState) : Bool := s.aftrIsp || s.peerIsp || s.userIsp

/-- A paused resync is requested without a reason to pause: it is resumed with the disk states of the
pause. -/
def ResumesUnlimited (ns : DrbdState) : Prop :=
  ns.paused = false ∧
    ((ns.conn = .pausedSyncS ∧ ns.disk > .failed ∧ ns.pdsk > .inconsistent) ∨
      (ns.conn = .pausedSyncT ∧ ns.pdsk > .failed ∧ ns.disk > .inconsistent))

/-- The disk stays Negotiating without a peer to negotiate with. -/
def NegotiatesAlone (env : Env) (os ns : DrbdState) : Prop :=
  ns.conn < .connected ∧ ns.disk = .negotiating ∧
    (os.disk < .negotiating ∨ env.edUuidCurrent ∧ env.newDisk = .negotiating)

/-- A negotiating disk is given up on a device that thereby becomes unconfigured. -/
def UnconfiguresPaused (env : Env) (os ns : DrbdState) : Prop :=
  ns.conn = .standAlone ∧ ns.role = .secondary ∧ ns.aftrIsp ∧ ns.disk = .negotiating ∧
    .negotiating ≤ os.disk ∧ (env.edUuidCurrent → env.newDisk = .diskless)

instance : Decidable (ResumesUnlimited ns) := inferInstanceAs (Decidable (_ ∧ _))
instance : Decidable (NegotiatesAlone env os ns) := inferInstanceAs (Decidable (_ ∧ _))
instance : Decidable (UnconfiguresPaused env os ns) := inferInstanceAs (Decidable (_ ∧ _))

/-! ## The limits on the disks -/

/-- What a connection state makes of the two disk states. -/
def limitedDisk (c : Conn) (d : Disk) : Disk :=
  clampDisk (diskLimits c).1
    (if (.connected ≤ c ∧ c < .ahead) ∧ (d = .consistent ∨ d = .outdated) then .upToDate else d)

def limitedPdsk (c : Conn) (d : Disk) : Disk :=
  clampDisk (diskLimits c).2
    (if (.connected ≤ c ∧ c < .ahead) ∧ (d = .consistent ∨ d = .outdated) then .upToDate else d)

theorem limitDisks_settleDisks (s : DrbdState) :
    limitDisks (settleDisks s) =
      { s with disk := limitedDisk s.conn s.disk, pdsk := limitedPdsk s.conn s.pdsk } := by
  unfold settleDisks limitedDisk limitedPdsk
  split <;> rename_i h <;> simp [limitDisks, h]

theorem limitedDisk_pauseConn (p : Bool) (c : Conn) (d : Disk)
    (h : ¬ (p = false ∧ c = .pausedSyncT ∧ d > .inconsistent)) :
    limitedDisk (pauseConn p c) (limitedDisk c d) = limitedDisk c d := by
  revert h
  cases p <;> cases c <;> cases d <;> decide

theorem limitedPdsk_pauseConn (p : Bool) (c : Conn) (d : Disk)
    (h : ¬ (p = false ∧ c = .pausedSyncS ∧ d > .inconsistent)) :
    limitedPdsk (pauseConn p c) (limitedPdsk c d) = limitedPdsk c d := by
  revert h
  cases p <;> cases c <;> cases d <;> decide

theorem limitedDisk_of_gt {c : Conn} (h : c > .connected) (d : Disk) : limitedDisk c d > .failed := by
  revert h
  cases c <;> cases d <;> decide

theorem limitedPdsk_of_gt {c : Conn} (h : c > .connected) (d : Disk) : limitedPdsk c d > .failed := by
  revert h
  cases c <;> cases d <;> decide

theorem limitedDisk_of_lt {c : Conn} (h : c < .connected) (d : Disk) : limitedDisk c d = d := by
  revert h
  cases c <;> cases d <;> decide

theorem limitedPdsk_of_lt {c : Conn} (h : c < .connected) (d : Disk) :
    ¬ (limitedPdsk c d > .unknown ∨ limitedPdsk c d < .inconsistent) := by
  revert h
  cases c <;> cases d <;> decide

theorem pauseConn_pauseConn (p : Bool) (c : Conn) : pauseConn p (pauseConn p c) = pauseConn p c := by
  cases p <;> cases c <;> rfl

theorem pauseConn_lt_connected {p : Bool} {c : Conn} : pauseConn p c < .connected ↔ c < .connected := by
  cases p <;> cases c <;> decide

theorem pauseConn_gt_connected {p : Bool} {c : Conn} : pauseConn p c > .connected ↔ c > .connected := by
  cases p <;> cases c <;> decide

theorem pauseConn_eq_standAlone {p : Bool} {c : Conn} : pauseConn p c = .standAlone ↔ c = .standAlone := by
  cases p <;> cases c <;> decide

/-! ## What is left of the request -/

/-- The corrections before the limits on the disks. -/
def corrected (env : Env) (os ns : DrbdState) : DrbdState :=
  lostNegotiating env os (abortResync (clearAftrIsp (implyPeer ns)))

theorem sanitizeState_eq (env : Env) (os ns : DrbdState) :
    ∃ suspFen suspNod, sanitizeState env os ns =
      { corrected env os ns with
        conn := pauseConn (corrected env os ns).paused (corrected env os ns).conn
        disk := limitedDisk (corrected env os ns).conn (corrected env os ns).disk
        pdsk := limitedPdsk (corrected env os ns).conn (corrected env os ns).pdsk
        suspFen := suspFen
        suspNod := suspNod } := by
  unfold sanitizeState
  dsimp only
  rw [← corrected, limitDisks_settleDisks]
  generalize corrected env os ns = a
  exact ⟨_, _, rfl⟩

theorem implyPeer_eq_self (h : s.conn < .connected → s.peerIsp = false ∧ s.peer = .unknown ∧
    ¬ (s.pdsk > .unknown ∨ s.pdsk < .inconsistent)) : implyPeer s = s := by
  unfold implyPeer
  split
  · rename_i hc
    obtain ⟨hisp, hpeer, hpdsk⟩ := h hc
    rw [if_neg hpdsk, ← hisp, ← hpeer]
  · rfl

theorem suspendIo_self (env : Env) (s : DrbdState) : suspendIo env s s = s := by
  simp [suspendIo]

/-- The rules that `sanitize_state()` enforces, correction by correction. -/
structure Sane (s : DrbdState) : Prop where
  imply : s.conn < .connected → s.peerIsp = false ∧ s.peer = .unknown ∧
    ¬ (s.pdsk > .unknown ∨ s.pdsk < .inconsistent)
  aftr : s.conn = .standAlone → s.disk = .diskless → s.role = .secondary → s.aftrIsp = false
  abort : s.conn > .connected → s.disk > .failed ∧ s.pdsk > .failed
  nego : s.conn < .connected → s.disk ≠ .negotiating
  disk : limitedDisk s.conn s.disk = s.disk
  pdsk : limitedPdsk s.conn s.pdsk = s.pdsk
  pause : pauseConn s.paused s.conn = s.conn

theorem Sane.sanitizeState (h : Sane s) (env : Env) : sanitizeState env s s = s := by
  have h1 : implyPeer s = s := implyPeer_eq_self h.imply
  have h2 : clearAftrIsp s = s := by
    unfold clearAftrIsp
    split
    · rename_i hu
      rw [← h.aftr hu.1 hu.2.1 hu.2.2]
    · rfl
  have h3 : abortResync s = s := by
    refine if_neg fun hab => ?_
    obtain ⟨hd, hp⟩ := h.abort hab.1
    rcases hab.2 with hle | hle
    · exact Nat.not_le_of_lt hd hle
    · exact Nat.not_le_of_lt hp hle
  have h4 : lostNegotiating env s s = s := if_neg fun hl => h.nego hl.1 hl.2.1
  unfold State.sanitizeState
  simp only [h1, h2, h3, h4, limitDisks_settleDisks, h.disk, h.pdsk, suspendIo_self]
  unfold pauseResync
  rw [show (s.aftrIsp || s.peerIsp || s.userIsp) = s.paused from rfl, h.pause]

/-! ## The corrections -/

section Fields

@[simp] theorem implyPeer_conn : (implyPeer ns).conn = ns.conn := by unfold implyPeer; split <;> rfl
@[simp] theorem implyPeer_disk : (implyPeer ns).disk = ns.disk := by unfold implyPeer; split <;> rfl
@[simp] theorem implyPeer_aftrIsp : (implyPeer ns).aftrIsp = ns.aftrIsp := by
  unfold implyPeer; split <;> rfl
@[simp] theorem clearAftrIsp_conn : (clearAftrIsp ns).conn = ns.conn := by
  unfold clearAftrIsp; split <;> rfl
@[simp] theorem clearAftrIsp_disk : (clearAftrIsp ns).disk = ns.disk := by
  unfold clearAftrIsp; split <;> rfl
@[simp] theorem clearAftrIsp_pdsk : (clearAftrIsp ns).pdsk = ns.pdsk := by
  unfold clearAftrIsp; split <;> rfl
@[simp] theorem clearAftrIsp_peer : (clearAftrIsp ns).peer = ns.peer := by
  unfold clearAftrIsp; split <;> rfl
@[simp] theorem clearAftrIsp_peerIsp : (clearAftrIsp ns).peerIsp = ns.peerIsp := by
  unfold clearAftrIsp; split <;> rfl
@[simp] theorem lostNegotiating_conn : (lostNegotiating env os ns).conn = ns.conn := by
  unfold lostNegotiating; repeat' split
  all_goals rfl
@[simp] theorem lostNegotiating_peer : (lostNegotiating env os ns).peer = ns.peer := by
  unfold lostNegotiating; repeat' split
  all_goals rfl
@[simp] theorem lostNegotiating_peerIsp : (lostNegotiating env os ns).peerIsp = ns.peerIsp := by
  unfold lostNegotiating; repeat' split
  all_goals rfl
@[simp] theorem lostNegotiating_aftrIsp : (lostNegotiating env os ns).aftrIsp = ns.aftrIsp := by
  unfold lostNegotiating; repeat' split
  all_goals rfl

end Fields

theorem clearAftrIsp_aftrIsp : (clearAftrIsp ns).aftrIsp =
    (ns.aftrIsp && !decide (ns.conn = .standAlone ∧ ns.disk = .diskless ∧ ns.role = .secondary)) := by
  unfold clearAftrIsp
  split <;> rename_i h <;> simp [h]

theorem lostNegotiating_disk (h : ns.conn < .connected) : (lostNegotiating env os ns).disk =
    (if ns.disk = .negotiating ∧ .negotiating ≤ os.disk then
      (if env.edUuidCurrent then env.newDisk else .diskless) else ns.disk) := by
  unfold lostNegotiating
  by_cases hn : ns.disk = .negotiating ∧ Disk.negotiating ≤ os.disk
  · rw [if_pos ⟨h, hn⟩, if_pos hn]
    split <;> rfl
  · rw [if_neg (fun hc => hn hc.2), if_neg hn]

theorem corrected_connected (h : .connected ≤ ns.conn) : corrected env os ns = abortResync ns := by
  have hlt : ¬ ns.conn < .connected := Conn.not_lt.mpr h
  have h1 : implyPeer ns = ns := if_neg hlt
  have h2 : clearAftrIsp ns = ns := by
    refine if_neg fun hc => hlt ?_
    rw [hc.1]
    decide
  have h3 : ¬ (abortResync ns).conn < .connected := by
    unfold abortResync
    split
    · exact Conn.lt_irrefl _
    · exact hlt
  unfold corrected
  rw [h1, h2]
  exact if_neg fun hc => h3 hc.1

theorem corrected_disconnected (h : ns.conn < .connected) :
    corrected env os ns = lostNegotiating env os (clearAftrIsp (implyPeer ns)) := by
  have h1 : abortResync (clearAftrIsp (implyPeer ns)) = clearAftrIsp (implyPeer ns) := by
    refine if_neg fun hc => ?_
    simp only [clearAftrIsp_conn, implyPeer_conn] at hc
    exact Nat.lt_asymm hc.1 h
  unfold corrected
  rw [h1]

theorem corrected_conn_of_lt (h : ns.conn < .connected) : (corrected env os ns).conn = ns.conn := by
  rw [corrected_disconnected h]
  simp

theorem le_corrected_conn (h : .connected ≤ ns.conn) : .connected ≤ (corrected env os ns).conn := by
  rw [corrected_connected h]
  unfold abortResync
  split
  · exact Nat.le_refl _
  · exact h

theorem corrected_disk (h : ns.conn < .connected) : (corrected env os ns).disk =
    (if ns.disk = .negotiating ∧ .negotiating ≤ os.disk then
      (if env.edUuidCurrent then env.newDisk else .diskless) else ns.disk) := by
  rw [corrected_disconnected h, lostNegotiating_disk (by simpa using h)]
  simp

theorem conn_lt_of_corrected (h : (corrected env os ns).conn < .connected) : ns.conn < .connected :=
  Conn.not_le.mp fun hle => Nat.not_le_of_lt h (le_corrected_conn hle)

theorem corrected_role : (corrected env os ns).role = ns.role := by simp [corrected]

theorem corrected_unconfigured (hu : ¬ UnconfiguresPaused env os ns)
    (hc : (corrected env os ns).conn = .standAlone) (hd : (corrected env os ns).disk = .diskless)
    (hrole : ns.role = .secondary) : (corrected env os ns).aftrIsp = false := by
  have hlt : ns.conn < .connected := @conn_lt_of_corrected env os ns (hc ▸ by decide)
  rw [corrected_conn_of_lt hlt] at hc
  rw [corrected_disk hlt] at hd
  have haftr : (corrected env os ns).aftrIsp = (clearAftrIsp (implyPeer ns)).aftrIsp := by
    rw [corrected_disconnected hlt, lostNegotiating_aftrIsp]
  rw [haftr, clearAftrIsp_aftrIsp]
  simp only [implyPeer_aftrIsp, implyPeer_conn, implyPeer_disk, implyPeer_role, hc, hrole, true_and, and_true]
  by_cases hnego : ns.disk = .negotiating ∧ Disk.negotiating ≤ os.disk
  · rw [if_pos hnego] at hd
    cases haf : ns.aftrIsp with
    | false => rfl
    | true =>
        refine absurd ⟨hc, hrole, haf, hnego.1, hnego.2, fun hed => ?_⟩ hu
        rwa [if_pos hed] at hd
  · rw [if_neg hnego] at hd
    simp [hd]

theorem corrected_not_negotiating (hn : ¬ NegotiatesAlone env os ns)
    (h : (corrected env os ns).conn < .connected) : (corrected env os ns).disk ≠ .negotiating := by
  have hlt : ns.conn < .connected := conn_lt_of_corrected h
  rw [corrected_disk hlt]
  by_cases hnego : ns.disk = .negotiating ∧ Disk.negotiating ≤ os.disk
  · rw [if_pos hnego]
    split
    · rename_i hed
      exact fun hnew => hn ⟨hlt, hnego.1, .inr ⟨hed, hnew⟩⟩
    · exact fun h => nomatch h
  · rw [if_neg hnego]
    exact fun hd => hn ⟨hlt, hd, .inl (Nat.not_le.mp fun hle => hnego ⟨hd, hle⟩)⟩

/-- A resync that is resumed was requested as paused, with both disks still there. -/
theorem corrected_pausing {c : Conn} (hgt : c > .connected) (h : (corrected env os ns).conn = c) :
    corrected env os ns = ns ∧ ns.disk > .failed ∧ ns.pdsk > .failed := by
  have hle : .connected ≤ ns.conn := by
    refine Conn.not_lt.mp fun hlt => ?_
    rw [corrected_conn_of_lt hlt] at h
    exact Nat.lt_asymm hgt (h ▸ hlt)
  rw [corrected_connected hle] at h ⊢
  unfold abortResync at h ⊢
  split at h
  · exact absurd (h ▸ hgt) (Conn.lt_irrefl _)
  · rename_i hab
    rw [if_neg hab]
    subst h
    refine ⟨rfl, ?_, ?_⟩
    · exact Nat.not_le.mp fun hd => hab ⟨hgt, .inl hd⟩
    · exact Nat.not_le.mp fun hd => hab ⟨hgt, .inr hd⟩

/-- The state a change leaves obeys all the rules, unless the corrections came in the wrong order. -/
theorem sane_sanitizeState (hr : ¬ ResumesUnlimited ns) (hn : ¬ NegotiatesAlone env os ns)
    (hu : ¬ UnconfiguresPaused env os ns) : Sane (sanitizeState env os ns) := by
  obtain ⟨suspFen, suspNod, heq⟩ := sanitizeState_eq env os ns
  rw [heq]
  constructor
  · dsimp only
    intro hc
    have hlt : (corrected env os ns).conn < .connected := pauseConn_lt_connected.mp hc
    have hns := conn_lt_of_corrected hlt
    refine ⟨?_, ?_, limitedPdsk_of_lt hlt _⟩
    · simp [corrected_disconnected hns, implyPeer, hns]
    · simp [corrected_disconnected hns, implyPeer, hns]
  · dsimp only
    intro hc hd hrole
    have hst := pauseConn_eq_standAlone.mp hc
    have hlt : (corrected env os ns).conn < .connected := hst ▸ by decide
    exact corrected_unconfigured hu hst ((limitedDisk_of_lt hlt _).symm.trans hd) (corrected_role ▸ hrole)
  · dsimp only
    intro hc
    have hgt := pauseConn_gt_connected.mp hc
    exact ⟨limitedDisk_of_gt hgt _, limitedPdsk_of_gt hgt _⟩
  · dsimp only
    intro hc
    have hlt := pauseConn_lt_connected.mp hc
    rw [limitedDisk_of_lt hlt]
    exact corrected_not_negotiating hn hlt
  · dsimp only
    apply limitedDisk_pauseConn
    rintro ⟨hp, hc, hd⟩
    obtain ⟨hself, -, hpd⟩ := corrected_pausing (by decide) hc
    rw [hself] at hp hc hd
    exact hr ⟨hp, .inr ⟨hc, hpd, hd⟩⟩
  · dsimp only
    apply limitedPdsk_pauseConn
    rintro ⟨hp, hc, hd⟩
    obtain ⟨hself, hdd, -⟩ := corrected_pausing (by decide) hc
    rw [hself] at hp hc hd
    exact hr ⟨hp, .inl ⟨hc, hdd, hd⟩⟩
  · exact pauseConn_pauseConn _ _

/-! ## What the rules guarantee -/

theorem Sane.syncSource (h : Sane s) (hc : s.conn = .syncSource) :
    s.disk = .upToDate ∧ s.pdsk = .inconsistent := by
  have hd := h.disk
  have hp := h.pdsk
  rw [hc] at hd hp
  constructor
  · rw [← hd]
    cases s.disk <;> rfl
  · rw [← hp]
    cases s.pdsk <;> rfl

theorem Sane.syncTarget (h : Sane s) (hc : s.conn = .syncTarget) :
    s.disk = .inconsistent ∧ s.pdsk = .upToDate := by
  have hd := h.disk
  have hp := h.pdsk
  rw [hc] at hd hp
  constructor
  · rw [← hd]
    cases s.disk <;> rfl
  · rw [← hp]
    cases s.pdsk <;> rfl

end Drbd.State
