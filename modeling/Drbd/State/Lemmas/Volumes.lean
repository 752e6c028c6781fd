import Drbd.State.Lemmas.Again

/-!
# One volume after the other

What a volume's turn in `conn_set_state()` sees of the turns before it: the susp bits, the highest role
of the peer, and STATE_SENT.
-/

namespace Drbd.State

variable {env : Env} {os ns m n s : DrbdState} {c d : Connection} {r : Request} {fl : ChgStateFlags}
  {v : Volume} {i : Nat} {σ τ : Susp}

/-! ## The susp bits -/

theorem implyPeer_withSusp : implyPeer (ns.withSusp τ) = (implyPeer ns).withSusp τ := by
  unfold implyPeer
  rw [apply_ite (fun s : DrbdState => s.withSusp τ)]
  rfl

theorem clearAftrIsp_withSusp : clearAftrIsp (ns.withSusp τ) = (clearAftrIsp ns).withSusp τ := by
  unfold clearAftrIsp
  rw [apply_ite (fun s : DrbdState => s.withSusp τ)]
  rfl

theorem abortResync_withSusp : abortResync (ns.withSusp τ) = (abortResync ns).withSusp τ := by
  unfold abortResync
  rw [apply_ite (fun s : DrbdState => s.withSusp τ)]
  rfl

theorem lostNegotiating_withSusp :
    lostNegotiating env (os.withSusp σ) (ns.withSusp τ) = (lostNegotiating env os ns).withSusp τ := by
  unfold lostNegotiating
  rw [apply_ite (fun s : DrbdState => s.withSusp τ), apply_ite (fun s : DrbdState => s.withSusp τ)]
  rfl

theorem corrected_withSusp :
    corrected env (os.withSusp σ) (ns.withSusp τ) = (corrected env os ns).withSusp τ := by
  unfold corrected
  rw [implyPeer_withSusp, clearAftrIsp_withSusp, abortResync_withSusp, lostNegotiating_withSusp]

/-- Sanitizing reads neither the role of the peer on other volumes nor STATE_SENT. -/
theorem sanitizeState_env (b t : Bool) :
    sanitizeState { env with otherPeerPrimary := b, stateSent := t } os ns = sanitizeState env os ns := by
  unfold sanitizeState suspendIo lostNegotiating fencingPolicy
  rfl

theorem sanitizeState_withSusp (env : Env) (os ns : DrbdState) (σ τ : Susp) :
    ∃ ρ, sanitizeState env (os.withSusp σ) (ns.withSusp τ) = (sanitizeState env os ns).withSusp ρ := by
  obtain ⟨fen, nod, h⟩ := sanitizeState_eq env os ns
  obtain ⟨fen', nod', h'⟩ := sanitizeState_eq env (os.withSusp σ) (ns.withSusp τ)
  rw [corrected_withSusp] at h'
  rw [h, h']
  generalize corrected env os ns = a
  exact ⟨⟨τ.susp, nod', fen'⟩, rfl⟩

theorem keepDisk_withSusp : keepDisk fl (os.withSusp σ) (ns.withSusp τ) = (keepDisk fl os ns).withSusp τ := by
  unfold keepDisk
  rw [apply_ite (fun s : DrbdState => s.withSusp τ)]
  rfl

theorem wanted_withSusp (env : Env) (r : Request) (fl : ChgStateFlags) (os : DrbdState) (σ : Susp) :
    ∃ ρ, wanted env r fl (os.withSusp σ) = (wanted env r fl os).withSusp ρ := by
  have hreq : r.apply (os.withSusp σ) = (r.apply os).withSusp
      ⟨r.susp.getD σ.susp, r.suspNod.getD σ.nod, r.suspFen.getD σ.fen⟩ := rfl
  obtain ⟨ρ, h⟩ := sanitizeState_withSusp env os (r.apply os) σ
    ⟨r.susp.getD σ.susp, r.suspNod.getD σ.nod, r.suspFen.getD σ.fen⟩
  refine ⟨ρ, ?_⟩
  unfold wanted
  rw [hreq, h, keepDisk_withSusp]

theorem isValidTransition_withSusp :
    isValidTransition (os.withSusp σ) (ns.withSusp τ) = isValidTransition os ns := rfl

theorem isValidState_withSusp : isValidState env (os.withSusp σ) (ns.withSusp τ) = isValidState env os ns := rfl

theorem isValidSoftTransition_withSusp :
    isValidSoftTransition env (os.withSusp σ) (ns.withSusp τ) = isValidSoftTransition env os ns := rfl

/-! ## The checks of a soft change -/

theorem softChecks_ok : (softChecks env os ns).ok ↔
    ((isValidState env os ns).ok ∨ isValidState env os ns = isValidState env os os) ∧
      (isValidSoftTransition env os ns).ok := by
  unfold softChecks
  dsimp only
  by_cases hv : (isValidState env os ns).ok
  · rw [if_pos hv]
    simp [hv]
  · rw [if_neg hv]
    by_cases he : isValidState env os os = isValidState env os ns
    · rw [if_pos he]
      simp [he]
    · rw [if_neg he]
      simp [hv, Ne.symm he]

theorem Rv.ok_ite_imp {p q : Prop} [Decidable p] [Decidable q] {rv x y : Rv} (hrv : rv.ok = false)
    (hp : q → p) (hx : x.ok → y.ok) (h : (if p then rv else x).ok) : (if q then rv else y).ok := by
  split at h
  · rw [hrv] at h
    cases h
  · rename_i hnp
    rw [if_neg fun hq => hnp (hp hq)]
    exact hx h

/-- While STATE_SENT is being cleared no soft transition gets refused that was not before. -/
theorem isValidSoftTransition_mono {b t : Bool} (ht : t → env.stateSent)
    (h : (isValidSoftTransition env os ns).ok) :
    (isValidSoftTransition { env with otherPeerPrimary := b, stateSent := t } os ns).ok := by
  revert h
  unfold isValidSoftTransition
  exact Rv.ok_ite_imp rfl id <| Rv.ok_ite_imp rfl id <| Rv.ok_ite_imp rfl id <| Rv.ok_ite_imp rfl id <|
    Rv.ok_ite_imp rfl id <| Rv.ok_ite_imp rfl (fun hc => ⟨ht hc.1, hc.2⟩) id

/-! ## The turns of the two loops -/

/-- The state that the check looks at. -/
def Connection.wanted (c : Connection) (r : Request) (fl : ChgStateFlags) (v : Volume) : DrbdState :=
  State.wanted (c.env v) r fl (c.readState v)

/-- The state that `__drbd_set_state()` makes of it. -/
def Connection.wantedAgain (c : Connection) (r : Request) (fl : ChgStateFlags) (v : Volume) : DrbdState :=
  sanitizeState (c.env v) (c.readState v) (c.wanted r fl v)

def Connection.Accepts (c : Connection) (r : Request) (fl : ChgStateFlags) (v : Volume) : Prop :=
  c.wanted r fl v = c.readState v ∨ (checkChange (c.env v) fl.hard (c.readState v) (c.wanted r fl v)).ok

def Connection.Succeeds (c : Connection) (r : Request) (fl : ChgStateFlags) (v : Volume) : Prop :=
  c.wantedAgain r fl v = c.readState v ∨
    (checkChange (c.env v) fl.hard (c.readState v) (c.wantedAgain r fl v)).ok

theorem connIsValidTransition_go_ok {rv : Rv} {vs : List Volume} (hrv : rv.ok) :
    (connIsValidTransition.go c r fl rv vs).ok ↔ ∀ v ∈ vs, c.Accepts r fl v := by
  induction vs generalizing rv with
  | nil => simp [connIsValidTransition.go, hrv]
  | cons v vs ih =>
      rw [List.forall_mem_cons]
      unfold connIsValidTransition.go
      dsimp only
      by_cases heq : State.wanted (c.env v) r fl (c.readState v) = c.readState v
      · rw [if_pos heq, ih hrv]
        exact (and_iff_right (.inl heq)).symm
      · rw [if_neg heq]
        by_cases hok : (checkChange (c.env v) fl.hard (c.readState v)
            (State.wanted (c.env v) r fl (c.readState v))).ok
        · rw [if_pos hok, ih hok]
          exact (and_iff_right (.inr hok)).symm
        · rw [if_neg hok]
          exact iff_of_false hok fun h => h.1.elim heq hok

theorem connIsValidTransition_ok :
    (connIsValidTransition c r fl).ok ↔ ∀ v ∈ c.volumes, c.Accepts r fl v :=
  connIsValidTransition_go_ok rfl

/-- The connection after the turn of volume `i`, whatever the checks say. -/
def applyVolume (r : Request) (fl : ChgStateFlags) (c : Connection) (i : Nat) : Connection :=
  match c.volumes[i]? with
  | none => c
  | some v => c.changeVolume i (c.readState v) (c.wantedAgain r fl v)

/-- The connection when the loop of `conn_set_state()` comes to volume `i`. -/
def Connection.applied (c : Connection) (r : Request) (fl : ChgStateFlags) (i : Nat) : Connection :=
  (List.range i).foldl (applyVolume r fl) { c with cstate := r.conn.getD c.cstate }

theorem applied_succ : c.applied r fl (i + 1) = applyVolume r fl (c.applied r fl i) i := by
  unfold Connection.applied
  rw [List.range_succ, List.foldl_append]
  rfl

theorem setVolumeState_some (hv : c.volumes[i]? = some v) (h : c.Succeeds r fl v) :
    setVolumeState r fl c i = some (applyVolume r fl c i) := by
  have hok : (drbdSetState (c.env v) fl.hard (c.readState v) (c.wanted r fl v)).1.ok :=
    drbdSetState_ok_iff.mpr h
  unfold setVolumeState applyVolume
  simp only [hv]
  rw [← Connection.wanted, if_pos hok]
  exact congrArg (fun s => some (c.changeVolume i (c.readState v) s)) (drbdSetState_ok hok).1

theorem setVolumeState_none (hv : c.volumes[i]? = some v) (h : ¬ c.Succeeds r fl v) :
    setVolumeState r fl c i = none := by
  have hno : ¬ (drbdSetState (c.env v) fl.hard (c.readState v) (c.wanted r fl v)).1.ok := fun hok =>
    h (drbdSetState_ok_iff.mp hok)
  unfold setVolumeState
  simp only [hv]
  rw [← Connection.wanted, if_neg hno]

/-! ## What the turns before have changed -/

/-- The connection before the turn of volume `i`, compared with the connection before the change. -/
structure Frame (c d : Connection) (i : Nat) : Prop where
  netConf : d.netConf = c.netConf
  agreedProVersion : d.agreedProVersion = c.agreedProVersion
  suspendOnNoData : d.suspendOnNoData = c.suspendOnNoData
  stateSent : d.stateSent → c.stateSent
  volumes : ∀ j, i ≤ j → d.volumes[j]? = c.volumes[j]?

theorem Frame.changeVolume (h : Frame c d i) (os s : DrbdState) : Frame c (d.changeVolume i os s) (i + 1) := by
  unfold Connection.changeVolume
  split
  · exact ⟨h.netConf, h.agreedProVersion, h.suspendOnNoData, h.stateSent, fun j hj => h.volumes j (by omega)⟩
  · have hset : Frame c (d.setVolume i s) (i + 1) := by
      refine ⟨h.netConf, h.agreedProVersion, h.suspendOnNoData, h.stateSent, fun j hj => ?_⟩
      rw [← h.volumes j (by omega)]
      exact List.getElem?_modify_ne _ _ (by omega)
    unfold Connection.wakeRoleChanges
    split
    · exact ⟨hset.netConf, hset.agreedProVersion, hset.suspendOnNoData, fun hs => (nomatch hs), hset.volumes⟩
    · exact hset

theorem frame_applied (c : Connection) (r : Request) (fl : ChgStateFlags) (i : Nat) :
    Frame c (c.applied r fl i) i := by
  induction i with
  | zero => exact ⟨rfl, rfl, rfl, id, fun _ _ => rfl⟩
  | succ i ih =>
      rw [applied_succ]
      unfold applyVolume
      split
      · exact ⟨ih.netConf, ih.agreedProVersion, ih.suspendOnNoData, ih.stateSent,
          fun j hj => ih.volumes j (by omega)⟩
      · exact ih.changeVolume _ _

theorem Frame.env_eq (h : Frame c d i) :
    d.env v = { c.env v with otherPeerPrimary := d.peerPrimary, stateSent := d.stateSent } := by
  unfold Connection.env
  rw [h.netConf, h.agreedProVersion, h.suspendOnNoData]

/-- The first turns of the loop lead to `applied`, or one of them runs into BUG(). -/
theorem foldlM_setVolumeState {k : Nat} (hk : k ≤ c.volumes.length) :
    ((∀ i v, i < k → c.volumes[i]? = some v → (c.applied r fl i).Succeeds r fl v) ∧
      (List.range k).foldlM (setVolumeState r fl) { c with cstate := r.conn.getD c.cstate } =
        some (c.applied r fl k)) ∨
    ((¬ ∀ i v, i < k → c.volumes[i]? = some v → (c.applied r fl i).Succeeds r fl v) ∧
      (List.range k).foldlM (setVolumeState r fl) { c with cstate := r.conn.getD c.cstate } = none) := by
  induction k with
  | zero => exact .inl ⟨fun i v hi => absurd hi (Nat.not_lt_zero i), rfl⟩
  | succ k ih =>
      have hv : (c.applied r fl k).volumes[k]? = c.volumes[k]? := (frame_applied c r fl k).volumes k (Nat.le_refl k)
      obtain ⟨v, hvk⟩ : ∃ v, c.volumes[k]? = some v := ⟨_, List.getElem?_eq_getElem hk⟩
      rw [List.range_succ, List.foldlM_append]
      rcases ih (by omega) with ⟨hall, heq⟩ | ⟨hnot, heq⟩
      · by_cases hs : (c.applied r fl k).Succeeds r fl v
        · left
          refine ⟨fun i w hi hw => ?_, ?_⟩
          · rcases Nat.lt_succ_iff_lt_or_eq.mp hi with hlt | rfl
            · exact hall i w hlt hw
            · rw [hvk, Option.some.injEq] at hw
              exact hw ▸ hs
          · rw [heq, applied_succ]
            simp [setVolumeState_some (hv.trans hvk) hs]
        · right
          refine ⟨fun hc => hs (hc k v (Nat.lt_succ_self k) hvk), ?_⟩
          rw [heq]
          simp [setVolumeState_none (hv.trans hvk) hs]
      · right
        refine ⟨fun hc => hnot fun i w hi hw => hc i w (by omega) hw, ?_⟩
        rw [heq]
        rfl

/-- `conn_set_state()` goes through when every volume's turn does. -/
theorem connSetState_isSome : (connSetState c r fl).isSome ↔
    ∀ i v, c.volumes[i]? = some v → (c.applied r fl i).Succeeds r fl v := by
  have hlt {i v} (hv : c.volumes[i]? = some v) : i < c.volumes.length := (List.getElem?_eq_some_iff.mp hv).1
  unfold connSetState
  rcases foldlM_setVolumeState (Nat.le_refl c.volumes.length) with ⟨hall, heq⟩ | ⟨hnot, heq⟩
  · rw [heq]
    exact iff_of_true rfl fun i v hv => hall i v (hlt hv) hv
  · rw [heq]
    exact iff_of_false (fun h => nomatch h) fun h => hnot fun i v _ hv => h i v hv

/-! ## The turn of one volume -/

/-- The volume's turn is not the one that was checked: the check had passed it over, or sanitizing again
changes the state, and `is_valid_soft_transition()` refuses it now. -/
def RefusedAgain (c d : Connection) (r : Request) (fl : ChgStateFlags) (v : Volume) : Prop :=
  (c.wanted r fl v = c.readState v ∨ d.wantedAgain r fl v ≠ d.wanted r fl v) ∧
    d.wantedAgain r fl v ≠ d.readState v ∧
    ¬ (isValidSoftTransition (d.env v) (d.readState v) (d.wantedAgain r fl v)).ok

/-- The highest role of the peer is another than when the volume was checked, and with it
`is_valid_state()` finds a fault that the old state does not have. -/
def PeerRoleFault (c d : Connection) (r : Request) (fl : ChgStateFlags) (v : Volume) : Prop :=
  d.peerPrimary ≠ c.peerPrimary ∧
    ¬ (isValidState (d.env v) (d.readState v) (d.wantedAgain r fl v)).ok ∧
    isValidState (d.env v) (d.readState v) (d.wantedAgain r fl v) ≠
      isValidState (d.env v) (d.readState v) (d.readState v)

theorem checkChange_ok {hard : Bool} : (checkChange env hard os ns).ok ↔
    (isValidTransition os ns).ok ∧ (hard = false → (softChecks env os ns).ok) := by
  unfold checkChange
  dsimp only
  by_cases h : (isValidTransition os ns).ok <;> cases hard <;> simp [h]

theorem isValidTransition_self (s : DrbdState) : (isValidTransition s s).ok := by
  rw [isValidTransition_ok]
  refine ⟨fun h => ?_, ?_⟩
  · rw [h.1] at h
    cases h.2
  · unfold isValidConnTransition
    rw [if_pos rfl]
    rfl

/-- In a later turn the same state is worked out, but for the susp bits. -/
theorem Frame.wanted (h : Frame c d i) (r : Request) (fl : ChgStateFlags) (v : Volume) :
    ∃ σ τ ρ, d.readState v = (c.readState v).withSusp σ ∧
    d.wanted r fl v = (c.wanted r fl v).withSusp τ ∧ d.wantedAgain r fl v = (c.wantedAgain r fl v).withSusp ρ := by
  have hread : d.readState v = (c.readState v).withSusp d.susp := rfl
  have hw : d.wanted r fl v = State.wanted (c.env v) r fl ((c.readState v).withSusp d.susp) := by
    unfold Connection.wanted State.wanted
    rw [h.env_eq, hread, sanitizeState_env]
  obtain ⟨τ, hτ⟩ := wanted_withSusp (c.env v) r fl (c.readState v) d.susp
  rw [hτ] at hw
  obtain ⟨ρ, hρ⟩ := sanitizeState_withSusp (c.env v) (c.readState v) (c.wanted r fl v) d.susp τ
  refine ⟨d.susp, τ, ρ, hread, hw, ?_⟩
  unfold Connection.wantedAgain
  rw [h.env_eq, hw, hread, sanitizeState_env]
  exact hρ

theorem Frame.isValidTransition (h : Frame c d i) (hacc : c.Accepts r fl v) :
    (isValidTransition (d.readState v) (d.wantedAgain r fl v)).ok := by
  obtain ⟨σ, τ, ρ, hread, -, hagain⟩ := h.wanted r fl v
  rw [hread, hagain, isValidTransition_withSusp]
  refine (again_wanted (c.env v) r fl (c.readState v)).isValidTransition ?_
  rcases hacc with heq | hok
  · rw [← Connection.wanted, heq]
    exact isValidTransition_self _
  · exact (checkChange_ok.mp hok).1

/-- A soft transition that is refused in the volume's turn is not the one that was checked. -/
theorem Frame.soft (h : Frame c d i) (hhard : fl.hard = false) (hacc : c.Accepts r fl v)
    (hne : c.wanted r fl v ≠ c.readState v) (hsame : d.wantedAgain r fl v = d.wanted r fl v) :
    (isValidSoftTransition (d.env v) (d.readState v) (d.wantedAgain r fl v)).ok := by
  obtain ⟨σ, τ, ρ, hread, hw, -⟩ := h.wanted r fl v
  rw [hsame, hread, hw, isValidSoftTransition_withSusp, h.env_eq]
  refine isValidSoftTransition_mono h.stateSent ?_
  exact (softChecks_ok.mp ((checkChange_ok.mp (hacc.resolve_left hne)).2 hhard)).2

/-- A fault of the new state that the old one does not have comes with another role of the peer. -/
theorem Frame.fault (h : Frame c d i) (hhard : fl.hard = false) (hacc : c.Accepts r fl v)
    (hpeer : d.peerPrimary = c.peerPrimary) :
    (isValidState (d.env v) (d.readState v) (d.wantedAgain r fl v)).ok ∨
      isValidState (d.env v) (d.readState v) (d.wantedAgain r fl v) =
        isValidState (d.env v) (d.readState v) (d.readState v) := by
  obtain ⟨σ, τ, ρ, hread, hw, hagain⟩ := h.wanted r fl v
  have henv (os ns : DrbdState) : isValidState (d.env v) os ns = isValidState (c.env v) os ns := by
    rw [h.env_eq, hpeer]
    rfl
  rw [henv, henv, hread, hagain, isValidState_withSusp, isValidState_withSusp]
  rcases (again_wanted (c.env v) r fl (c.readState v)).isValidState (c.env v) wanted_role_again
    wanted_peer_again with hs | hs
  · left
    unfold Connection.wantedAgain Connection.wanted
    rw [hs]
    rfl
  · have heq : isValidState (c.env v) (c.readState v) (c.wantedAgain r fl v) =
        isValidState (c.env v) (c.readState v) (c.wanted r fl v) := hs
    rw [heq]
    rcases hacc with hsame | hok
    · rw [hsame]
      exact .inr rfl
    · exact (softChecks_ok.mp ((checkChange_ok.mp hok).2 hhard)).1

/-- The turn of an accepted volume goes through, unless it is refused again or has a new fault. -/
theorem Frame.succeeds_iff (h : Frame c d i) (hacc : c.Accepts r fl v) :
    d.Succeeds r fl v ↔ (fl.hard = false → ¬ RefusedAgain c d r fl v ∧ ¬ PeerRoleFault c d r fl v) := by
  unfold Connection.Succeeds
  rw [checkChange_ok, softChecks_ok, and_iff_right (h.isValidTransition hacc)]
  constructor
  · rintro (heq | hok) hhard
    · refine ⟨fun hr => hr.2.1 heq, fun hp => hp.2.2 ?_⟩
      rw [heq]
    · obtain ⟨hstate, hsoft⟩ := hok hhard
      exact ⟨fun hr => hr.2.2 hsoft, fun hp => hstate.elim hp.2.1 hp.2.2⟩
  · intro hn
    by_cases heq : d.wantedAgain r fl v = d.readState v
    · exact .inl heq
    · right
      intro hhard
      obtain ⟨hr, hp⟩ := hn hhard
      constructor
      · by_cases hpeer : d.peerPrimary = c.peerPrimary
        · exact h.fault hhard hacc hpeer
        · by_contra hno
          rw [not_or] at hno
          exact hp ⟨hpeer, hno.1, hno.2⟩
      · by_contra hno
        refine hr ⟨?_, heq, hno⟩
        by_contra hboth
        rw [not_or, not_not] at hboth
        exact hno (h.soft hhard hacc hboth.1 hboth.2)

end Drbd.State
