import Drbd.Lib.System
import Drbd.State.Device
import Drbd.State.Lemmas.Settled

/-!
# The stored state of a device
-/

namespace Drbd.State

open Lib

variable {d d' : Device} {e : Event} {es : List Event}

/-- What the state of a device and the flags of its meta data are meant to satisfy at any time. -/
structure Coherent (d : Device) : Prop where
  syncSource : d.state.conn = .syncSource → d.state.disk = .upToDate ∧ d.state.pdsk = .inconsistent
  syncTarget : d.state.conn = .syncTarget → d.state.disk = .inconsistent ∧ d.state.pdsk = .upToDate
  disconnected : d.state.conn < .connected → d.state.peer = .unknown ∧ d.state.peerIsp = false
  fixed : ∀ env, sanitizeState env d.state d.state = d.state
  mdConsistent : d.state.conn = .syncTarget → d.mdf.consistent = false

/-- The corrections of the requested state do not come in the wrong order. -/
def Orderly (d : Device) : Event → Prop
  | .setState env _ _ ns =>
      ¬ ResumesUnlimited ns ∧ ¬ NegotiatesAlone env d.state ns ∧ ¬ UnconfiguresPaused env d.state ns
  | _ => True

instance : ∀ d e, Decidable (Orderly d e)
  | _, .setState .. => inferInstanceAs (Decidable (_ ∧ _))
  | _, .resourceSusp .. => inferInstanceAs (Decidable True)
  | _, .attach _ => inferInstanceAs (Decidable True)

def DeviceInv (d : Device) : Prop :=
  Sane d.state ∧ (d.state.conn = .syncTarget → d.mdf.consistent = false)

theorem DeviceInv.coherent (h : DeviceInv d) : Coherent d where
  syncSource := h.1.syncSource
  syncTarget := h.1.syncTarget
  disconnected hc := ⟨(h.1.imply hc).2.1, (h.1.imply hc).1⟩
  fixed := h.1.sanitizeState
  mdConsistent := h.2

/-- A state change writes the flags with the state they are about. -/
theorem updateMdFlags_syncTarget {s : DrbdState} (hs : Sane s) (hc : s.conn = .syncTarget)
    (crashedPrimary : Bool) (mdf : MdFlags) : (updateMdFlags crashedPrimary s mdf).consistent = false := by
  have hd := (hs.syncTarget hc).1
  unfold updateMdFlags
  rw [hd]
  rfl

theorem DeviceInv.setState {env : Env} {hard crashedPrimary : Bool} {ns : DrbdState} (hi : DeviceInv d)
    (ho : Orderly d (.setState env hard crashedPrimary ns))
    (hs : step d (.setState env hard crashedPrimary ns) = some d') : DeviceInv d' := by
  simp only [step, Option.some.injEq] at hs
  have hsane (hok : (drbdSetState env hard d.state ns).1.ok) :
      Sane (drbdSetState env hard d.state ns).2 := by
    rw [(drbdSetState_ok hok).1]
    exact sane_sanitizeState ho.1 ho.2.1 ho.2.2
  have hsame := @drbdSetState_not_ok env d.state ns hard
  generalize drbdSetState env hard d.state ns = r at hs hsane hsame
  obtain ⟨rv, s⟩ := r
  subst hs
  by_cases hok : rv.ok
  · by_cases hne : s = d.state
    · simpa [hne] using hi
    · rw [if_pos ⟨hok, hne⟩]
      exact ⟨hsane hok, fun hc => updateMdFlags_syncTarget (hsane hok) hc _ _⟩
  · rw [if_neg (fun h => hok h.1), show s = d.state from hsame hok]
    exact hi

theorem DeviceInv.step (hi : DeviceInv d) (ho : Orderly d e) (hs : step d e = some d') : DeviceInv d' := by
  cases e with
  | setState env hard crashedPrimary ns => exact hi.setState ho hs
  | resourceSusp susp suspNod suspFen =>
      simp only [State.step, Option.some.injEq] at hs
      subst hs
      exact ⟨⟨hi.1.imply, hi.1.aftr, hi.1.abort, hi.1.nego, hi.1.disk, hi.1.pdsk, hi.1.pause⟩, hi.2⟩
  | attach mdf =>
      simp only [State.step] at hs
      split at hs
      · rename_i hatt
        cases hs
        refine ⟨hi.1, fun hc => ?_⟩
        have hd := (hi.1.syncTarget hc).1
        rw [hatt] at hd
        cases hd
      · cases hs

theorem sane_defaultState : Sane defaultState := by
  constructor <;> decide

/-- In every run in which no request makes the corrections come in the wrong order, the state of the
device stays coherent. -/
theorem device_coherent (mdf : MdFlags) (ho : Meets step Orderly ⟨defaultState, mdf⟩ es)
    (h : run step ⟨defaultState, mdf⟩ es = some d) : Coherent d := by
  have h0 : DeviceInv ⟨defaultState, mdf⟩ := ⟨sane_defaultState, fun hc => nomatch hc⟩
  exact (run_invariant (fun hi hc hs => DeviceInv.step hi hc hs) h0 ho h).coherent

/-! ## A resync that is resumed with the disk states of the pause -/

def quietEnv : Env where
  netConf := some ⟨false, false⟩
  fencing := .dontCare
  suspendOnNoData := false
  agreedProVersion := 101
  openCnt := 0
  otherPeerPrimary := false
  edUuidCurrent := true
  newDisk := .upToDate
  newPdsk := .upToDate
  stateSent := false

def noMdFlags : MdFlags := ⟨false, false, false, false, false, false, false⟩

/-- The device connects and attaches an outdated disk; then the last state is requested. -/
def attachOutdated (last : DrbdState) : List Event :=
  [.setState quietEnv true false { defaultState with conn := .unconnected },
    .setState quietEnv true false { defaultState with conn := .wfConnection },
    .setState quietEnv true false { defaultState with conn := .wfReportParams, disk := .attaching },
    .attach noMdFlags,
    .setState quietEnv true false { defaultState with conn := .wfReportParams, disk := .outdated },
    .setState quietEnv true false last]

/-- Sync target as it is requested by `drbd_start_resync()`. -/
def startResync : DrbdState :=
  { defaultState with peer := .primary, conn := .syncTarget, disk := .inconsistent, pdsk := .upToDate }

theorem device_coherent_resync :
    ∃ d, run step ⟨defaultState, noMdFlags⟩ (attachOutdated startResync) = some d ∧
      d.state.conn = .syncTarget ∧ Coherent d := by
  have hrun : (run step ⟨defaultState, noMdFlags⟩ (attachOutdated startResync)).map
      (fun d => d.state.conn) = some .syncTarget := by decide
  obtain ⟨d, hd, hc⟩ := Option.map_eq_some_iff.mp hrun
  exact ⟨d, hd, hc, device_coherent noMdFlags (by decide) hd⟩

/-- Paused sync target without a reason to pause: the disk stays outdated, the resync runs and the
meta data call the disk consistent. -/
theorem resume_incoherent :
    ¬ ∀ (mdf : MdFlags) (es : List Event) (d : Device),
      run step ⟨defaultState, mdf⟩ es = some d → Coherent d := by
  intro hclaim
  have hrun : (run step ⟨defaultState, noMdFlags⟩ (attachOutdated
      { startResync with conn := .pausedSyncT, disk := .outdated })).map
        (fun d => (d.state.conn, d.mdf.consistent)) = some (.syncTarget, true) := by decide
  obtain ⟨d, hd, hc⟩ := Option.map_eq_some_iff.mp hrun
  rw [Prod.mk.injEq] at hc
  have hno := (hclaim _ _ _ hd).mdConsistent hc.1
  rw [hc.2] at hno
  cases hno

end Drbd.State
