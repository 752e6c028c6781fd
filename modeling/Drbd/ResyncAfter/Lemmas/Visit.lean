import Drbd.ResyncAfter.Lemmas.Pause

/-!
# Visiting the devices one after the other
-/

namespace Drbd.ResyncAfter

open State Lib Relation

variable {env : Nat → Env} {fuel : Nat} {ds ds' : Devices} {d d' e : Device} {a : Int} {v : Bool × Nat}

/-- Every chain of dependencies is shorter than the fuel. -/
def Ready (fuel : Nat) (ds : Devices) : Prop := ∀ a, EndsWithin (Follows ds) fuel a

/-- The devices after some were paused or resumed: what was diskless still is. -/
structure Kept (ds ds' : Devices) : Prop where
  minors : ds'.map (·.minor) = ds.map (·.minor)
  none : ∀ a, minorToDevice ds a = none → minorToDevice ds' a = none
  some : ∀ a d, minorToDevice ds a = some d → ∃ d', minorToDevice ds' a = some d' ∧ d'.ldev = d.ldev ∧
    (d.state.disk = .diskless → d'.state.disk = .diskless)

theorem Kept.refl (ds : Devices) : Kept ds ds := ⟨rfl, fun _ h => h, fun _ d h => ⟨d, h, rfl, id⟩⟩

theorem Kept.trans {ds'' : Devices} (h : Kept ds ds') (h' : Kept ds' ds'') : Kept ds ds'' where
  minors := h'.minors.trans h.minors
  none a ha := h'.none a (h.none a ha)
  some a d hd := by
    obtain ⟨d', hd', hl, hk⟩ := h.some a d hd
    obtain ⟨d'', hd'', hl', hk'⟩ := h'.some a d' hd'
    exact ⟨d'', hd'', hl'.trans hl, fun hdl => hk' (hk hdl)⟩

/-- A device of the later list, with what it was. -/
theorem Kept.before (h : Kept ds ds') (hd' : minorToDevice ds' a = Option.some d') :
    ∃ d, minorToDevice ds a = Option.some d ∧ d'.ldev = d.ldev ∧
      (d.state.disk = .diskless → d'.state.disk = .diskless) := by
  cases hd : minorToDevice ds a with
  | none => rw [h.none a hd] at hd'; simp at hd'
  | some d =>
      obtain ⟨e, he, hl, hk⟩ := h.some a d hd
      rw [hd', Option.some.injEq] at he
      subst he
      exact ⟨d, rfl, hl, hk⟩

theorem Kept.shrinks (h : Kept ds ds') : Shrinks ds ds' := by
  intro a b hab
  obtain ⟨d', hd', hatt, hr⟩ := hab
  obtain ⟨d, hd, hl, hk⟩ := h.before hd'
  exact ⟨d, hd, ⟨hl ▸ hatt.1, fun hdl => hatt.2 (hk hdl)⟩, hl ▸ hr⟩

theorem Kept.ready (h : Kept ds ds') (hr : Ready fuel ds) : Ready fuel ds' :=
  fun a => (hr a).mono_rel h.shrinks

theorem kept_store {s' : DrbdState} (hd : minorToDevice ds a = some d)
    (hk : d.state.disk = .diskless → s'.disk = .diskless) : Kept ds (store ds { d with state := s' }) := by
  have hm : (d.minor : Int) = a := minorToDevice_minor hd
  refine ⟨store_minors, fun b hb => ?_, fun b e he => ?_⟩
  · rw [minorToDevice_store, hb]
    simp
  · by_cases hab : a = b
    · subst hab
      rw [hd, Option.some.injEq] at he
      subst he
      refine ⟨{ d with state := s' }, ?_, rfl, hk⟩
      rw [minorToDevice_store, hd]
      exact if_pos hm
    · refine ⟨e, ?_, rfl, id⟩
      rw [minorToDevice_store, he]
      exact if_neg (fun h => hab (hm.symm.trans h))

/-! ## One visit -/

/-- `true`: pause, `false`: resume -/
def choiceOf (fuel : Nat) : Bool → Devices → Device → Option (Option Bool)
  | true => pauseChoice fuel
  | false => resumeChoice fuel

def visited (env : Nat → Env) (fuel : Nat) (v : Bool × Nat) (ds : Devices) : Bool × Devices :=
  match minorToDevice ds v.2 with
  | none => (false, ds)
  | some odev => (visit (choiceOf fuel v.1) env ds odev).getD (false, ds)

/-- A visit that sets `aftr_isp` of the device `d`. -/
structure Sets (fuel : Nat) (v : Bool × Nat) (ds : Devices) (d : Device) (s' : DrbdState) : Prop where
  found : minorToDevice ds v.2 = some d
  aftrSet : AftrSet v.1 d.state s'
  may : maySyncNow ds fuel d = some (!v.1)
  aftrIsp : v.1 = false → d.state.aftrIsp = true

theorem choiceOf_some {b : Bool} (h : choiceOf fuel v.1 ds d = some (some b)) :
    ¬ Unconfigured d.state ∧ b = v.1 ∧ maySyncNow ds fuel d = some (!v.1) ∧
      (v.1 = false → d.state.aftrIsp = true) := by
  obtain ⟨pause, minor⟩ := v
  cases pause with
  | true =>
      simp only [choiceOf, pauseChoice] at h
      split at h
      · simp at h
      · rename_i hu
        cases hm : maySyncNow ds fuel d with
        | none => simp [hm] at h
        | some may => cases may <;> simp_all
  | false =>
      simp only [choiceOf, resumeChoice] at h
      split at h
      · simp at h
      · rename_i hu
        split at h
        · cases hm : maySyncNow ds fuel d with
          | none => simp [hm] at h
          | some may => cases may <;> simp_all
        · simp at h

/-- What `__drbd_set_state()` does with `aftr_isp`. -/
theorem setAftrIsp_spec (env : Env) (b : Bool) (hu : ¬ Unconfigured d.state) :
    (setAftrIsp env d b).2 = { d with state := sanitizeState env d.state { d.state with aftrIsp := b } } ∧
      ((setAftrIsp env d b).1 ≠ .nothingToDo →
        (sanitizeState env d.state { d.state with aftrIsp := b }).conn ≠ d.state.conn) := by
  obtain ⟨h2, h1⟩ := @drbdSetState_aftrIsp env d.state b hu
  have hrv : (setAftrIsp env d b).1 = (drbdSetState env true d.state { d.state with aftrIsp := b }).1 := by
    unfold setAftrIsp
    rfl
  have hd : (setAftrIsp env d b).2 =
      { d with state := (drbdSetState env true d.state { d.state with aftrIsp := b }).2 } := by
    unfold setAftrIsp
    rfl
  rw [hrv, hd, h2]
  exact ⟨rfl, h1⟩

/-- What a visit does: nothing, or `aftr_isp` is set; there was something to do only if the connection
state changes. -/
theorem visited_cases (env : Nat → Env) (fuel : Nat) (v : Bool × Nat) (ds : Devices) :
    visited env fuel v ds = (false, ds) ∨
      ∃ d s', Sets fuel v ds d s' ∧ (visited env fuel v ds).2 = store ds { d with state := s' } ∧
        ((visited env fuel v ds).1 = true → s'.conn ≠ d.state.conn) := by
  unfold visited
  split
  · exact .inl rfl
  · rename_i d hd
    unfold visit
    cases hc : choiceOf fuel v.1 ds d with
    | none => exact .inl rfl
    | some c =>
        cases c with
        | none => exact .inl rfl
        | some b =>
            obtain ⟨hu, rfl, hmay, hisp⟩ := choiceOf_some hc
            obtain ⟨hstate, hconn⟩ := setAftrIsp_spec (env d.minor) v.1 hu
            refine .inr ⟨d, sanitizeState (env d.minor) d.state { d.state with aftrIsp := v.1 },
              ⟨hd, aftrSet_sanitizeState hu, hmay, hisp⟩, ?_, fun hrv => hconn ?_⟩
            · simp only [Option.map_some, Option.getD_some]
              rw [hstate]
            · simpa only [Option.map_some, Option.getD_some, decide_eq_true_eq] using hrv

theorem kept_visited (env : Nat → Env) (fuel : Nat) (v : Bool × Nat) (ds : Devices) :
    Kept ds (visited env fuel v ds).2 := by
  obtain h | ⟨d, s', hs, h, -⟩ := visited_cases env fuel v ds
  · rw [h]
    exact .refl ds
  · rw [h]
    exact kept_store hs.found hs.aftrSet.diskless

/-! ## All visits of a loop -/

def allVisited (env : Nat → Env) (fuel : Nat) : List (Bool × Nat) → Devices → Bool × Devices
  | [], ds => (false, ds)
  | v :: vs, ds =>
      let r := visited env fuel v ds
      let r' := allVisited env fuel vs r.2
      (r.1 || r'.1, r'.2)

theorem kept_allVisited (vs : List (Bool × Nat)) : Kept ds (allVisited env fuel vs ds).2 := by
  induction vs generalizing ds with
  | nil => exact .refl ds
  | cons v vs ih => exact (kept_visited env fuel v ds).trans ih

theorem allVisited_append (vs ws : List (Bool × Nat)) : allVisited env fuel (vs ++ ws) ds =
    ((allVisited env fuel vs ds).1 || (allVisited env fuel ws (allVisited env fuel vs ds).2).1,
      (allVisited env fuel ws (allVisited env fuel vs ds).2).2) := by
  induction vs generalizing ds with
  | nil => simp [allVisited]
  | cons v vs ih => simp [allVisited, ih, Bool.or_assoc]

theorem choiceOf_isSome (hr : Ready fuel ds) (hd : minorToDevice ds a = some d) (pause : Bool) :
    (choiceOf fuel pause ds d).isSome := by
  have hmay : (maySyncNow ds fuel d).isSome := maySyncNow_isSome (hr _) (minorToDevice_self hd)
  cases pause with
  | true =>
      simp only [choiceOf, pauseChoice]
      split
      · rfl
      · simpa using hmay
  | false =>
      simp only [choiceOf, resumeChoice]
      split
      · rfl
      · split
        · simpa using hmay
        · rfl

theorem forEach_eq (hr : Ready fuel ds) (pause : Bool) (ms : List Nat) :
    forEach (choiceOf fuel pause) env ms ds = some (allVisited env fuel (ms.map fun m => (pause, m)) ds) := by
  induction ms generalizing ds with
  | nil => rfl
  | cons m ms ih =>
      have ih' := ih ((kept_visited env fuel (pause, m) ds).ready hr)
      simp only [forEach, List.map_cons, allVisited]
      cases hd : minorToDevice ds m with
      | none =>
          have hv : visited env fuel (pause, m) ds = (false, ds) := by simp [visited, hd]
          rw [hv] at ih' ⊢
          simpa using ih'
      | some odev =>
          obtain ⟨c, hc⟩ := Option.isSome_iff_exists.mp (choiceOf_isSome hr hd pause)
          have hv : visit (choiceOf fuel pause) env ds odev = some (visited env fuel (pause, m) ds) := by
            simp [visited, hd, visit, hc]
          simp only [hv, Option.bind_eq_bind, Option.bind_some, ih']
          rfl

end Drbd.ResyncAfter
