import Drbd.ResyncAfter.Lemmas.Settle

/-!
# Resync-after dependencies stay acyclic
-/

namespace Drbd.ResyncAfter

open State Lib Relation

variable {env : Nat → Env} {fuel : Nat} {ds ds' : Devices} {d d' : Device} {s s' : System} {e : Event}

/-! ## The loops of the source change states only -/

theorem kept_forEach {pause rv : Bool} {ms : List Nat}
    (h : forEach (choiceOf fuel pause) env ms ds = some (rv, ds')) : Kept ds ds' := by
  induction ms generalizing ds rv with
  | nil =>
      simp only [forEach, Option.some.injEq, Prod.mk.injEq] at h
      exact h.2 ▸ .refl ds
  | cons m ms ih =>
      simp only [forEach] at h
      cases hd : minorToDevice ds m with
      | none =>
          rw [hd] at h
          exact ih h
      | some odev =>
          simp only [hd, Option.bind_eq_bind, Option.bind_eq_some_iff, Option.pure_def, Option.some.injEq,
            Prod.mk.injEq] at h
          obtain ⟨⟨rv₁, ds₁⟩, hv, ⟨rv₂, ds₂⟩, hrest, -, rfl⟩ := h
          have hvisited : visited env fuel (pause, m) ds = (rv₁, ds₁) := by simp [visited, hd, hv]
          have hk := kept_visited env fuel (pause, m) ds
          rw [hvisited] at hk
          exact hk.trans (ih hrest)

theorem kept_resyncAfterChanged {rounds : Nat} (h : resyncAfterChanged env fuel rounds ds = some ds') :
    Kept ds ds' := by
  induction rounds generalizing ds with
  | zero => simp [resyncAfterChanged] at h
  | succ rounds ih =>
      simp only [resyncAfterChanged, Option.bind_eq_bind, Option.bind_eq_some_iff] at h
      obtain ⟨⟨paused, ds₁⟩, h₁, ⟨resumed, ds₂⟩, h₂, h⟩ := h
      have hk : Kept ds ds₂ :=
        (@kept_forEach env fuel ds ds₁ true _ _ h₁).trans (@kept_forEach env fuel ds₁ ds₂ false _ _ h₂)
      split at h
      · exact hk.trans (ih h)
      · simp only [Option.some.injEq] at h
        exact h ▸ hk

/-! ## The invariant -/

/-- Following the dependencies never comes back, and an attach that has been validated does not change
that when it is published. -/
structure Inv (s : System) : Prop where
  acyclic : ∀ a, ¬ TransGen (Follows s.devices) a a
  pending : ∀ m r, s.admin = .validated m r →
    (∃ d, minorToDevice s.devices m = some d ∧ d.ldev = none) ∧ ¬ ReflTransGen (Follows s.devices) r m

theorem inv_start : Inv start where
  acyclic a h := by
    obtain ⟨_, ⟨d, hd, -⟩, -⟩ := TransGen.head'_iff.mp h
    simp [start, minorToDevice] at hd
  pending m r h := by simp [start] at h

/-- No dependency is added, and a device that is being attached still has no `ldev`. -/
theorem Inv.shrinks (hi : Inv s) (hsh : Shrinks s.devices ds)
    (hnone : ∀ m d, minorToDevice s.devices m = some d → d.ldev = none →
      ∃ d', minorToDevice ds m = some d' ∧ d'.ldev = none) : Inv { s with devices := ds } where
  acyclic a h := hi.acyclic a (TransGen.mono hsh _ _ h)
  pending m r h := by
    obtain ⟨⟨d, hd, hl⟩, hno⟩ := hi.pending m r h
    exact ⟨hnone m d hd hl, fun hre => hno (ReflTransGen.mono hsh _ _ hre)⟩

theorem Inv.idle (hi : Inv s) {admin : Admin} (h : ∀ m r, admin ≠ .validated m r) : Inv { s with admin := admin } where
  acyclic := hi.acyclic
  pending m r hm := absurd hm (h m r)

theorem Inv.kept (hi : Inv s) (hk : Kept s.devices ds) : Inv { s with devices := ds } := by
  refine hi.shrinks hk.shrinks (fun m d hd hl => ?_)
  obtain ⟨d', hd', hl', -⟩ := hk.some m d hd
  exact ⟨d', hd', hl'.trans hl⟩

theorem Inv.store (hi : Inv s) (hd : minorToDevice s.devices d'.minor = some d)
    (hatt : Attached d' → Attached d ∧ d'.ldev = d.ldev) (hl : d.ldev = none → d'.ldev = none) :
    Inv { s with devices := store s.devices d' } := by
  refine hi.shrinks (shrinks_store hd hatt) (fun m e he hle => ?_)
  by_cases hm : (d'.minor : Int) = m
  · rw [← hm, hd, Option.some.injEq] at he
    subst he
    exact ⟨d', by rw [← hm]; exact minorToDevice_store_self hd, hl hle⟩
  · exact ⟨e, by rw [minorToDevice_store_ne hm]; exact he, hle⟩

/-- The one new dependency of a device that gets its configuration. -/
theorem acyclic_store_ldev {minor : Nat} {r : Int} (h : ∀ a, ¬ TransGen (Follows ds) a a)
    (hd : minorToDevice ds minor = some d) (hno : ¬ ReflTransGen (Follows ds) r minor) :
    ∀ a, ¬ TransGen (Follows (ResyncAfter.store ds { d with ldev := some r })) a a := by
  have hm := minorToDevice_minor hd
  refine acyclic_of_insert h (fun a b hab => ?_) hno
  obtain ⟨e, he, hatt, hr⟩ := hab
  rw [minorToDevice_store] at he
  split at he
  · rename_i ha
    rw [show a = (minor : Int) from ha.symm.trans hm, hd] at he
    simp only [Option.map_some, Option.some.injEq] at he
    subst he
    simp only [Option.some.injEq] at hr
    exact .inr ⟨ha.symm.trans hm, hr.symm⟩
  · exact .inl ⟨e, he, hatt, hr⟩

theorem Inv.step (hi : Inv s) (h : step s e = some s') : Inv s' := by
  cases e with
  | newMinor minor =>
      simp only [ResyncAfter.step] at h
      split at h
      · rename_i hc
        obtain ⟨-, hnone, -⟩ := hc
        simp only [Option.some.injEq] at h
        subst h
        refine hi.shrinks (shrinks_idrInsert hnone rfl) (fun m d hd hl => ⟨d, ?_, hl⟩)
        rw [minorToDevice_idrInsert_ne, hd]
        intro hm
        rw [← hm] at hd
        simp [hnone] at hd
      · simp at h
  | delMinor minor =>
      simp only [ResyncAfter.step, Option.bind_eq_bind, Option.bind_eq_some_iff] at h
      obtain ⟨d, -, h⟩ := h
      split at h
      · rename_i hc
        simp only [Option.some.injEq] at h
        subst h
        exact ⟨fun a ha => hi.acyclic a (TransGen.mono (shrinks_filter minor) _ _ ha),
          fun m r hm => absurd hm (by simp [hc.1])⟩
      · simp at h
  | attach minor resyncAfter fuel =>
      simp only [ResyncAfter.step, Option.bind_eq_bind, Option.bind_eq_some_iff] at h
      obtain ⟨d, hd, h⟩ := h
      split at h
      · rename_i hc
        obtain ⟨-, -, hl, hvalid⟩ := hc
        simp only [Option.some.injEq] at h
        subst h
        refine ⟨hi.acyclic, fun m r hm => ?_⟩
        simp only [Admin.validated.injEq] at hm
        obtain ⟨rfl, rfl⟩ := hm
        exact ⟨⟨d, hd, hl⟩, not_reaches_of_valid hvalid hd⟩
      · simp at h
  | publish =>
      simp only [ResyncAfter.step] at h
      split at h
      · rename_i minor r hadm
        simp only [Option.bind_eq_bind, Option.bind_eq_some_iff, Option.some.injEq] at h
        obtain ⟨d, hd, rfl⟩ := h
        exact ⟨acyclic_store_ldev hi.acyclic hd (hi.pending minor r hadm).2, fun m r hm => by simp at hm⟩
      · simp at h
  | attachFail =>
      have hfail : ∀ minor d, minorToDevice s.devices minor = some d →
          Inv { devices := ResyncAfter.store s.devices { d with state := { d.state with disk := .diskless } },
                admin := .idle } := by
        intro minor d hd
        have hm : minorToDevice s.devices d.minor = some d := minorToDevice_self hd
        have hstore := @Inv.store d { d with state := { d.state with disk := .diskless } } s hi hm
          (fun ha => absurd rfl ha.2) id
        exact hstore.idle (fun _ _ => by simp)
      simp only [ResyncAfter.step] at h
      split at h
      · simp at h
      all_goals
        simp only [Option.bind_eq_bind, Option.bind_eq_some_iff, Option.some.injEq] at h
        obtain ⟨d, hd, rfl⟩ := h
        exact hfail _ d hd
  | attachDone =>
      simp only [ResyncAfter.step] at h
      split at h
      · simp only [Option.some.injEq] at h
        subst h
        exact hi.idle (fun _ _ => by simp)
      · simp at h
  | diskOpts minor resyncAfter env fuel rounds =>
      simp only [ResyncAfter.step, Option.bind_eq_bind, Option.bind_eq_some_iff] at h
      obtain ⟨d, hd, h⟩ := h
      split at h
      · rename_i hc
        simp only [Option.bind_eq_some_iff, Option.some.injEq] at h
        obtain ⟨ds, hds, rfl⟩ := h
        have hacyc := acyclic_store_ldev hi.acyclic hd (not_reaches_of_valid hc.2.2.2 hd)
        exact ⟨fun a ha => hacyc a (TransGen.mono (kept_resyncAfterChanged hds).shrinks _ _ ha),
          fun m r hm => absurd hm (by simp [hc.1])⟩
      · simp at h
  | setState minor ns =>
      simp only [ResyncAfter.step, Option.bind_eq_bind, Option.bind_eq_some_iff] at h
      obtain ⟨d, hd, h⟩ := h
      split at h
      · rename_i hc
        simp only [Option.some.injEq] at h
        subst h
        have hm : minorToDevice s.devices d.minor = some d := minorToDevice_self hd
        refine @Inv.store d { d with state := ns } s hi hm (fun ha => ⟨⟨ha.1, fun hdl => ?_⟩, rfl⟩) id
        -- a diskless device that leaves that state is being attached and has no `ldev` yet
        obtain hns | ⟨-, hl, -⟩ := hc hdl
        · exact ha.2 hns
        · have := ha.1
          simp [hl] at this
      · simp at h
  | ldevDestroy minor =>
      simp only [ResyncAfter.step, Option.bind_eq_bind, Option.bind_eq_some_iff] at h
      obtain ⟨d, hd, h⟩ := h
      split at h
      · simp only [Option.some.injEq] at h
        subst h
        have hm : minorToDevice s.devices d.minor = some d := minorToDevice_self hd
        exact @Inv.store d { d with ldev := none } s hi hm (fun ha => absurd ha.1 (by simp)) (fun _ => rfl)
      · simp at h
  | suspendOtherSg env fuel =>
      simp only [ResyncAfter.step, Option.map_eq_some_iff] at h
      obtain ⟨⟨rv, ds⟩, hds, rfl⟩ := h
      exact hi.kept (@kept_forEach env fuel s.devices ds true _ _ hds)
  | resumeNextSg env fuel =>
      simp only [ResyncAfter.step, Option.map_eq_some_iff] at h
      obtain ⟨⟨rv, ds⟩, hds, rfl⟩ := h
      exact hi.kept (@kept_forEach env fuel s.devices ds false _ _ hds)

theorem Inv.ready (hi : Inv s) : ∃ fuel, Ready fuel s.devices :=
  ⟨_, endsWithin_of_acyclic (s.devices.map fun d => (d.minor : Int)).toFinset (fun _ _ h => h.mem) hi.acyclic⟩

/-! ## Every run -/

/-- In every reachable state no attached device comes after itself, and the loops over the dependencies
terminate: enough rounds give a result. -/
theorem resync_after_acyclic {es : List Event} (h : run step start es = some s) :
    Acyclic s.devices ∧
      (∀ device oMinor, ∃ fuel, (resyncAfterValid s.devices fuel device oMinor).isSome) ∧
      (∀ minor d, minorToDevice s.devices minor = some d → ∃ fuel, (maySyncNow s.devices fuel d).isSome) ∧
      ∀ env, ∃ fuel rounds, (resyncAfterChanged env fuel rounds s.devices).isSome := by
  have hi : Inv s := run_preserves Inv.step inv_start h
  obtain ⟨fuel, hr⟩ := hi.ready
  refine ⟨fun a ha => hi.acyclic a (TransGen.mono (fun _ _ => DependsOn.follows) _ _ ha),
    fun device oMinor => ⟨fuel, ?_⟩,
    fun minor d hd => ⟨fuel, maySyncNow_isSome (hr _) (minorToDevice_self hd)⟩,
    fun env => ⟨fuel, resyncAfterChanged_isSome hr⟩⟩
  unfold resyncAfterValid
  split
  · rfl
  · split
    · rfl
    · exact checkForLoops_isSome (hr oMinor)

/-- Minor 1 is attached to resync after minor 0, which loses its disk during the attach. -/
def lostMeanwhile : List Event :=
  [.newMinor 0, .newMinor 1, .attach 0 (-1) 1, .setState 0 { newState with disk := .attaching }, .publish,
    .attachDone, .attach 1 0 2, .setState 0 newState, .setState 1 { newState with disk := .attaching }, .publish,
    .setState 1 { newState with disk := .upToDate }, .attachDone, .ldevDestroy 0, .attach 0 (-1) 2,
    .setState 0 { newState with disk := .attaching }, .publish, .setState 0 { newState with disk := .upToDate },
    .attachDone]

theorem resync_after_acyclic_two : ∃ s, run step start lostMeanwhile = some s ∧
    s.devices.map (·.ldev) = [some (-1), some 0] ∧ Acyclic s.devices :=
  ⟨_, rfl, rfl, (resync_after_acyclic (rfl : run step start lostMeanwhile = some _)).1⟩

end Drbd.ResyncAfter
