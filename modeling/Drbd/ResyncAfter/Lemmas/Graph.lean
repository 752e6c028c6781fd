import Drbd.Lib.Termination
import Drbd.ResyncAfter.Defs

/-!
# The devices and the graph of their dependencies
-/

namespace Drbd.ResyncAfter

open State Lib Relation

variable {ds ds' : Devices} {d d' e : Device} {a b : Int} {s : System}

/-! ## Looking up a device -/

theorem minorToDevice_minor (h : minorToDevice ds a = some d) : (d.minor : Int) = a := by
  simpa using List.find?_some h

theorem minorToDevice_mem (h : minorToDevice ds a = some d) : d ∈ ds := List.mem_of_find?_eq_some h

theorem minorToDevice_self (h : minorToDevice ds a = some d) : minorToDevice ds d.minor = some d := by
  rw [minorToDevice_minor h]
  exact h

theorem minorToDevice_store : minorToDevice (store ds d') a =
    if (d'.minor : Int) = a then (minorToDevice ds a).map fun _ => d' else minorToDevice ds a := by
  induction ds with
  | nil => simp [minorToDevice, store]
  | cons e ds ih =>
      simp only [minorToDevice, store, List.map_cons, List.find?_cons] at ih ⊢
      by_cases he : e.minor = d'.minor
      · by_cases ha : (d'.minor : Int) = a
        · simp [he, ha]
        · simp only [he, ha, decide_false, if_true, if_false] at ih ⊢
          exact ih
      · by_cases ha : (e.minor : Int) = a
        · have hne : ¬ (d'.minor : Int) = a := fun h => he (by omega)
          simp [he, ha, hne]
        · simp only [he, ha, decide_false, if_false] at ih ⊢
          exact ih

theorem minorToDevice_store_self (h : minorToDevice ds d'.minor = some d) :
    minorToDevice (store ds d') d'.minor = some d' := by
  simp [minorToDevice_store, h]

theorem minorToDevice_store_ne (h : (d'.minor : Int) ≠ a) : minorToDevice (store ds d') a = minorToDevice ds a := by
  simp [minorToDevice_store, h]

theorem store_minors : (store ds d').map (·.minor) = ds.map (·.minor) := by
  simp only [store, List.map_map]
  refine List.map_congr_left (fun e _ => ?_)
  simp only [Function.comp_apply]
  split
  · rename_i h
    exact h.symm
  · rfl

theorem minorToDevice_idrInsert_ne (h : (d.minor : Int) ≠ a) :
    minorToDevice (idrInsert d ds) a = minorToDevice ds a := by
  induction ds with
  | nil => simp [idrInsert, minorToDevice, h]
  | cons e ds ih =>
      unfold idrInsert
      split
      · simp [minorToDevice, h]
      · simp only [minorToDevice, List.find?_cons] at ih ⊢
        rw [ih]

theorem minorToDevice_idrInsert_self (h : minorToDevice ds d.minor = none) :
    minorToDevice (idrInsert d ds) d.minor = some d := by
  induction ds with
  | nil => simp [idrInsert, minorToDevice]
  | cons e ds ih =>
      simp only [minorToDevice, List.find?_cons] at h ih
      split at h
      · simp at h
      · rename_i he
        unfold idrInsert
        split
        · simp [minorToDevice]
        · simp only [minorToDevice, List.find?_cons, he]
          exact ih h

theorem minorToDevice_filter {minor : Nat} (h : minorToDevice (ds.filter fun e => e.minor ≠ minor) a = some d) :
    minorToDevice ds a = some d := by
  have hne : d.minor ≠ minor := by simpa using List.of_mem_filter (minorToDevice_mem h)
  have ha := minorToDevice_minor h
  induction ds with
  | nil => exact h
  | cons e ds ih =>
      simp only [minorToDevice, List.find?_cons, List.filter_cons] at h ih ⊢
      by_cases he : (e.minor : Int) = a
      · have hem : e.minor ≠ minor := fun hm => hne (by omega)
        simpa [he, hem] using h
      · simp only [he, decide_false] at h ⊢
        split at h
        · simp only [List.find?_cons, he, decide_false] at h
          exact ih h
        · exact ih h

/-! ## Following a dependency -/

/-- The loops of the source go on from the device with the minor `a` to `b`, if there is one. -/
def Follows (ds : Devices) (a b : Int) : Prop :=
  ∃ d, minorToDevice ds a = some d ∧ Attached d ∧ d.ldev = some b

theorem DependsOn.follows (h : DependsOn ds a b) : Follows ds a b := by
  obtain ⟨d, _, hd, _, hatt, _, hr⟩ := h
  exact ⟨d, hd, hatt, hr⟩

theorem Follows.mem (h : Follows ds a b) : a ∈ (ds.map fun d => (d.minor : Int)).toFinset := by
  obtain ⟨d, hd, -, -⟩ := h
  simp only [List.mem_toFinset, List.mem_map]
  exact ⟨d, minorToDevice_mem hd, minorToDevice_minor hd⟩

/-- A device has one dependency at most. -/
theorem Follows.unique {b' : Int} (h : Follows ds a b) (h' : Follows ds a b') : b = b' := by
  obtain ⟨d, hd, -, hr⟩ := h
  obtain ⟨d', hd', -, hr'⟩ := h'
  rw [hd, Option.some.injEq] at hd'
  rw [← hd', hr, Option.some.injEq] at hr'
  exact hr'

/-- No dependency is added. -/
def Shrinks (ds ds' : Devices) : Prop := ∀ a b, Follows ds' a b → Follows ds a b

/-- A device that is stored has no new dependency. -/
theorem shrinks_store (hd : minorToDevice ds d'.minor = some d)
    (h : Attached d' → Attached d ∧ d'.ldev = d.ldev) : Shrinks ds (store ds d') := by
  intro a b hab
  obtain ⟨e, he, hatt, hr⟩ := hab
  by_cases ha : (d'.minor : Int) = a
  · subst ha
    rw [minorToDevice_store_self hd, Option.some.injEq] at he
    subst he
    exact ⟨d, hd, (h hatt).1, (h hatt).2 ▸ hr⟩
  · rw [minorToDevice_store_ne ha] at he
    exact ⟨e, he, hatt, hr⟩

theorem shrinks_idrInsert (hd : minorToDevice ds d.minor = none) (h : d.ldev = none) :
    Shrinks ds (idrInsert d ds) := by
  intro a b hab
  obtain ⟨e, he, hatt, hr⟩ := hab
  by_cases ha : (d.minor : Int) = a
  · subst ha
    rw [minorToDevice_idrInsert_self hd, Option.some.injEq] at he
    subst he
    rw [h] at hr
    simp at hr
  · rw [minorToDevice_idrInsert_ne ha] at he
    exact ⟨e, he, hatt, hr⟩

theorem shrinks_filter (minor : Nat) : Shrinks ds (ds.filter fun e => e.minor ≠ minor) := by
  intro a b hab
  obtain ⟨e, he, hatt, hr⟩ := hab
  exact ⟨e, minorToDevice_filter he, hatt, hr⟩

/-! ## The loops end -/

theorem maySyncNow_isSome {fuel : Nat} (h : EndsWithin (Follows ds) fuel d.minor)
    (hd : minorToDevice ds d.minor = some d) : (maySyncNow ds fuel d).isSome := by
  induction fuel generalizing d with
  | zero => exact h.elim
  | succ fuel ih =>
      unfold maySyncNow
      split
      · rfl
      · rename_i r hr
        split
        · rfl
        · rename_i hdisk
          split
          · rfl
          · split
            · rfl
            · rename_i odev hodev
              split
              · rfl
              · have hnext : EndsWithin (Follows ds) fuel r := h r ⟨d, hd, ⟨by simp [hr], hdisk⟩, hr⟩
                rw [← minorToDevice_minor hodev] at hnext
                exact ih hnext (minorToDevice_self hodev)

theorem checkForLoops_isSome {device : Nat} {fuel : Nat} (h : EndsWithin (Follows ds) fuel a) :
    (checkForLoops ds device fuel (minorToDevice ds a)).isSome := by
  induction fuel generalizing a with
  | zero => exact h.elim
  | succ fuel ih =>
      cases hodev : minorToDevice ds a with
      | none => rfl
      | some odev =>
          unfold checkForLoops
          split
          · rfl
          · split
            · rfl
            · rename_i r hr
              split
              · rfl
              · rename_i hdisk
                split
                · rfl
                · exact ih (h r ⟨odev, hodev, ⟨by simp [hr], hdisk⟩, hr⟩)

theorem not_reaches_neg_one (device : Nat) : ¬ ReflTransGen (Follows ds) (-1) device := by
  intro hreach
  rw [ReflTransGen.cases_head_iff] at hreach
  obtain hbad | ⟨_, ⟨d, hd, -, -⟩, -⟩ := hreach
  · omega
  · have := minorToDevice_minor hd
    omega

/-- What passes the check leads nowhere to the device itself. -/
theorem not_reaches_of_checkForLoops {device : Nat} {fuel : Nat}
    (h : checkForLoops ds device fuel (minorToDevice ds a) = some .noError)
    (hdev : minorToDevice ds device = some e) : ¬ ReflTransGen (Follows ds) a device := by
  induction fuel generalizing a with
  | zero => simp [checkForLoops] at h
  | succ fuel ih =>
      intro hreach
      rw [ReflTransGen.cases_head_iff] at hreach
      obtain rfl | ⟨b, ⟨odev, hodev, hatt, hr⟩, hrest⟩ := hreach
      · rw [hdev] at h
        have he : e.minor = device := by
          have := minorToDevice_minor hdev
          omega
        simp [checkForLoops, he] at h
      · rw [hodev] at h
        simp only [checkForLoops, hr, hatt.2, if_false] at h
        split at h
        · simp at h
        · split at h
          · -- the chain ends with -1, which is no minor
            rename_i hb
            subst hb
            exact not_reaches_neg_one device hrest
          · exact ih h hrest

theorem not_reaches_of_valid {device : Nat} {fuel : Nat} {r : Int}
    (h : resyncAfterValid ds fuel device r = some .noError) (hdev : minorToDevice ds device = some e) :
    ¬ ReflTransGen (Follows ds) r device := by
  unfold resyncAfterValid at h
  split at h
  · rename_i hr
    subst hr
    exact not_reaches_neg_one device
  · split at h
    · simp at h
    · exact not_reaches_of_checkForLoops h hdev

end Drbd.ResyncAfter
