import Drbd.ResyncAfter.Lemmas.Visit

/-!
# Pausing and resuming comes to an end

A device waits for the devices on its chain of dependencies only. Once those do not change any more,
neither does the answer whether it may resync, and then it is paused or resumed once.
-/

namespace Drbd.ResyncAfter

open State Lib Relation

variable {env : Nat → Env} {fuel : Nat} {ds ds' ds₀ ds₁ ds₂ : Devices} {d d' e : Device} {a : Int}
  {v : Bool × Nat} {s s' : DrbdState}

/-- What the other devices see of a state. -/
structure View where
  conn : Conn
  diskless : Bool
  aftrIsp : Bool
  peerIsp : Bool
  userIsp : Bool
deriving DecidableEq

def viewOf (s : DrbdState) : View where
  conn := s.conn
  diskless := s.disk = .diskless
  aftrIsp := s.aftrIsp
  peerIsp := s.peerIsp
  userIsp := s.userIsp

def view (ds : Devices) (a : Int) : Option View := (minorToDevice ds a).map fun d => viewOf d.state

theorem view_store (hd : minorToDevice ds a = some d) :
    view (store ds { d with state := s' }) a = some (viewOf s') := by
  have hm : (d.minor : Int) = a := minorToDevice_minor hd
  unfold view
  rw [minorToDevice_store, if_pos (show ((Device.minor { d with state := s' } : Nat) : Int) = a from hm), hd]
  rfl

theorem blocks_congr (h : viewOf s = viewOf s') : Blocks s ↔ Blocks s' := by
  simp only [viewOf, View.mk.injEq] at h
  simp [Blocks, h.1, h.2.2.1, h.2.2.2.1, h.2.2.2.2]

theorem diskless_congr (h : viewOf s = viewOf s') : s.disk = .diskless ↔ s'.disk = .diskless := by
  simp only [viewOf, View.mk.injEq, decide_eq_decide] at h
  exact h.2.1

/-! ## The answer of the chain -/

/-- What `_drbd_may_sync_now()` finds behind the device itself. -/
def chainAnswer (ds : Devices) (fuel : Nat) (d : Device) : Option Bool :=
  match d.ldev with
  | none => some true
  | some r =>
      if r = -1 then some true
      else
        match minorToDevice ds r with
        | none => some true
        | some e => if Blocks e.state then some false else maySyncNow ds fuel e

theorem maySyncNow_succ : maySyncNow ds (fuel + 1) d =
    if d.state.disk = .diskless then some true else chainAnswer ds fuel d := by
  unfold maySyncNow chainAnswer
  cases d.ldev with
  | none => simp
  | some r => rfl

/-- The answer depends on what is seen of the next device and its own answer only. -/
theorem chainAnswer_next (h₁ : Kept ds₀ ds₁) (h₂ : Kept ds₀ ds₂) {d₁ d₂ : Device}
    (hd₁ : minorToDevice ds₁ a = some d₁) (hd₂ : minorToDevice ds₂ a = some d₂)
    (hdl : d₁.state.disk ≠ .diskless) (hview : ∀ r, Follows ds₀ a r → view ds₁ r = view ds₂ r)
    (hmay : ∀ r e₁ e₂, Follows ds₀ a r → minorToDevice ds₁ r = some e₁ → minorToDevice ds₂ r = some e₂ →
      maySyncNow ds₁ fuel e₁ = maySyncNow ds₂ fuel e₂) :
    chainAnswer ds₁ fuel d₁ = chainAnswer ds₂ fuel d₂ := by
  obtain ⟨d, hd, hl₁, hk₁⟩ := h₁.before hd₁
  obtain ⟨d', hd', hl₂, -⟩ := h₂.before hd₂
  rw [hd, Option.some.injEq] at hd'
  subst hd'
  unfold chainAnswer
  rw [hl₁, hl₂]
  cases hr : d.ldev with
  | none => rfl
  | some r =>
      have hfol : Follows ds₀ a r := ⟨d, hd, ⟨by simp [hr], fun h => hdl (hk₁ h)⟩, hr⟩
      have hvr := hview r hfol
      by_cases hr1 : r = -1
      · simp [hr1]
      · simp only [hr1, if_false]
        cases he₁ : minorToDevice ds₁ r with
        | none =>
            cases he₂ : minorToDevice ds₂ r with
            | none => rfl
            | some e₂ => simp [view, he₁, he₂] at hvr
        | some e₁ =>
            cases he₂ : minorToDevice ds₂ r with
            | none => simp [view, he₁, he₂] at hvr
            | some e₂ =>
                simp only [view, he₁, he₂, Option.map_some, Option.some.injEq] at hvr
                dsimp only
                rw [hmay r e₁ e₂ hfol he₁ he₂]
                by_cases hb : Blocks e₁.state
                · rw [if_pos hb, if_pos ((blocks_congr hvr).mp hb)]
                · rw [if_neg hb, if_neg (fun h => hb ((blocks_congr hvr).mpr h))]

theorem maySyncNow_congr (h₁ : Kept ds₀ ds₁) (h₂ : Kept ds₀ ds₂) {d₁ d₂ : Device}
    (hd₁ : minorToDevice ds₁ a = some d₁) (hd₂ : minorToDevice ds₂ a = some d₂)
    (hview : ∀ b, ReflTransGen (Follows ds₀) a b → view ds₁ b = view ds₂ b) :
    maySyncNow ds₁ fuel d₁ = maySyncNow ds₂ fuel d₂ := by
  induction fuel generalizing a d₁ d₂ with
  | zero => rfl
  | succ fuel ih =>
      have hv := hview a .refl
      simp only [view, hd₁, hd₂, Option.map_some, Option.some.injEq] at hv
      rw [maySyncNow_succ, maySyncNow_succ]
      by_cases hdl : d₁.state.disk = .diskless
      · rw [if_pos hdl, if_pos ((diskless_congr hv).mp hdl)]
      · rw [if_neg hdl, if_neg (fun h => hdl ((diskless_congr hv).mpr h))]
        refine chainAnswer_next h₁ h₂ hd₁ hd₂ hdl (fun r hr => hview r (.single hr)) ?_
        intro r e₁ e₂ hr he₁ he₂
        exact ih he₁ he₂ (fun b hb => hview b (.head hr hb))

theorem chainAnswer_congr (h₁ : Kept ds₀ ds₁) (h₂ : Kept ds₀ ds₂) {d₁ d₂ : Device}
    (hd₁ : minorToDevice ds₁ a = some d₁) (hd₂ : minorToDevice ds₂ a = some d₂)
    (hdl : d₁.state.disk ≠ .diskless)
    (hview : ∀ r b, Follows ds₀ a r → ReflTransGen (Follows ds₀) r b → view ds₁ b = view ds₂ b) :
    chainAnswer ds₁ fuel d₁ = chainAnswer ds₂ fuel d₂ := by
  refine chainAnswer_next h₁ h₂ hd₁ hd₂ hdl (fun r hr => hview r r hr .refl) ?_
  intro r e₁ e₂ hr he₁ he₂
  exact maySyncNow_congr h₁ h₂ he₁ he₂ (fun b hb => hview r b hr hb)

/-! ## What is left to do for a device -/

def connRank : Conn → Nat
  | .syncSource | .syncTarget => 3
  | .pausedSyncS | .pausedSyncT => 2
  | c => if c > .connected then 1 else 0

/-- An upper bound on the changes to come, as long as the chain gives the same answer. -/
def changesLeft (may : Bool) (v : View) : Nat :=
  if may ∨ v.diskless then v.aftrIsp.toNat else 2 + connRank v.conn + (!v.aftrIsp).toNat + v.peerIsp.toNat

theorem connRank_pauseConn (c : Conn) : pauseConn true c = c ∨ connRank (pauseConn true c) < connRank c := by
  cases c <;> decide

theorem connRank_connected {c : Conn} (h : c > .connected) : connRank .connected < connRank c := by
  revert h
  cases c <;> decide

/-- A device that may not resync is paused. -/
theorem AftrSet.changesLeft_pause (h : AftrSet true s s') (hdl : s.disk ≠ .diskless) :
    viewOf s' = viewOf s ∨ changesLeft false (viewOf s') < changesLeft false (viewOf s) := by
  have hconn : s'.conn = s.conn ∨ connRank s'.conn < connRank s.conn := by
    have hp : s'.paused = true := by simp [DrbdState.paused, h.aftrIsp]
    obtain hc | ⟨hgt, hc⟩ := h.conn
    · rw [hp] at hc
      rw [hc]
      exact connRank_pauseConn s.conn
    · rw [hc]
      exact .inr (connRank_connected hgt)
  by_cases hdl' : s'.disk = .diskless
  · refine .inr ?_
    have hle : s'.aftrIsp.toNat ≤ 1 := Bool.toNat_le _
    simp only [changesLeft, viewOf, hdl', hdl, decide_true, decide_false, or_true, or_false, if_true, if_false,
      Bool.false_eq_true]
    omega
  · have hpeer : s'.peerIsp = s.peerIsp ∨ s'.peerIsp.toNat < s.peerIsp.toNat := by
      have := h.peerIsp
      cases hs : s.peerIsp <;> cases hs' : s'.peerIsp <;> simp_all
    have hpeerle : s'.peerIsp.toNat ≤ s.peerIsp.toNat := by
      obtain he | hlt := hpeer
      · rw [he]
      · omega
    have hrank : connRank s'.conn ≤ connRank s.conn := by
      obtain he | hlt := hconn
      · rw [he]
      · omega
    simp only [changesLeft, viewOf, hdl', hdl, decide_false, or_false, if_false, Bool.false_eq_true, h.aftrIsp,
      Bool.not_true, Bool.toNat_false, View.mk.injEq, true_and, h.userIsp, and_true]
    cases haftr : s.aftrIsp with
    | false =>
        refine .inr ?_
        simp only [Bool.not_false, Bool.toNat_true]
        omega
    | true =>
        simp only [Bool.not_true, Bool.toNat_false, true_and]
        obtain he | hlt := hconn
        · obtain hp | hlt := hpeer
          · exact .inl ⟨he, hp⟩
          · exact .inr (by omega)
        · exact .inr (by omega)

/-- A device that may resync is resumed. -/
theorem AftrSet.changesLeft_resume (h : AftrSet false s s') {may : Bool} (haftr : s.aftrIsp = true)
    (hmay : may = true ∨ s.disk = .diskless) :
    changesLeft may (viewOf s') < changesLeft may (viewOf s) := by
  have hs : may = true ∨ (viewOf s).diskless = true := hmay.imp id (fun hd => by simp [viewOf, hd])
  have hs' : may = true ∨ (viewOf s').diskless = true := hmay.imp id (fun hd => by simp [viewOf, h.diskless hd])
  simp only [changesLeft, if_pos hs, if_pos hs']
  simp [viewOf, haftr, h.aftrIsp]

/-- A visit does not change what is seen of a device, or there is less left to do for it. -/
theorem changesLeft_visited {may : Bool} (v : Bool × Nat)
    (hmay : ∀ d, minorToDevice ds a = some d → d.state.disk ≠ .diskless → chainAnswer ds fuel d = some may) :
    view (visited env (fuel + 1) v ds).2 a = view ds a ∨
      (view (visited env (fuel + 1) v ds).2 a).elim 0 (changesLeft may) <
        (view ds a).elim 0 (changesLeft may) := by
  obtain h | ⟨d, s', hs, h, -⟩ := visited_cases env (fuel + 1) v ds
  · exact .inl (by rw [h])
  · rw [h]
    have hm : (d.minor : Int) = v.2 := minorToDevice_minor hs.found
    by_cases ha : (v.2 : Int) = a
    · subst ha
      have hview : view ds v.2 = some (viewOf d.state) := by simp [view, hs.found]
      rw [view_store hs.found, hview]
      simp only [Option.some.injEq, Option.elim_some]
      have hans := hs.may
      rw [maySyncNow_succ] at hans
      obtain ⟨pause, minor⟩ := v
      cases pause with
      | true =>
          by_cases hdl : d.state.disk = .diskless
          · simp [hdl] at hans
          · rw [if_neg hdl, hmay d hs.found hdl] at hans
            obtain rfl : may = false := by simpa using hans
            exact hs.aftrSet.changesLeft_pause hdl
      | false =>
          refine .inr (hs.aftrSet.changesLeft_resume (hs.aftrIsp rfl) ?_)
          by_cases hdl : d.state.disk = .diskless
          · exact .inr hdl
          · rw [if_neg hdl, hmay d hs.found hdl] at hans
            exact .inl (by simpa using hans)
    · refine .inl ?_
      unfold view
      rw [minorToDevice_store_ne (show ((Device.minor { d with state := s' } : Nat) : Int) ≠ a from
        fun he => ha (hm.symm.trans he))]

/-! ## Every device settles -/

/-- A sequence of visits, in any order. -/
def Visits (env : Nat → Env) (fuel : Nat) (σ : Nat → Devices) : Prop :=
  ∀ j, σ (j + 1) = σ j ∨ ∃ v, σ (j + 1) = (visited env fuel v (σ j)).2

variable {σ : Nat → Devices}

theorem Visits.kept (h : Visits env fuel σ) (j : Nat) : Kept (σ 0) (σ j) := by
  induction j with
  | zero => exact .refl _
  | succ j ih =>
      obtain he | ⟨v, he⟩ := h j
      · rw [he]
        exact ih
      · rw [he]
        exact ih.trans (kept_visited env fuel v (σ j))

/-- Once the devices behind it have settled, a device settles. -/
theorem Visits.settles_of_next (h : Visits env (fuel + 1) σ) (hr : Ready (fuel + 1) (σ 0)) {N : Nat}
    (hnext : ∀ r b, Follows (σ 0) a r → ReflTransGen (Follows (σ 0)) r b → SettledFrom (fun j => view (σ j) b) N) :
    ∃ K, N ≤ K ∧ SettledFrom (fun j => view (σ j) a) K := by
  have hans : ∃ may, ∀ j, N ≤ j → ∀ d, minorToDevice (σ j) a = some d → d.state.disk ≠ .diskless →
      chainAnswer (σ j) fuel d = some may := by
    by_cases hex : ∃ j d, N ≤ j ∧ minorToDevice (σ j) a = some d ∧ d.state.disk ≠ .diskless
    · obtain ⟨i, e, hi, he, hdl⟩ := hex
      have hsome : (maySyncNow (σ i) (fuel + 1) e).isSome :=
        maySyncNow_isSome ((h.kept i).ready hr _) (minorToDevice_self he)
      rw [maySyncNow_succ, if_neg hdl] at hsome
      obtain ⟨may, hmay⟩ := Option.isSome_iff_exists.mp hsome
      refine ⟨may, fun j hj d hd hdl => ?_⟩
      rw [← hmay]
      refine chainAnswer_congr (h.kept j) (h.kept i) hd he hdl (fun r b hr hb => ?_)
      exact (hnext r b hr hb j hj).trans (hnext r b hr hb i hi).symm
    · refine ⟨true, fun j hj d hd hdl => ?_⟩
      exact absurd ⟨j, d, hj, hd, hdl⟩ hex
  obtain ⟨may, hmay⟩ := hans
  refine exists_settledFrom (fun o => o.elim 0 (changesLeft may)) (fun j hj => ?_)
  obtain he | ⟨v, he⟩ := h j
  · exact .inl (by rw [he])
  · simp only [he]
    exact changesLeft_visited v (hmay j hj)

/-- The induction is on the length of the chain behind the device. -/
theorem Visits.settles_chain (h : Visits env (fuel + 1) σ) (hr : Ready (fuel + 1) (σ 0)) {n : Nat}
    (he : EndsWithin (Follows (σ 0)) n a) :
    ∃ K, ∀ b, ReflTransGen (Follows (σ 0)) a b → SettledFrom (fun j => view (σ j) b) K := by
  induction n generalizing a with
  | zero => exact he.elim
  | succ n ih =>
      have hbehind : ∃ N, ∀ r b, Follows (σ 0) a r → ReflTransGen (Follows (σ 0)) r b →
          SettledFrom (fun j => view (σ j) b) N := by
        by_cases hex : ∃ r, Follows (σ 0) a r
        · obtain ⟨r, hfol⟩ := hex
          obtain ⟨N, hN⟩ := ih (he r hfol)
          exact ⟨N, fun r' b hfol' hb => hN b (hfol.unique hfol' ▸ hb)⟩
        · exact ⟨0, fun r b hfol _ => absurd ⟨r, hfol⟩ hex⟩
      obtain ⟨N, hN⟩ := hbehind
      obtain ⟨K, hNK, hK⟩ := h.settles_of_next hr hN
      refine ⟨K, fun b hb => ?_⟩
      rw [ReflTransGen.cases_head_iff] at hb
      obtain rfl | ⟨r, hfol, hrest⟩ := hb
      · exact hK
      · exact (hN r b hfol hrest).mono hNK

theorem Visits.settles (h : Visits env (fuel + 1) σ) (hr : Ready (fuel + 1) (σ 0)) :
    ∃ K, ∀ a, SettledFrom (fun j => view (σ j) a) K := by
  have hlist : ∀ as : List Int, ∃ K, ∀ a ∈ as, SettledFrom (fun j => view (σ j) a) K := by
    intro as
    induction as with
    | nil => exact ⟨0, fun a ha => absurd ha List.not_mem_nil⟩
    | cons a as ih =>
        obtain ⟨K, hK⟩ := ih
        obtain ⟨N, hN⟩ := h.settles_chain hr (hr a)
        refine ⟨max K N, fun b hb => ?_⟩
        obtain rfl | hb := List.mem_cons.mp hb
        · exact (hN b .refl).mono (Nat.le_max_right _ _)
        · exact (hK b hb).mono (Nat.le_max_left _ _)
  obtain ⟨K, hK⟩ := hlist ((σ 0).map fun d => (d.minor : Int))
  refine ⟨K, fun a => ?_⟩
  cases ha : minorToDevice (σ 0) a with
  | none =>
      intro k _
      simp only [view, (h.kept k).none a ha, (h.kept K).none a ha]
  | some d => exact hK a (List.mem_map.mpr ⟨d, minorToDevice_mem ha, minorToDevice_minor ha⟩)

/-! ## The rounds of the loop -/

/-- The visits of one round: `_drbd_pause_after()`, then `_drbd_resume_next()`. -/
def roundVisits (ms : List Nat) : List (Bool × Nat) := ms.map (fun m => (true, m)) ++ ms.map (fun m => (false, m))

/-- The next visit, starting over at the end of a round. -/
def tick (env : Nat → Env) (fuel : Nat) (ms : List Nat) :
    List (Bool × Nat) × Devices → List (Bool × Nat) × Devices
  | ([], ds) => (roundVisits ms, ds)
  | (v :: vs, ds) => (vs, (visited env fuel v ds).2)

def ticks (env : Nat → Env) (fuel : Nat) (ms : List Nat) (ds : Devices) (j : Nat) : List (Bool × Nat) × Devices :=
  (tick env fuel ms)^[j] (roundVisits ms, ds)

theorem ticks_succ (ms : List Nat) (j : Nat) :
    ticks env fuel ms ds (j + 1) = tick env fuel ms (ticks env fuel ms ds j) :=
  Function.iterate_succ_apply' _ _ _

theorem visits_ticks (ms : List Nat) : Visits env fuel (fun j => (ticks env fuel ms ds j).2) := by
  intro j
  simp only [ticks_succ]
  obtain ⟨todo, ds'⟩ := ticks env fuel ms ds j
  cases todo with
  | nil => exact .inl rfl
  | cons v vs => exact .inr ⟨v, rfl⟩

theorem kept_ticks {ms : List Nat} {j : Nat} {todo : List (Bool × Nat)}
    (hj : ticks env fuel ms ds j = (todo, ds')) : Kept ds ds' := by
  have h := (@visits_ticks env fuel ds ms).kept j
  rwa [hj] at h

/-- Running the rest of a round; once the devices have settled there is nothing to do. -/
theorem ticks_allVisited {ms : List Nat} {j : Nat} {vs rest : List (Bool × Nat)}
    (hj : ticks env fuel ms ds j = (vs ++ rest, ds')) :
    ticks env fuel ms ds (j + vs.length) = (rest, (allVisited env fuel vs ds').2) ∧
      ((∀ a, SettledFrom (fun i => view (ticks env fuel ms ds i).2 a) j) →
        (allVisited env fuel vs ds').1 = false) := by
  induction vs generalizing j ds' with
  | nil => exact ⟨hj, fun _ => rfl⟩
  | cons v vs ih =>
      have hj' : ticks env fuel ms ds (j + 1) = (vs ++ rest, (visited env fuel v ds').2) := by
        rw [ticks_succ, hj]
        rfl
      obtain ⟨hrun, hquiet⟩ := ih hj'
      refine ⟨?_, fun hset => ?_⟩
      · rw [List.length_cons, show j + (vs.length + 1) = j + 1 + vs.length by omega]
        exact hrun
      · simp only [allVisited, Bool.or_eq_false_iff]
        refine ⟨?_, hquiet (fun a => (hset a).mono (by omega))⟩
        obtain h | ⟨d, s', hs, h, hflag⟩ := visited_cases env fuel v ds'
        · rw [h]
        · by_contra hne
          have hview := hset v.2 (j + 1) (by omega)
          simp only [hj, hj', h] at hview
          rw [view_store hs.found] at hview
          simp only [view, hs.found, Option.map_some, Option.some.injEq, viewOf, View.mk.injEq] at hview
          exact hflag (by simpa using hne) hview.1

theorem resyncAfterChanged_succ (hr : Ready fuel ds) (rounds : Nat) :
    resyncAfterChanged env fuel (rounds + 1) ds =
      if (allVisited env fuel (roundVisits (ds.map (·.minor))) ds).1 then
        resyncAfterChanged env fuel rounds (allVisited env fuel (roundVisits (ds.map (·.minor))) ds).2
      else some (allVisited env fuel (roundVisits (ds.map (·.minor))) ds).2 := by
  have hk := @kept_allVisited env fuel ds ((ds.map (·.minor)).map fun m => (true, m))
  have h1 : pauseAfter env fuel ds = some (allVisited env fuel ((ds.map (·.minor)).map fun m => (true, m)) ds) :=
    forEach_eq hr true _
  have h2 := @forEach_eq env fuel _ (hk.ready hr) false (ds.map (·.minor))
  simp only [resyncAfterChanged, h1, resumeNext, Option.bind_eq_bind, Option.bind_some, roundVisits,
    allVisited_append]
  rw [hk.minors, show resumeChoice fuel = choiceOf fuel false from rfl, h2]
  rfl

theorem resyncAfterChanged_isSome (hr : Ready fuel ds) : ∃ rounds, (resyncAfterChanged env fuel rounds ds).isSome := by
  obtain ⟨n, rfl⟩ : ∃ n, fuel = n + 1 := by
    cases fuel with
    | zero => exact (hr 0).elim
    | succ n => exact ⟨n, rfl⟩
  obtain ⟨K, hK⟩ := (@visits_ticks env (n + 1) ds (ds.map (·.minor))).settles hr
  -- a round that starts after everything has settled is the last one
  have hround : ∀ k j ds', ticks env (n + 1) (ds.map (·.minor)) ds j = (roundVisits (ds.map (·.minor)), ds') →
      K ≤ j + k → (resyncAfterChanged env (n + 1) (k + 1) ds').isSome := by
    intro k
    induction k with
    | zero =>
        intro j ds' hj hle
        have hkept : Kept ds ds' := kept_ticks hj
        obtain ⟨-, hquiet⟩ := @ticks_allVisited env (n + 1) ds ds' _ j _ [] (by rw [List.append_nil]; exact hj)
        rw [resyncAfterChanged_succ (hkept.ready hr), hkept.minors,
          hquiet (fun a => (hK a).mono (by omega))]
        rfl
    | succ k ih =>
        intro j ds' hj hle
        have hkept : Kept ds ds' := kept_ticks hj
        obtain ⟨hrun, -⟩ := @ticks_allVisited env (n + 1) ds ds' _ j _ [] (by rw [List.append_nil]; exact hj)
        have hnext := @ticks_succ env (n + 1) ds (ds.map (·.minor)) (j + (roundVisits (ds.map (·.minor))).length)
        rw [hrun] at hnext
        rw [resyncAfterChanged_succ (hkept.ready hr), hkept.minors]
        split
        · exact ih _ _ hnext (by omega)
        · rfl
  exact ⟨K + 1, hround K 0 ds rfl (by omega)⟩

end Drbd.ResyncAfter
