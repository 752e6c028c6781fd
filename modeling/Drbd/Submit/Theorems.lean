import Drbd.Lib.System
import Drbd.Submit.Defs
import Mathlib.Data.List.Perm.Basic
import Mathlib.Data.List.Range

/-!
# No queued write is forgotten

Every request is in one place: sent, or on one of the lists. The log is read backwards, so that what came before an
action is the rest of it.
-/

namespace Drbd.Submit

open Lib

variable {s s' : Submitter} {log : List Action} {req : Nat} {ev : SubmitEvent}

attribute [local simp] Submitter.step

/-! ## The log -/

theorem took_cons {a : Action} : Took (a :: log) req ↔ (∃ hot, a = .took req hot) ∨ Took log req := by
  simp only [Took, List.mem_cons]
  constructor
  · rintro ⟨hot, heq | hmem⟩
    · exact .inl ⟨hot, heq.symm⟩
    · exact .inr ⟨hot, hmem⟩
  · rintro (⟨hot, heq⟩ | ⟨hot, hmem⟩)
    · exact ⟨hot, .inl heq.symm⟩
    · exact ⟨hot, .inr hmem⟩

@[simp] theorem took_sent {req' : Nat} {b : Bool} : Took (.sent req' b :: log) req ↔ Took log req := by
  rw [took_cons]
  exact ⟨fun h => h.resolve_left nofun, .inr⟩

@[simp] theorem took_took {req' : Nat} {hot : Bool} : Took (.took req' hot :: log) req ↔ req' = req ∨ Took log req := by
  rw [took_cons]
  refine or_congr ⟨?_, ?_⟩ Iff.rfl
  · rintro ⟨_, heq⟩
    cases heq
    rfl
  · rintro rfl
    exact ⟨hot, rfl⟩

@[simp] theorem took_tookCold {reqs : List Nat} :
    Took (Submitter.tookCold reqs log) req ↔ req ∈ reqs ∨ Took log req := by
  induction reqs with
  | nil => simp [Submitter.tookCold]
  | cons r reqs ih =>
      change Took (.took r false :: Submitter.tookCold reqs log) req ↔ _
      rw [took_took, ih, List.mem_cons, or_assoc, eq_comm]

theorem took_of_uncommitted (h : req ∈ uncommitted log) : Took log req := by
  induction log with
  | nil => cases h
  | cons a log ih =>
      cases a with
      | took r hot =>
          cases hot with
          | true => exact took_took.2 (.inr (ih h))
          | false =>
              rcases List.mem_cons.1 h with rfl | hmem
              · exact took_took.2 (.inl rfl)
              · exact took_took.2 (.inr (ih hmem))
      | committed => cases h
      | sent r b => exact took_sent.2 (ih h)

@[simp] theorem sentIn_sent {b : Bool} : sentIn (.sent req b :: log) = req :: sentIn log := rfl
@[simp] theorem sentIn_took {hot : Bool} : sentIn (.took req hot :: log) = sentIn log := rfl
@[simp] theorem sentIn_committed : sentIn (.committed :: log) = sentIn log := rfl

@[simp] theorem sentIn_tookCold {reqs : List Nat} : sentIn (Submitter.tookCold reqs log) = sentIn log := by
  induction reqs with
  | nil => rfl
  | cons r reqs ih => exact ih

theorem sound_tookCold {reqs : List Nat} : Sound (Submitter.tookCold reqs log) ↔ Sound log := by
  induction reqs with
  | nil => exact Iff.rfl
  | cons r reqs ih => exact ih

/-- A request that has no references is sent without them. -/
theorem Sound.unneeded (h : Sound log) (hnot : ¬ Took log req) : Sound (.sent req false :: log) :=
  ⟨h, ⟨nofun, fun ht => absurd ht hnot⟩, fun hmem => hnot (took_of_uncommitted hmem)⟩

/-- A request that gets references to hot extents is sent at once. -/
theorem Sound.hot (h : Sound log) (hnot : ¬ Took log req) : Sound (.sent req true :: .took req true :: log) := by
  refine ⟨h, ⟨fun _ => took_took.2 (.inl rfl), fun _ => rfl⟩, fun hmem => ?_⟩
  have hmem : req ∈ uncommitted log := hmem
  exact hnot (took_of_uncommitted hmem)

/-! ## The lists -/

theorem prepare_perm (admitted : List Bool) (incoming : List Nat) :
    ((prepareAlTransactionNonblock admitted incoming).1 ++ (prepareAlTransactionNonblock admitted incoming).2).Perm
      incoming := by
  induction admitted generalizing incoming with
  | nil =>
      unfold prepareAlTransactionNonblock
      exact .refl _
  | cons b admitted ih =>
      cases incoming with
      | nil =>
          cases b <;> exact .refl _
      | cons r incoming =>
          cases b with
          | true => exact (ih incoming).cons r
          | false => exact List.perm_middle.trans ((ih incoming).cons r)

/-- How often a request is somewhere. -/
def Submitter.times (s : Submitter) (req : Nat) : Nat :=
  (sentIn s.log).count req + s.pending.count req + s.incoming.count req + s.pc.held.count req + s.writes.count req

/-- On a list on which no references have been taken yet. -/
def Submitter.waiting (s : Submitter) (req : Nat) : Nat :=
  s.incoming.count req + s.pc.held.count req + s.writes.count req

structure Inv (s : Submitter) : Prop where
  once : ∀ req, s.times req = if req < s.next then 1 else 0
  untaken : ∀ req, 0 < s.waiting req ∨ s.next ≤ req → ¬ Took s.log req
  taken : ∀ req ∈ s.pending, Took s.log req
  sound : Sound s.log
  committed : s.pc = .send → uncommitted s.log = []
  /-- the worker's lists are empty where it does not look at them -/
  empty : match s.pc with
    | .idle | .splice => s.incoming = [] ∧ s.pending = []
    | .fast _ | .blocking => s.pending = []
    | _ => True
  /-- a queued request is seen: the work is on its queue, is about to be, or the worker looks -/
  seen : s.pc ≠ .splice → s.writes ≠ [] → s.queued = true ∨ 0 < s.queueing

/-- A request with references is past the lists of those without. -/
theorem Inv.untaken_after (hI : Inv s) (hnext : s.next ≤ s'.next)
    (honce : ∀ req, s'.times req = if req < s'.next then 1 else 0)
    (hwait : ∀ req, 0 < s'.waiting req → 0 < s.waiting req ∨ s.next ≤ req)
    (htook : ∀ req, Took s'.log req → Took s.log req ∨ req ∈ sentIn s'.log ∨ req ∈ s'.pending) :
    ∀ req, 0 < s'.waiting req ∨ s'.next ≤ req → ¬ Took s'.log req := by
  intro req hreq ht
  have htimes := honce req
  rcases htook req ht with hold | hout
  · refine hI.untaken req ?_ hold
    rcases hreq with hwaiting | hle
    · exact hwait req hwaiting
    · exact .inr (hnext.trans hle)
  · have hcount : 0 < (sentIn s'.log).count req + s'.pending.count req := by
      rcases hout with hsent | hpending
      · have := List.count_pos_iff.2 hsent
        omega
      · have := List.count_pos_iff.2 hpending
        omega
    unfold Submitter.times at htimes
    unfold Submitter.waiting at hreq
    split at htimes <;> omega

theorem Inv.request (hI : Inv s) (result : FastPath) (h : s.step (.request result) = some s') : Inv s' := by
  have hnew : ¬ Took s.log s.next := hI.untaken s.next (.inr (Nat.le_refl _))
  have hfresh : s.next ∉ s.pending := fun hmem => hnew (hI.taken s.next hmem)
  have honce : ∀ req, s.times req + (if s.next = req then 1 else 0) = if req < s.next + 1 then 1 else 0 := fun req => by
    rw [hI.once]
    split <;> split <;> split <;> omega
  cases result with
  | unneeded =>
      cases h
      have honce' : ∀ req, Submitter.times { s with next := s.next + 1, log := .sent s.next false :: s.log } req =
          if req < s.next + 1 then 1 else 0 := fun req => by
        rw [← honce req]
        simp [Submitter.times, List.count_cons]
        omega
      exact ⟨honce', hI.untaken_after (Nat.le_succ _) honce' (fun req hreq => .inl hreq)
        (fun req ht => .inl (took_sent.1 ht)),
        fun req hreq => took_sent.2 (hI.taken req hreq), hI.sound.unneeded hnew, hI.committed, hI.empty, hI.seen⟩
  | hot =>
      cases h
      have honce' : ∀ req, Submitter.times { s with
          next := s.next + 1, log := .sent s.next true :: .took s.next true :: s.log } req =
          if req < s.next + 1 then 1 else 0 := fun req => by
        rw [← honce req]
        simp [Submitter.times, List.count_cons]
        omega
      refine ⟨honce', hI.untaken_after (Nat.le_succ _) honce' (fun req hreq => .inl hreq) (fun req ht => ?_),
        fun req hreq => took_sent.2 (took_took.2 (.inr (hI.taken req hreq))), hI.sound.hot hnew, hI.committed, hI.empty,
        hI.seen⟩
      rcases took_took.1 (took_sent.1 ht) with rfl | hold
      · exact .inr (.inl List.mem_cons_self)
      · exact .inl hold
  | cold =>
      cases h
      have honce' : ∀ req, Submitter.times { s with
          next := s.next + 1, writes := s.writes ++ [s.next], queueing := s.queueing + 1 } req =
          if req < s.next + 1 then 1 else 0 := fun req => by
        rw [← honce req]
        simp [Submitter.times, List.count_cons]
        omega
      refine ⟨honce', hI.untaken_after (Nat.le_succ _) honce' (fun req hreq => ?_) (fun req ht => .inl ht), hI.taken,
        hI.sound, hI.committed, hI.empty, fun _ _ => .inr (Nat.succ_pos _)⟩
      by_cases heq : req = s.next
      · exact .inr (Nat.le_of_eq heq.symm)
      · left
        simp [Submitter.waiting, Ne.symm heq] at *
        omega

/-- A step of the worker moves requests from list to list. -/
theorem Inv.worker (hI : Inv s) (hnext : s'.next = s.next) (htimes : ∀ req, s'.times req = s.times req)
    (hwait : ∀ req, s'.waiting req ≤ s.waiting req)
    (htook : ∀ req, Took s'.log req → Took s.log req ∨ req ∈ sentIn s'.log ∨ req ∈ s'.pending)
    (htaken : ∀ req ∈ s'.pending, Took s'.log req) (hsound : Sound s'.log)
    (hcommitted : s'.pc = .send → uncommitted s'.log = [])
    (hempty : match s'.pc with
      | .idle | .splice => s'.incoming = [] ∧ s'.pending = []
      | .fast _ | .blocking => s'.pending = []
      | _ => True)
    (hseen : s'.pc ≠ .splice → s'.writes ≠ [] → s'.queued = true ∨ 0 < s'.queueing) : Inv s' := by
  have honce : ∀ req, s'.times req = if req < s'.next then 1 else 0 := fun req => by rw [htimes, hnext, hI.once]
  refine ⟨honce, hI.untaken_after (Nat.le_of_eq hnext.symm) honce (fun req hreq => ?_) htook, htaken, hsound,
    hcommitted,
    hempty, hseen⟩
  exact .inl (Nat.lt_of_lt_of_le hreq (hwait req))

/-- References are taken for a request off the lists. -/
theorem Inv.not_took (hI : Inv s) (hreq : 0 < s.waiting req) : ¬ Took s.log req := hI.untaken req (.inl hreq)

theorem Inv.fast (hI : Inv s) (result : FastPath) (h : s.step (.fast result) = some s') : Inv s' := by
  cases hpc : s.pc with
  | fast rest =>
      have hempty := hI.empty
      have hseen := hI.seen
      rw [hpc] at hempty hseen
      cases rest with
      | nil => simp [Submitter.step, hpc] at h
      | cons req rest =>
          have hnot : ¬ Took s.log req := hI.not_took (by
            simp only [Submitter.waiting, hpc, Pc.held, List.count_cons_self]
            omega)
          cases result with
          | unneeded =>
              simp only [Submitter.step, hpc, Option.some_inj] at h
              subst h
              refine hI.worker rfl (fun r => ?_) (fun r => ?_) (fun r ht => .inl (took_sent.1 ht))
                (fun r hr => took_sent.2 (hI.taken r hr)) (hI.sound.unneeded hnot) nofun hempty fun _ => hseen nofun
              · simp [Submitter.times, hpc, Pc.held, List.count_cons]
                omega
              · simp [Submitter.waiting, hpc, Pc.held, List.count_cons]
          | hot =>
              simp only [Submitter.step, hpc, Option.some_inj] at h
              subst h
              refine hI.worker rfl (fun r => ?_) (fun r => ?_) (fun r ht => ?_)
                (fun r hr => took_sent.2 (took_took.2 (.inr (hI.taken r hr)))) (hI.sound.hot hnot) nofun hempty
                fun _ => hseen nofun
              · simp [Submitter.times, hpc, Pc.held, List.count_cons]
                omega
              · simp [Submitter.waiting, hpc, Pc.held, List.count_cons]
              · rcases took_took.1 (took_sent.1 ht) with rfl | hold
                · exact .inr (.inl List.mem_cons_self)
                · exact .inl hold
          | cold =>
              simp only [Submitter.step, hpc, Option.some_inj] at h
              subst h
              refine hI.worker rfl (fun r => ?_) (fun r => ?_) (fun r ht => .inl ht) hI.taken hI.sound nofun hempty
                fun _ => hseen nofun
              · simp [Submitter.times, hpc, Pc.held, List.count_cons]
                omega
              · simp [Submitter.waiting, hpc, Pc.held, List.count_cons]
                omega
  | _ => simp [Submitter.step, hpc] at h

theorem took_admitted {reqs pending : List Nat} (htaken : ∀ req ∈ pending, Took log req) :
    ∀ req ∈ pending ++ reqs, Took (Submitter.tookCold reqs log) req := fun req hreq =>
  took_tookCold.2 ((List.mem_append.1 hreq).symm.imp_right (htaken req))

theorem Inv.prepare (hI : Inv s) (admitted : List Bool) (h : s.step (.prepare admitted) = some s') : Inv s' := by
  cases hpc : s.pc with
  | wait =>
      have hseen := hI.seen
      rw [hpc] at hseen
      simp only [Submitter.step, hpc, Option.some_inj] at h
      subst h
      have hperm := fun r => (prepare_perm admitted s.incoming).count_eq r
      simp only [List.count_append] at hperm
      generalize prepareAlTransactionNonblock admitted s.incoming = lists at *
      generalize hgoes : (if s.pending ++ lists.1 = [] then Pc.wait else Pc.more) = pc
      have hpc' : pc = .wait ∨ pc = .more := by
        rw [← hgoes]
        split <;> simp
      have hheld : pc.held = [] := by rcases hpc' with rfl | rfl <;> rfl
      refine hI.worker rfl (fun r => ?_) (fun r => ?_) (fun r ht => ?_) (took_admitted hI.taken)
        (sound_tookCold.2 hI.sound) ?_ ?_ fun _ => hseen nofun
      · have := hperm r
        simp [Submitter.times, hheld, hpc, show Pc.wait.held = [] from rfl]
        omega
      · have := hperm r
        simp [Submitter.waiting, hheld, hpc, show Pc.wait.held = [] from rfl]
        omega
      · exact (took_tookCold.1 ht).elim (fun hmem => .inr (.inr (List.mem_append_right s.pending hmem))) .inl
      · rcases hpc' with rfl | rfl <;> nofun
      · rcases hpc' with rfl | rfl <;> trivial
  | _ => simp [Submitter.step, hpc] at h

theorem Inv.prepareMore (hI : Inv s) (admitted : List Bool) (h : s.step (.prepareMore admitted) = some s') :
    Inv s' := by
  cases hpc : s.pc with
  | prepareMore moreIncoming =>
      have hseen := hI.seen
      rw [hpc] at hseen
      simp only [Submitter.step, hpc, Option.some_inj] at h
      subst h
      have hperm := fun r => (prepare_perm admitted moreIncoming).count_eq r
      simp only [List.count_append] at hperm
      generalize prepareAlTransactionNonblock admitted moreIncoming = lists at *
      generalize hgoes : (if lists.1 = [] then Pc.commit else Pc.more) = pc
      have hpc' : pc = .commit ∨ pc = .more := by
        rw [← hgoes]
        split <;> simp
      have hheld : pc.held = [] := by rcases hpc' with rfl | rfl <;> rfl
      refine hI.worker rfl (fun r => ?_) (fun r => ?_) (fun r ht => ?_) (took_admitted hI.taken)
        (sound_tookCold.2 hI.sound) ?_ ?_ fun _ => hseen nofun
      · have := hperm r
        simp [Submitter.times, hheld, hpc, show (Pc.prepareMore moreIncoming).held = moreIncoming from rfl]
        omega
      · have := hperm r
        simp [Submitter.waiting, hheld, hpc, show (Pc.prepareMore moreIncoming).held = moreIncoming from rfl]
        omega
      · exact (took_tookCold.1 ht).elim (fun hmem => .inr (.inr (List.mem_append_right s.pending hmem))) .inl
      · rcases hpc' with rfl | rfl <;> nofun
      · rcases hpc' with rfl | rfl <;> trivial
  | _ => simp [Submitter.step, hpc] at h

theorem Inv.send (hI : Inv s) (h : s.step .send = some s') : Inv s' := by
  cases hpc : s.pc with
  | send =>
      have hseen := hI.seen
      rw [hpc] at hseen
      cases hpending : s.pending with
      | nil => simp [Submitter.step, hpc, hpending] at h
      | cons req pending =>
          simp only [Submitter.step, hpc, hpending, Option.some_inj] at h
          subst h
          have htook : Took s.log req := hI.taken req (by rw [hpending]; exact List.mem_cons_self)
          have hnone := hI.committed hpc
          refine hI.worker rfl (fun r => ?_) (fun r => ?_) (fun r ht => .inl (took_sent.1 ht))
            (fun r hr => took_sent.2 (hI.taken r ?_)) ⟨hI.sound, ⟨fun _ => htook, fun _ => rfl⟩, ?_⟩ (fun _ => hnone) ?_
            fun _ => hseen nofun
          · simp [Submitter.times, hpc, hpending, Pc.held, List.count_cons]
            omega
          · simp [Submitter.waiting, hpc]
          · rw [hpending]
            exact List.mem_cons_of_mem req hr
          · rw [hnone]
            exact List.not_mem_nil
          · trivial
  | _ => simp [Submitter.step, hpc] at h

theorem Inv.begin {hot : Bool} (hI : Inv s) (h : s.step (.begin hot) = some s') : Inv s' := by
  cases hpc : s.pc with
  | blocking =>
      have hseen := hI.seen
      have hempty := hI.empty
      rw [hpc] at hseen hempty
      cases hincoming : s.incoming with
      | nil => simp [Submitter.step, hpc, hincoming] at h
      | cons req incoming =>
          have hnot : ¬ Took s.log req := hI.not_took (by
            simp only [Submitter.waiting, hincoming, List.count_cons_self]
            omega)
          cases hot with
          | true =>
              simp only [Submitter.step, hpc, hincoming, if_true, Option.some_inj] at h
              subst h
              refine hI.worker rfl (fun r => ?_) (fun r => ?_) (fun r ht => ?_)
                (fun r hr => took_sent.2 (took_took.2 (.inr (hI.taken r hr)))) (hI.sound.hot hnot) ?_ ?_
                fun _ => hseen nofun
              · simp [Submitter.times, hpc, hincoming, Pc.held, List.count_cons]
                omega
              · simp [Submitter.waiting, hpc, hincoming, Pc.held, List.count_cons]
              · rcases took_took.1 (took_sent.1 ht) with rfl | hold
                · exact .inr (.inl List.mem_cons_self)
                · exact .inl hold
              · nofun
              · exact hempty
          | false =>
              simp only [Submitter.step, hpc, hincoming, Bool.false_eq_true, if_false, Option.some_inj] at h
              subst h
              refine hI.worker rfl (fun r => ?_) (fun r => ?_) (fun r ht => ?_) (fun r hr => ?_) hI.sound nofun trivial
                fun _ => hseen nofun
              · simp [Submitter.times, hpc, hincoming, Pc.held, List.count_cons]
                omega
              · simp [Submitter.waiting, hpc, hincoming, Pc.held, List.count_cons]
              · rcases took_took.1 ht with rfl | hold
                · exact .inr (.inr List.mem_cons_self)
                · exact .inl hold
              · rcases List.mem_cons.1 hr with rfl | hold
                · exact took_took.2 (.inl rfl)
                · exact took_took.2 (.inr (hI.taken r hold))
  | _ => simp [Submitter.step, hpc] at h

end Drbd.Submit
