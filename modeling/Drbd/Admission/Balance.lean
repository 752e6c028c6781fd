import Drbd.Admission.Lemmas.Effects

/-!
# References balance

In whatever order intervals are admitted, committed and completed, an extent has as many references as there are
intervals that hold it, and it is committed before an interval goes on.
-/

namespace Drbd.Admission

open Lib Lru

variable {s s' : AlSystem} {e e' : Entry} {al al' : LruCache} {rs rs' : Resync} {c k x enr j : Nat} {ev : AlEvent}

/-- The started intervals with a reference to the extent. -/
def AlSystem.covering (s : AlSystem) (x : Nat) : Nat := s.entries.countP fun e => x ∈ e.held

/-- What is known of a started interval. -/
def Entry.Ok (al : LruCache) (e : Entry) : Prop :=
  match e.stage with
  | .fetching rest looking needTransaction =>
      e.held ++ rest = e.i.extents ∧
        (∀ enr j, looking = some (enr, j) → enr ∈ e.held ∧ j < al.nrElements ∧ (al.lcElement j).lcNewNumber = enr) ∧
        (needTransaction = false → ∀ x ∈ e.held, (∀ j, looking ≠ some (x, j)) → Committed al x)
  | .taken => e.held = e.i.extents
  | .proceeding => e.held = e.i.extents ∧ ∀ x ∈ e.held, Committed al x

structure Inv (s : AlSystem) : Prop where
  ready : Ready s.al
  refs : ∀ x, x ≠ LC_FREE → refcntOf s.al x = s.covering x
  ok : ∀ e ∈ s.entries, e.Ok s.al
  /-- what a caller has taken is committed when it unlocks -/
  unlocking : ∀ c, s.commits c = .unlocking → ∀ e ∈ s.entries, e.caller = c → e.stage = .taken →
    ∀ x ∈ e.held, Committed s.al x

theorem Interval.real (i : Interval) (hx : x ∈ i.extents) : x ≠ LC_FREE := mem_extents i.inRange hx

theorem Entry.Ok.subset (h : e.Ok al) (hx : x ∈ e.held) : x ∈ e.i.extents := by
  unfold Entry.Ok at h
  split at h
  · rw [← h.1]
    exact List.mem_append_left _ hx
  · rw [← h]
    exact hx
  · rw [← h.1]
    exact hx

theorem Entry.Ok.real (h : e.Ok al) (hx : x ∈ e.held) : x ≠ LC_FREE := e.i.real (h.subset hx)

theorem Entry.Ok.keeps (hok : e.Ok al) (h : Rep al) (hk : Keeps al al') (href : ∀ x ∈ e.held, refcntOf al x ≠ 0) :
    e.Ok al' := by
  have hcommitted : ∀ x ∈ e.held, Committed al x → Committed al' x := fun x hx =>
    hk.committedOf h (hok.real hx) (href x hx)
  have hreal := fun x hx => hok.real (x := x) hx
  unfold Entry.Ok at hok ⊢
  split
  · rename_i rest looking need hstage
    rw [hstage] at hok
    obtain ⟨happend, hlooking, hneed⟩ := hok
    refine ⟨happend, fun enr j hl => ?_, fun hno x hx hl => hcommitted x hx (hneed hno x hx hl)⟩
    obtain ⟨hmem, hj, hnum⟩ := hlooking enr j hl
    have hrefj := href enr hmem
    rw [refcntOf_of_mem h hj (hreal enr hmem) hnum] at hrefj
    exact ⟨hmem, hk.nrElements ▸ hj, (hk.label j hrefj).trans hnum⟩
  · rename_i hstage
    rw [hstage] at hok
    exact hok
  · rename_i hstage
    rw [hstage] at hok
    exact ⟨hok.1, fun x hx => hcommitted x hx (hok.2 x hx)⟩

theorem Inv.refs_pos (hI : Inv s) (he : e ∈ s.entries) (hx : x ∈ e.held) : refcntOf s.al x ≠ 0 := by
  rw [hI.refs x ((hI.ok e he).real hx)]
  exact Nat.pos_iff_ne_zero.1 (List.countP_pos_iff.2 ⟨e, he, by simpa using hx⟩)

/-- The activity log changes, and all that is held stays. -/
theorem Inv.okAfter (hI : Inv s) (hk : Keeps s.al al') (he : e ∈ s.entries) : e.Ok al' :=
  (hI.ok e he).keeps hI.ready.rep hk fun _ hx => hI.refs_pos he hx

theorem Inv.unlockingAfter (hI : Inv s) (hk : Keeps s.al al') (hc : s.commits c = .unlocking) (he : e ∈ s.entries)
    (hcaller : e.caller = c) (htaken : e.stage = .taken) (hx : x ∈ e.held) : Committed al' x :=
  hk.committedOf hI.ready.rep ((hI.ok e he).real hx) (hI.refs_pos he hx) (hI.unlocking c hc e he hcaller htaken x hx)

/-- The activity log alone changes, and no reference with it. -/
theorem Inv.quiet (hI : Inv s) (hready : Ready al') (hsame : SameLabels s.al al') (rs' : Resync) :
    Inv { s with al := al', rs := rs' } where
  ready := hready
  refs x hx := (refcntOf_same hsame x).trans (hI.refs x hx)
  ok _ he := hI.okAfter (.of_same hsame) he
  unlocking _ hc _ he hcaller htaken _ hx := hI.unlockingAfter (.of_same hsame) hc he hcaller htaken hx

/-- An interval is started with references to `xs`. -/
theorem Inv.start (hI : Inv s) (e : Entry) (hready : Ready al') (hk : Keeps s.al al')
    (hrefs : ∀ x, x ≠ LC_FREE → refcntOf al' x = refcntOf s.al x + if x ∈ e.held then 1 else 0) (hok : e.Ok al')
    (hcaller : e.stage = .taken → s.commits e.caller ≠ .unlocking) (rs' : Resync) :
    Inv { s with al := al', rs := rs', entries := e :: s.entries } where
  ready := hready
  refs x hx := by
    rw [hrefs x hx, hI.refs x hx]
    unfold AlSystem.covering
    rw [List.countP_cons]
    simp only [decide_eq_true_eq]
  ok e' he' := by
    rcases List.mem_cons.1 he' with rfl | he'
    · exact hok
    · exact hI.okAfter hk he'
  unlocking c hc e' he' hcall htaken x hx := by
    rcases List.mem_cons.1 he' with rfl | he'
    · exact absurd (hcall ▸ hc) (hcaller htaken)
    · exact hI.unlockingAfter hk hc he' hcall htaken hx

/-- One of the started intervals goes on. -/
theorem Inv.replace (hI : Inv s) (e' : Entry) (hk' : s.entries[k]? = some e) (hready : Ready al') (hk : Keeps s.al al')
    (hrefs : ∀ x, x ≠ LC_FREE → refcntOf al' x + (if x ∈ e.held then 1 else 0) =
      refcntOf s.al x + if x ∈ e'.held then 1 else 0) (hok : e'.Ok al')
    (hcaller : e'.stage = .taken → s.commits e'.caller ≠ .unlocking) (rs' : Resync) :
    Inv { s with al := al', rs := rs', entries := e' :: s.entries.eraseIdx k } where
  ready := hready
  refs x hx := by
    obtain ⟨hlt, hget⟩ := List.getElem?_eq_some_iff.1 hk'
    have hperm := (List.getElem_cons_eraseIdx_perm hlt).countP_eq fun e => decide (x ∈ e.held)
    have hx' := hrefs x hx
    have hcount := hI.refs x hx
    unfold AlSystem.covering at hcount ⊢
    rw [hget, List.countP_cons] at hperm
    rw [List.countP_cons]
    simp only [decide_eq_true_eq] at hperm ⊢
    omega
  ok e₁ he₁ := by
    rcases List.mem_cons.1 he₁ with rfl | he₁
    · exact hok
    · exact hI.okAfter hk (List.mem_of_mem_eraseIdx he₁)
  unlocking c hc e₁ he₁ hcall htaken x hx := by
    rcases List.mem_cons.1 he₁ with rfl | he₁
    · exact absurd (hcall ▸ hc) (hcaller htaken)
    · exact hI.unlockingAfter hk hc (List.mem_of_mem_eraseIdx he₁) hcall htaken hx

/-! ## Admission -/

/-- What `_al_get` does. -/
theorem alGet_effect {nonblock : Bool} {r : Option Nat} (h : Ready al) (hreal : enr ≠ LC_FREE)
    (hget : alGet al rs enr nonblock = some (al', rs', r)) :
    Ready al' ∧ ((r = none ∧ SameLabels al al') ∨
      ∃ j, r = some j ∧ Got al al' enr j ∧ (nonblock = true → (al'.lcElement j).lcNumber = enr)) := by
  unfold alGet at hget
  split at hget
  · cases hget
    exact ⟨h, .inl ⟨rfl, rfl, rfl, rfl⟩⟩
  · obtain ⟨⟨al₁, r₁⟩, hflags, heq⟩ := Option.map_eq_some_iff.1 hget
    cases heq
    cases nonblock with
    | true =>
        refine ⟨h.getFlags hreal hflags, ?_⟩
        rcases getFlags_effect h hreal hflags with hnone | ⟨j, hr, hgot, hnum⟩
        · exact .inl hnone
        · exact .inr ⟨j, hr, hgot, fun _ => hnum rfl rfl⟩
    | false =>
        refine ⟨h.getFlags hreal hflags, ?_⟩
        rcases getFlags_effect h hreal hflags with hnone | ⟨j, hr, hgot, _⟩
        · exact .inl hnone
        · exact .inr ⟨j, hr, hgot, fun hno => absurd hno Bool.noConfusion⟩

theorem extents_single {i : Interval} (h : firstExtent i.sector = lastExtent i.sector i.size) :
    i.extents = [firstExtent i.sector] := by
  unfold Interval.extents Noblock.extents
  unfold firstExtent lastExtent at *
  dsimp only
  rw [← h, Nat.add_sub_cancel_left]
  rfl

theorem Inv.fastpath {i : Interval} (hI : Inv s) (h : s.fastpath c i = some s') : Inv s' := by
  unfold AlSystem.fastpath at h
  split at h
  · cases h
    exact hI
  · rename_i hsame
    have hextents := extents_single (not_not.1 hsame)
    obtain ⟨⟨al', rs', r⟩, hget, heq⟩ := Option.map_eq_some_iff.1 h
    cases heq
    have hreal : firstExtent i.sector ≠ LC_FREE := i.real (by rw [hextents]; exact List.mem_singleton_self _)
    obtain ⟨hready, ⟨hr, hlabels⟩ | ⟨j, hr, hgot, hcommitted⟩⟩ := alGet_effect hI.ready hreal hget
    · cases hr
      exact hI.quiet hready hlabels rs'
    · cases hr
      refine hI.start ⟨i, c, [firstExtent i.sector], .proceeding⟩ hready hgot.keeps (fun x hx => ?_)
        ⟨hextents.symm, fun x hx => ?_⟩ (fun h => by cases h) rs'
      · rw [hgot.refs x hx]
        simp only [List.mem_singleton]
      · cases List.mem_singleton.1 hx
        exact ⟨j, hgot.lt, hgot.label, hcommitted rfl⟩

theorem Inv.prepare (hI : Inv s) (c : Nat) (i : Interval) :
    Inv { s with entries := ⟨i, c, [], .fetching i.extents none false⟩ :: s.entries } := by
  refine hI.start ⟨i, c, [], .fetching i.extents none false⟩ hI.ready (.of_same ⟨rfl, rfl, rfl⟩) (fun x _ => by simp)
    ⟨rfl, fun _ _ h => ?_, fun _ x hx => ?_⟩ (fun h => by cases h) s.rs
  · cases h
  · cases hx

theorem Inv.get (hI : Inv s) (h : s.get k = some s') : Inv s' := by
  unfold AlSystem.get at h
  split at h
  · rename_i i c held enr rest need hk
    obtain ⟨⟨al', rs', r⟩, hget, heq⟩ := Option.map_eq_some_iff.1 h
    cases heq
    have hok := hI.ok _ (List.mem_of_getElem? hk)
    have happend : held ++ enr :: rest = i.extents := hok.1
    have hreal : enr ≠ LC_FREE := i.real (by rw [← happend]; exact List.mem_append_right _ List.mem_cons_self)
    obtain ⟨hready, ⟨hr, hlabels⟩ | ⟨j, hr, hgot, _⟩⟩ := alGet_effect hI.ready hreal hget
    · cases hr
      exact hI.quiet hready hlabels rs'
    · cases hr
      have hnew : enr ∉ held := by
        have hnodup := Noblock.extents_nodup i.sector i.size
        rw [show Noblock.extents i.sector i.size = held ++ enr :: rest from happend.symm, List.nodup_append] at hnodup
        exact fun hmem => hnodup.2.2 enr hmem enr List.mem_cons_self rfl
      have hokAfter := hI.okAfter hgot.keeps (List.mem_of_getElem? hk)
      refine hI.replace ⟨i, c, held ++ [enr], .fetching rest (some (enr, j)) need⟩ hk hready hgot.keeps
        (fun x hx => ?_) ⟨?_, fun enr' j' hl => ?_, fun hno x hx hl => ?_⟩ (fun h => by cases h) rs'
      · rw [hgot.refs x hx]
        simp only [List.mem_append, List.mem_singleton]
        by_cases hxe : x = enr
        · subst hxe
          rw [if_neg hnew, if_pos rfl, if_pos (.inr rfl)]
        · simp only [hxe, or_false, if_false, Nat.add_zero]
      · rw [List.append_assoc, List.singleton_append]
        exact happend
      · cases hl
        exact ⟨List.mem_append_right _ (List.mem_singleton_self _), hgot.lt, hgot.label⟩
      · rcases List.mem_append.1 hx with hx | hx
        · exact hokAfter.2.2 hno x hx fun _ h => by cases h
        · cases List.mem_singleton.1 hx
          exact absurd rfl (hl j)
  · cases h

theorem Inv.look (hI : Inv s) (hout : ∀ e, s.entries[k]? = some e → s.commits e.caller = .outside)
    (h : s.look k = some s') : Inv s' := by
  unfold AlSystem.look at h
  split at h
  · rename_i i c held rest enr j need hk
    cases h
    have hout : s.commits c = .outside := hout _ hk
    obtain ⟨happend, hlooking, hneed⟩ := hI.ok _ (List.mem_of_getElem? hk)
    obtain ⟨hmem, hj, hnum⟩ := hlooking enr j rfl
    -- with the last element looked up, all that needs no transaction is committed
    have hall : (need || (s.al.lcElement j).lcNumber ≠ enr) = false → ∀ x ∈ held, Committed s.al x := by
      intro hno x hx
      obtain ⟨hno, hcommitted⟩ := Bool.or_eq_false_iff.1 hno
      by_cases hxe : x = enr
      · exact ⟨j, hj, hnum.trans hxe.symm, by simpa [hxe] using hcommitted⟩
      · exact hneed hno x hx fun _ hl => by cases hl; exact hxe rfl
    generalize (need || decide ((s.al.lcElement j).lcNumber ≠ enr)) = need' at hall ⊢
    refine hI.replace ⟨i, c, held, AlSystem.afterLook rest need'⟩ hk hI.ready (.of_same ⟨rfl, rfl, rfl⟩)
      (fun _ _ => rfl) ?_ (fun _ hc => ?_) s.rs
    · by_cases hrest : rest = []
      · subst hrest
        have happend : held = i.extents := (List.append_nil held).symm.trans happend
        cases need' with
        | true => exact happend
        | false => exact ⟨happend, hall rfl⟩
      · rw [show AlSystem.afterLook rest need' = .fetching rest none need' from if_pos hrest]
        exact ⟨happend, fun _ _ h => (by cases h), fun hno x hx _ => hall hno x hx⟩
    · rw [hout] at hc
      cases hc
  · cases h

/-- What `drbd_al_begin_io_nonblock` does unless it is locked out. -/
theorem nonblock_effect {i : Interval} {err : Option Errno} (h : Ready al) (hlocked : ¬ LockedOut al rs i.sector i.size)
    (hcall : drbdAlBeginIoNonblock al rs i.sector i.size = some (al', rs', err)) :
    (err ≠ none ∧ al' = al) ∨ (err = none ∧ Ready al' ∧ Keeps al al' ∧
      ∀ x, x ≠ LC_FREE → refcntOf al' x = refcntOf al x + if x ∈ i.extents then 1 else 0) := by
  obtain ⟨hnr, hone⟩ := nrAlExtents_eq i.aligned i.inRange
  unfold drbdAlBeginIoNonblock at hcall
  dsimp only at hcall
  rw [hnr] at hcall
  split at hcall
  · cases hcall
    exact .inl ⟨fun h => (by cases h), rfl⟩
  rename_i hslots
  have hresync := checkResync_none_iff rs (Noblock.extents i.sector i.size)
  generalize checkResync rs (Noblock.extents i.sector i.size) = r at hresync hcall
  obtain ⟨rs₁, err₁⟩ := r
  cases err₁ with
  | some err₁ =>
      cases hcall
      exact .inl ⟨fun h => (by cases h), rfl⟩
  | none =>
      obtain ⟨al₁, hcheck, heq⟩ := Option.map_eq_some_iff.1 hcall
      cases heq
      have hroom : (∀ x ∈ Noblock.extents i.sector i.size, lcFindAny al x true ≠ none) ∨ al.lcLocked = false ∧
          (Noblock.extents i.sector i.size).length ≤ al.nrElements - al.used ∧
          (Noblock.extents i.sector i.size).length ≤ al.maxPendingChanges - al.pendingChanges := by
        unfold availableUpdateSlots at hslots
        cases hlock : al.lcLocked with
        | true =>
            refine .inl fun x hx hnone => hlocked ⟨?_, hresync.1 rfl, hlock, x, hx, hnone⟩
            unfold availableUpdateSlots
            omega
        | false => exact .inr ⟨rfl, by omega, by omega⟩
      have hstarving : al.lcStarving = false := by
        unfold availableUpdateSlots at hslots
        exact h.not_starving (by omega)
      obtain ⟨al₂, hcheck₂, hrefs⟩ := checkout_checked h.rep hstarving (Noblock.extents_nodup i.sector i.size)
        (fun x => mem_extents i.inRange) hroom
      cases hcheck.symm.trans hcheck₂
      obtain ⟨hready, hkeeps⟩ := checkout_keeps h (fun x => mem_extents i.inRange) hcheck
      exact .inr ⟨rfl, hready, hkeeps, hrefs⟩

theorem Inv.nonblock {i : Interval} (hI : Inv s) (hout : s.commits c = .outside)
    (hlocked : ¬ LockedOut s.al s.rs i.sector i.size) (h : s.nonblock c i = some s') : Inv s' := by
  obtain ⟨⟨al', rs', err⟩, hcall, heq⟩ := Option.map_eq_some_iff.1 h
  cases heq
  rcases nonblock_effect hI.ready hlocked hcall with ⟨herr, rfl⟩ | ⟨rfl, hready, hkeeps, hrefs⟩
  · obtain ⟨err, rfl⟩ := Option.ne_none_iff_exists'.1 herr
    exact hI.quiet hI.ready ⟨rfl, rfl, rfl⟩ rs'
  · exact hI.start ⟨i, c, i.extents, .taken⟩ hready hkeeps hrefs rfl (fun _ hc => by rw [hout] at hc; cases hc) rs'

/-! ## Committing and completing -/

theorem Inv.enter (hI : Inv s) (c : Nat) (stage : CommitStage)
    (hcommitted : stage = .unlocking → ∀ e ∈ s.entries, ∀ x ∈ e.held, Committed s.al x) : Inv (s.enter c stage) where
  ready := hI.ready
  refs := hI.refs
  ok := hI.ok
  unlocking c' hc e he hcaller htaken x hx := by
    unfold AlSystem.enter at hc
    dsimp only at hc
    by_cases hcc : c' = c
    · rw [hcc, Function.update_self] at hc
      exact hcommitted hc e he x hx
    · rw [Function.update_of_ne hcc] at hc
      exact hI.unlocking c' hc e he hcaller htaken x hx

theorem Inv.committed_of_nothingPending (hI : Inv s) (hpending : s.al.pendingChanges = 0) (he : e ∈ s.entries)
    (hx : x ∈ e.held) : Committed s.al x :=
  Admission.committed_of_nothingPending hI.ready hpending ((hI.ok e he).real hx) (hI.refs_pos he hx)

/-- The caller's intervals go on. -/
theorem Inv.proceed (hI : Inv s) (hcommitted : ∀ e ∈ s.entries, e.caller = c → e.stage = .taken →
    ∀ x ∈ e.held, Committed s.al x) : Inv (s.proceed c) where
  ready := hI.ready
  refs x hx := by
    rw [show (s.proceed c).al = s.al from rfl, hI.refs x hx]
    unfold AlSystem.covering AlSystem.proceed
    rw [List.countP_map]
    refine List.countP_congr fun e _ => ?_
    rw [Function.comp_apply]
    split <;> exact Iff.rfl
  ok e' he' := by
    obtain ⟨e, he, rfl⟩ := List.mem_map.1 he'
    have hok := hI.ok e he
    split
    · rename_i hgo
      have hall := hcommitted e he hgo.1 hgo.2
      unfold Entry.Ok at hok
      rw [hgo.2] at hok
      exact ⟨hok, hall⟩
    · exact hok
  unlocking c' hc e' he' hcaller htaken x hx := by
    obtain ⟨e, he, rfl⟩ := List.mem_map.1 he'
    unfold AlSystem.proceed at hc
    dsimp only at hc
    by_cases hcc : c' = c
    · rw [hcc, Function.update_self] at hc
      cases hc
    · rw [Function.update_of_ne hcc] at hc
      split at hcaller
      · rename_i hgo
        exact absurd (hcaller.symm.trans hgo.1) hcc
      · rename_i hgo
        rw [if_neg hgo] at htaken hx
        exact hI.unlocking c' hc e he hcaller htaken x hx

/-- What `drbd_al_complete_io` finds for an interval on its way. -/
theorem Inv.completes (hI : Inv s) (he : e ∈ s.entries) (hstage : e.stage = .proceeding) :
    ∃ al', completeExtents s.al e.i.extents = some (al', true) ∧ Ready al' ∧ SameNumbers s.al al' ∧
      ∀ y, y ≠ LC_FREE → refcntOf s.al y = refcntOf al' y + if y ∈ e.held then 1 else 0 := by
  have hok := hI.ok e he
  have hreal := fun x hx => hok.real (x := x) hx
  unfold Entry.Ok at hok
  rw [hstage] at hok
  obtain ⟨hheld, hcommitted⟩ := hok
  rw [← hheld]
  exact completeExtents_ok hI.ready (hheld ▸ Noblock.extents_nodup e.i.sector e.i.size) hreal
    fun x hx => ⟨hcommitted x hx, hI.refs_pos he hx⟩

theorem Inv.complete (hI : Inv s) (h : s.complete k = some s') : Inv s' := by
  unfold AlSystem.complete at h
  split at h
  · rename_i i c held hk
    obtain ⟨al', hcomplete, hready, hsame, hrefs⟩ := hI.completes (List.mem_of_getElem? hk) rfl
    rw [hcomplete] at h
    cases h
    refine ⟨hready, fun x hx => ?_, fun e he => hI.okAfter hsame.keeps (List.mem_of_mem_eraseIdx he),
      fun c hc e he hcaller htaken x hx =>
        hI.unlockingAfter hsame.keeps hc (List.mem_of_mem_eraseIdx he) hcaller htaken hx⟩
    obtain ⟨hlt, hget⟩ := List.getElem?_eq_some_iff.1 hk
    have hperm := (List.getElem_cons_eraseIdx_perm hlt).countP_eq fun e => decide (x ∈ e.held)
    have hx' := hrefs x hx
    have hcount := hI.refs x hx
    unfold AlSystem.covering at hcount ⊢
    rw [hget, List.countP_cons] at hperm
    simp only [decide_eq_true_eq] at hperm ⊢
    dsimp only at hx'
    omega
  · cases h

/-! ## Runs -/

/-- No interval is admitted without blocking while it is locked out. -/
def AlSystem.NotLockedOut (s : AlSystem) : AlEvent → Prop
  | .nonblock _ i => ¬ LockedOut s.al s.rs i.sector i.size
  | _ => True

theorem step_inv (hI : Inv s) (hc : s.NotLockedOut ev) (h : s.step ev = some s') : Inv s' := by
  unfold AlSystem.step at h
  split at h
  · rename_i hout
    cases ev with
    | fastpath c i => exact hI.fastpath h
    | prepare c i =>
        cases h
        exact hI.prepare c i
    | get k => exact hI.get h
    | look k =>
        refine hI.look (fun e he => ?_) h
        simpa [AlEvent.caller, he] using hout
    | nonblock c i => exact hI.nonblock (by simpa [AlEvent.caller] using hout) hc h
    | commit c =>
        cases h
        exact hI.enter c .waiting fun h => by cases h
    | nothingPending c =>
        simp only [AlSystem.apply] at h
        split at h
        · rename_i hnone
          cases h
          exact hI.proceed fun e he _ _ x hx => hI.committed_of_nothingPending hnone.2 he hx
        · cases h
    | tryLock c =>
        simp only [AlSystem.apply] at h
        have hready := hI.ready.setLocked s.al.lcDirty true
        have hquiet := hI.quiet hready ⟨rfl, rfl, rfl⟩ s.rs
        split at h
        · cases h
          split
          · exact hquiet.enter c .locked fun h => by cases h
          · exact hquiet
        · cases h
    | doubleCheck c =>
        simp only [AlSystem.apply] at h
        split at h
        · cases h
          refine hI.enter c _ fun hstage e he x hx => hI.committed_of_nothingPending ?_ he hx
          by_contra hne
          rw [if_pos hne] at hstage
          cases hstage
        · cases h
    | committed c =>
        simp only [AlSystem.apply] at h
        split at h
        · obtain ⟨al', hal, heq⟩ := Option.map_eq_some_iff.1 h
          cases heq
          obtain ⟨al₁, hal₁, hready, hkeeps, hrefs, hall⟩ := committed_effect hI.ready
          cases hal.symm.trans hal₁
          have hI' : Inv { s with al := al' } :=
            ⟨hready, fun x hx => (hrefs x).trans (hI.refs x hx), fun e he => hI.okAfter hkeeps he,
              fun c hc e he hcaller htaken x hx => hI.unlockingAfter hkeeps hc he hcaller htaken hx⟩
          refine hI'.enter c .unlocking fun _ e he x hx => ?_
          obtain ⟨j, hj, hnum, _⟩ := refcntOf_ne_zero hI.ready.rep ((hI.ok e he).real hx) (hI.refs_pos he hx)
          have hnum' := (hall j hj).1.trans hnum
          exact ⟨j, hkeeps.nrElements ▸ hj, hnum', (hall j hj).2.trans hnum'⟩
        · cases h
    | unlock c =>
        simp only [AlSystem.apply] at h
        split at h
        · rename_i hunlock
          cases h
          have hready := hI.ready.setLocked false false
          refine (hI.quiet hready ⟨rfl, rfl, rfl⟩ s.rs).proceed fun e he hcaller htaken x hx => ?_
          exact hI.unlocking c hunlock e he hcaller htaken x hx
        · cases h
    | complete k => exact hI.complete h
    | resync rs =>
        cases h
        exact hI.quiet hI.ready ⟨rfl, rfl, rfl⟩ rs
  · cases h

/-- What is promised for the started intervals. -/
structure Balanced (s : AlSystem) : Prop where
  refs : ∀ x, x ≠ LC_FREE → refcntOf s.al x = s.covering x
  fetched : ∀ e ∈ s.entries, e.held <+: e.i.extents
  covered : ∀ e ∈ s.entries, e.stage = .taken ∨ e.stage = .proceeding → e.held = e.i.extents
  committed : ∀ e ∈ s.entries, e.stage = .proceeding → ∀ x ∈ e.i.extents, ∀ j ∈ s.al.toBeChanged,
    (s.al.lcElement j).lcNewNumber ≠ x
  completes : ∀ e ∈ s.entries, e.stage = .proceeding → ∃ al', completeExtents s.al e.i.extents = some (al', true)

theorem Committed.not_toBeChanged (hc : Committed al x) (h : Rep al) (hx : x ≠ LC_FREE) (hj : j ∈ al.toBeChanged) :
    (al.lcElement j).lcNewNumber ≠ x := by
  intro hnum
  obtain ⟨hlt, hhome⟩ := (h.filed.mem .toBeChanged j).mp hj
  have hcommitted := hc.unique h hx hlt hnum
  obtain ⟨hh, -⟩ | ⟨hh, -⟩ | ⟨hh, -⟩ | ⟨-, -, hne, -⟩ := LcElement.home_cases (h.filed.plain j hlt)
  · cases hh.symm.trans hhome
  · cases hh.symm.trans hhome
  · cases hh.symm.trans hhome
  · exact hne (hcommitted.trans hnum.symm)

theorem Inv.balanced (hI : Inv s) : Balanced s where
  refs := hI.refs
  fetched e he := by
    have hok := hI.ok e he
    unfold Entry.Ok at hok
    split at hok
    · exact ⟨_, hok.1⟩
    · exact hok ▸ List.prefix_rfl
    · exact hok.1 ▸ List.prefix_rfl
  covered e he hstage := by
    have hok := hI.ok e he
    unfold Entry.Ok at hok
    rcases hstage with hstage | hstage
    · rw [hstage] at hok
      exact hok
    · rw [hstage] at hok
      exact hok.1
  committed e he hstage x hx j hj := by
    have hok := hI.ok e he
    unfold Entry.Ok at hok
    rw [hstage] at hok
    exact (hok.2 x (hok.1 ▸ hx)).not_toBeChanged hI.ready.rep (e.i.real hx) hj
  completes e he hstage := by
    obtain ⟨al', hcomplete, _⟩ := hI.completes he hstage
    exact ⟨al', hcomplete⟩

theorem start_inv {m n : Nat} (hn : 0 < n) (rs : Resync) : Inv (.create m n rs) where
  ready := ⟨rep_create hn, fun ht => by cases ht⟩
  refs x hx := by
    show refcntOf (lcCreate m n) x = 0
    by_contra hne
    obtain ⟨j, _, hnum, _⟩ := refcntOf_ne_zero (rep_create hn) hx hne
    exact hx hnum.symm
  ok _ he := by cases he
  unlocking _ hc := by cases hc

/-- In every run in which nobody is locked out. -/
theorem al_references_balance {m n : Nat} (hn : 0 < n) (rs : Resync) {evs : List AlEvent} {s : AlSystem}
    (hc : Meets AlSystem.step AlSystem.NotLockedOut (.create m n rs) evs)
    (hrun : run AlSystem.step (.create m n rs) evs = some s) : Balanced s :=
  (run_invariant step_inv (start_inv hn rs) hc hrun).balanced

instance (rs : Resync) (xs : List Nat) : Decidable (Unobstructed rs xs) :=
  inferInstanceAs (Decidable (∀ x ∈ xs, ∀ i ∈ lcFind rs.lc (x / AL_EXT_PER_BM_SECT), rs.noWrites i = false))

instance (al : LruCache) (rs : Resync) (sector size : Nat) : Decidable (LockedOut al rs sector size) :=
  decidable_of_iff ((Noblock.extents sector size).length ≤ availableUpdateSlots al ∧
      Unobstructed rs (Noblock.extents sector size) ∧ al.lcLocked = true ∧
      ∃ x ∈ Noblock.extents sector size, lcFindAny al x true = none)
    ⟨fun h => ⟨h.1, h.2.1, h.2.2.1, h.2.2.2⟩, fun h => ⟨h.slots, h.unobstructed, h.locked, h.cold⟩⟩

instance (s : AlSystem) (ev : AlEvent) : Decidable (s.NotLockedOut ev) := by
  cases ev <;> unfold AlSystem.NotLockedOut <;> infer_instance

/-- An interval in extent 5, one over the extents 0 and 1, and one in extent 0. -/
def inFive : Interval := ⟨1, 40960, 4096, by decide, by decide⟩

theorem inBoth_aligned : 8192 % 512 = 0 := rfl

def inBoth : Interval := ⟨2, 8184, 8192, inBoth_aligned, by decide⟩

def inZero : Interval := ⟨3, 0, 4096, by decide, by decide⟩

/-- The second caller needs no transaction of its own, and its interval completes. -/
theorem al_references_balance_shared :
    ∃ s, run AlSystem.step (.create 64 1237 noResync) [.prepare 0 inFive, .get 0, .look 0, .nonblock 1 inBoth,
        .commit 0, .commit 1, .tryLock 0, .doubleCheck 0, .committed 0, .unlock 0, .nothingPending 1,
        .fastpath 2 inZero, .complete 1] = some s ∧ Balanced s := by
  have hsome : (run AlSystem.step (.create 64 1237 noResync) [.prepare 0 inFive, .get 0, .look 0, .nonblock 1 inBoth,
      .commit 0, .commit 1, .tryLock 0, .doubleCheck 0, .committed 0, .unlock 0, .nothingPending 1,
      .fastpath 2 inZero, .complete 1]).isSome := by decide +kernel
  obtain ⟨s, hs⟩ := Option.isSome_iff_exists.1 hsome
  exact ⟨s, hs, al_references_balance (by decide) noResync (by decide +kernel) hs⟩

/-- Admitted while another caller has the cache locked, an interval goes to disk without a reference. -/
theorem al_reference_missing :
    ∃ s, run AlSystem.step (.create 64 1237 noResync) [.prepare 0 inFive, .get 0, .look 0, .commit 0, .tryLock 0,
        .nonblock 1 inZero, .doubleCheck 0, .committed 0, .unlock 0, .commit 1, .nothingPending 1] = some s ∧
      refcntOf s.al 0 = 0 ∧ s.covering 0 = 1 ∧
      ∃ e ∈ s.entries, e.stage = .proceeding ∧ e.i = inZero ∧
        ∃ al', completeExtents s.al e.i.extents = some (al', false) := by
  have hobs : ((run AlSystem.step (.create 64 1237 noResync) [.prepare 0 inFive, .get 0, .look 0, .commit 0, .tryLock 0,
      .nonblock 1 inZero, .doubleCheck 0, .committed 0, .unlock 0, .commit 1, .nothingPending 1]).map fun s =>
        (refcntOf s.al 0, s.covering 0, s.entries.filterMap fun e =>
          if e.stage = .proceeding ∧ e.i = inZero then (completeExtents s.al e.i.extents).map (·.2) else none))
      = some (0, 1, [false]) := by decide +kernel
  obtain ⟨s, hs, heq⟩ := Option.map_eq_some_iff.1 hobs
  simp only [Prod.mk.injEq] at heq
  obtain ⟨href, hcover, hentries⟩ := heq
  have hmem : false ∈ s.entries.filterMap fun e =>
      if e.stage = .proceeding ∧ e.i = inZero then (completeExtents s.al e.i.extents).map (·.2) else none := by
    rw [hentries]
    exact List.mem_singleton_self _
  obtain ⟨e, he, hsome⟩ := List.mem_filterMap.1 hmem
  split at hsome
  · rename_i hstage
    obtain ⟨⟨al', found⟩, hcomplete, rfl⟩ := Option.map_eq_some_iff.1 hsome
    exact ⟨s, hs, href, hcover, e, he, hstage.1, hstage.2, al', hcomplete⟩
  · cases hsome

end Drbd.Admission
