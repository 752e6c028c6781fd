import Drbd.Bitmap.Lemmas.Find
import Drbd.Noblock.Lemmas.Cache
import Drbd.Noblock.Lemmas.Sync

/-!
# Why an ack clears only what the peer has

An ack that finds all its extents must belong to a request no write has overtaken: a write drops the
extents of its blocks, so an overtaken request misses an extent for as long as nobody brings that
extent back.
-/

namespace Drbd.Noblock

open Lru Bitmap

variable {g : Geometry} {ex : Nat → Nat → Prop} {s s' : State}

/-- A write that is on disk, but has not yet marked the block. -/
def Pending (s : State) (b : Nat) : Prop :=
  ∃ w ∈ s.endios, b ∈ blocks w.sector w.size

/-- A clear bit means that the peer acknowledged a copy with all completed writes of the block. -/
def Safe (s : State) : Prop :=
  ∀ b < s.bitmap.bmBits, ¬ Pending s b → s.bitmap.bit b = false → s.written b ≤ s.acked b

/-- The same, unless the version of a block is excused: some other place is going to send it. -/
def SafeBut (ex : Nat → Nat → Prop) (s : State) : Prop :=
  ∀ b < s.bitmap.bmBits, ¬ Pending s b → s.bitmap.bit b = false →
    s.written b ≤ s.acked b ∨ ex b (s.written b)

/-- A block of the request was written again after it was read. -/
def Overtaken (written : Nat → Nat) (r : PeerReq) : Prop :=
  ∃ b ∈ blocks r.sector r.size, ∃ v, r.copied b = some v ∧ v < written b

instance (written : Nat → Nat) (r : PeerReq) : Decidable (Overtaken written r) :=
  decidable_of_iff (∃ b ∈ blocks r.sector r.size, (r.copied b).any (· < written b) = true) (by
    simp [Overtaken, Option.any_eq_true])

/-- If the sender is at `begin_io`, that leaves every overtaken request short of an extent. -/
def KeepsDropped (s : State) : SenderPc → Prop
  | .beginIo sector size =>
      ∀ r ∈ s.reqs, Overtaken s.written r →
        ∃ x ∈ extents r.sector r.size, lcFind s.lruNoblock x = none ∧ x ∉ extents sector size
  | _ => True

instance (s : State) : DecidablePred (KeepsDropped s)
  | .beginIo _ _ => inferInstanceAs (Decidable (∀ r ∈ s.reqs, _))
  | .idle | .find | .test _ | .grow _ _ _ | .submit _ _ => inferInstanceAs (Decidable True)

/-- The ack is not about to clear a block of the write. -/
def Apart : Option Endio → Option Ack → Prop
  | some w, some a =>
      a.found = true → ∀ b ∈ blocks w.sector w.size, b ∉ blocks a.req.sector a.req.size
  | _, _ => True

instance : ∀ w a, Decidable (Apart w a)
  | some w, some a => inferInstanceAs (Decidable (a.found = true → ∀ b ∈ blocks w.sector w.size, _))
  | none, _ | some _, none => inferInstanceAs (Decidable True)

/-- The condition on the state before a step under which no update is lost. -/
def Keeps (s : State) : Event → Prop
  | .syncStep => KeepsDropped s s.sender.pc
  | .endioSetOutOfSync k => Apart s.endios[k]? s.ack
  | _ => True

instance (s : State) : DecidablePred (Keeps s)
  | .syncStep => inferInstanceAs (Decidable (KeepsDropped s s.sender.pc))
  | .endioSetOutOfSync k => inferInstanceAs (Decidable (Apart s.endios[k]? s.ack))
  | .endio _ _ | .syncStart | .syncAbort | .submitFailed | .readBlock _ _ | .replyFailed _
  | .replyNotSent _ | .ackArrives _ | .ackSetInSync => inferInstanceAs (Decidable True)

def SenderOk (g : Geometry) : SenderPc → Prop
  | .idle | .find => True
  | .test bit => bit * 8 < g.capacity
  | .grow sector _ _ => sector < g.capacity
  | .beginIo sector size | .submit sector size => OnDevice g.capacity sector size

structure Inv (g : Geometry) (ex : Nat → Nat → Prop) (s : State) : Prop where
  cache : CacheOk s.lruNoblock
  bits : s.bitmap.bmBits = (g.capacity + 7) / 8
  sender : SenderOk g s.sender.pc
  endios : ∀ w ∈ s.endios, WriteOk g w.sector w.size
  reqs : ∀ r ∈ s.reqs, OnDevice g.capacity r.sector r.size
  dropped : ∀ r ∈ s.reqs, Overtaken s.written r →
    ∃ x ∈ extents r.sector r.size, ¬ Tracks s.lruNoblock x
  granted : ∀ a, s.ack = some a → a.found = true →
    ∀ b ∈ blocks a.req.sector a.req.size, s.written b ≤ s.acked b ∨ Pending s b
  safe : SafeBut ex s

theorem WriteOk.onDevice {sector size} (h : WriteOk g sector size) : OnDevice g.capacity sector size :=
  ⟨h.2.2, g.capacity_le⟩

/-! ## Application writes -/

theorem Inv.endio {sector size} (hi : Inv g ex s) (h : endio g s sector size = some s') : Inv g ex s' := by
  unfold Noblock.endio at h
  split at h
  case isFalse => cases h
  rename_i hw
  simp only [Option.map_eq_some_iff, Prod.exists] at h
  obtain ⟨lc', ok, hcompl, rfl⟩ := h
  have hon := hw.onDevice
  obtain ⟨hc', hmono, _, hdrop⟩ :=
    compleateIo_spec hi.cache (fun x hx => hon.extent_ne_free hx) hcompl
  refine ⟨hc', hi.bits, hi.sender, ?_, hi.reqs, ?_, ?_, ?_⟩
  · intro w hmem
    rcases List.mem_append.1 hmem with hold | hnew
    · exact hi.endios w hold
    · rw [List.mem_singleton] at hnew; subst hnew; exact hw
  · rintro r hr ⟨b, hb, v, hv, hlt⟩
    have honr := hi.reqs r hr
    dsimp only at hlt
    split at hlt
    · rename_i hbw
      exact ⟨b / 2 ^ 10, honr.extent_of_block hb, hdrop rfl _ (hon.extent_of_block hbw)⟩
    · obtain ⟨x, hx, hxt⟩ := hi.dropped r hr ⟨b, hb, v, hv, hlt⟩
      exact ⟨x, hx, fun ht => hxt (hmono x (honr.extent_ne_free hx) ht)⟩
  · intro a ha hf b hb
    by_cases hbw : b ∈ blocks sector size
    · exact .inr ⟨⟨sector, size⟩, by simp, hbw⟩
    · rcases hi.granted a ha hf b hb with hle | ⟨w, hw', hbw'⟩
      · exact .inl (by simpa [hbw] using hle)
      · exact .inr ⟨w, List.mem_append_left _ hw', hbw'⟩
  · intro b hb hpend hbit
    have hbw : b ∉ blocks sector size := fun hbw => hpend ⟨⟨sector, size⟩, by simp, hbw⟩
    have hold := hi.safe b hb (fun ⟨w, hw', hbw'⟩ => hpend ⟨w, List.mem_append_left _ hw', hbw'⟩) hbit
    simpa [hbw] using hold

theorem mem_eraseIdx_of_ne {α : Type} {xs : List α} {k : Nat} {x y : α} (hk : xs[k]? = some y)
    (hx : x ∈ xs) (hne : x ≠ y) : x ∈ xs.eraseIdx k := by
  obtain ⟨i, hi⟩ := List.mem_iff_getElem?.1 hx
  rw [List.mem_eraseIdx_iff_getElem?]
  refine ⟨i, ?_, hi⟩
  rintro rfl
  rw [hk] at hi
  exact hne (Option.some.inj hi).symm

theorem Inv.endioSetOutOfSync {k} (hi : Inv g ex s) (hc : Apart s.endios[k]? s.ack)
    (h : endioSetOutOfSync g s k = some s') : Inv g ex s' := by
  unfold Noblock.endioSetOutOfSync at h
  split at h
  · cases h
  rename_i w hk
  cases h
  have hwmem : w ∈ s.endios := List.mem_of_getElem? hk
  have hw := hi.endios w hwmem
  refine ⟨hi.cache, by simpa using hi.bits, hi.sender,
    fun w' hw' => hi.endios w' (List.mem_of_mem_eraseIdx hw'), hi.reqs, hi.dropped, ?_, ?_⟩
  · -- a write that overlaps the granted ack would be the excluded race
    intro a ha hf b hb
    rcases hi.granted a ha hf b hb with hle | ⟨w', hw', hbw'⟩
    · exact .inl hle
    · refine .inr ⟨w', mem_eraseIdx_of_ne hk hw' ?_, hbw'⟩
      rintro rfl
      have ha' : s.ack = some a := ha
      rw [hk, ha'] at hc
      exact hc hf b hbw' hb
  · intro b hb hpend hbit
    simp only [bmBits_drbdSetOutOfSync] at hb
    by_cases hbw : b ∈ blocks w.sector w.size
    · rw [bit_drbdSetOutOfSync_self hw.onDevice.1 hw.1 hw.2.1 hbw hb] at hbit
      cases hbit
    · refine hi.safe b hb ?_ (bit_drbdSetOutOfSync_mono hb hbit)
      rintro ⟨w', hw', hbw'⟩
      refine hpend ⟨w', mem_eraseIdx_of_ne hk hw' ?_, hbw'⟩
      rintro rfl
      exact hbw hbw'

/-! ## The sender -/

theorem Inv.setSender {v : Sender} (hi : Inv g ex s) (hv : SenderOk g v.pc) :
    Inv g ex { s with sender := v } :=
  ⟨hi.cache, hi.bits, hv, hi.endios, hi.reqs, hi.dropped, hi.granted, hi.safe⟩

/-- Extents go, nothing else happens to the cache. -/
theorem Inv.release {sector size ok lc'} (hi : Inv g ex s) (hon : OnDevice g.capacity sector size)
    (h : drbdNoblockCompleateIo s.lruNoblock sector size false = some (lc', ok)) :
    Inv g ex { s with lruNoblock := lc' } := by
  obtain ⟨hc', hmono, _, _⟩ := compleateIo_spec hi.cache (fun x hx => hon.extent_ne_free hx) h
  refine ⟨hc', hi.bits, hi.sender, hi.endios, hi.reqs, fun r hr hov => ?_, hi.granted, hi.safe⟩
  obtain ⟨x, hx, hxt⟩ := hi.dropped r hr hov
  exact ⟨x, hx, fun ht => hxt (hmono x ((hi.reqs r hr).extent_ne_free hx) ht)⟩

theorem Inv.beginIo {sector size ok lc'} (hi : Inv g ex s) (hon : OnDevice g.capacity sector size)
    (hc : KeepsDropped s (.beginIo sector size))
    (h : drbdNoblockBeginIo s.lruNoblock sector size = some (lc', ok)) :
    Inv g ex { s with lruNoblock := lc' } := by
  obtain ⟨hc', hmono⟩ := beginIo_spec hi.cache (fun x hx => hon.extent_ne_free hx) h
  refine ⟨hc', hi.bits, hi.sender, hi.endios, hi.reqs, fun r hr hov => ?_, hi.granted, hi.safe⟩
  obtain ⟨x, hx, hnone, hnew⟩ := hc r hr hov
  have hxf := (hi.reqs r hr).extent_ne_free hx
  exact ⟨x, hx, fun ht => (hi.cache.tracks_iff hxf).1 (hmono x hnew ht) hnone⟩

theorem Inv.eraseReq (hi : Inv g ex s) (k : Nat) : Inv g ex { s with reqs := s.reqs.eraseIdx k } :=
  ⟨hi.cache, hi.bits, hi.sender, hi.endios, fun r hr => hi.reqs r (List.mem_of_mem_eraseIdx hr),
    fun r hr => hi.dropped r (List.mem_of_mem_eraseIdx hr), hi.granted, hi.safe⟩

theorem Inv.syncStep (hi : Inv g ex s) (hc : Keeps s .syncStep) (h : syncStep g s = some s') :
    Inv g ex s' := by
  have hsender := hi.sender
  unfold Noblock.syncStep at h
  simp only [Keeps] at hc
  dsimp only at h
  split at h
  · cases h
  · -- find
    split at h
    · cases h; exact hi.setSender trivial
    · rename_i bit hbit
      cases h
      have hlt := (bmFindNext_some hbit).lt
      rw [hi.bits] at hlt
      exact hi.setSender (show bit * 8 < g.capacity by omega)
  · -- test
    rename_i bit hpc
    rw [hpc] at hsender
    split at h
    · cases h; exact hi.setSender trivial
    · cases h; exact hi.setSender hsender
  · -- grow
    rename_i sector size bit hpc
    rw [hpc] at hsender
    have hlt : sector < g.capacity := hsender
    split at h
    · cases h; exact hi.setSender hlt
    · cases h
      refine hi.setSender ⟨?_, g.capacity_le⟩
      split <;> omega
  · -- beginIo
    rename_i sector size hpc
    rw [hpc] at hsender hc
    simp only [Option.map_eq_some_iff, Prod.exists] at h
    obtain ⟨lc', ok, hbegin, rfl⟩ := h
    exact (hi.beginIo hsender hc hbegin).setSender hsender
  · -- submit
    rename_i sector size hpc
    rw [hpc] at hsender
    cases h
    refine ⟨hi.cache, hi.bits, ?_, hi.endios, ?_, ?_, hi.granted, hi.safe⟩
    · dsimp only; split <;> trivial
    · intro r hr
      rcases List.mem_append.1 hr with hold | hnew
      · exact hi.reqs r hold
      · rw [List.mem_singleton] at hnew; subst hnew; exact hsender
    · intro r hr hov
      rcases List.mem_append.1 hr with hold | hnew
      · exact hi.dropped r hold hov
      · -- a fresh request has copied nothing
        rw [List.mem_singleton] at hnew
        subst hnew
        obtain ⟨b, _, v, hv, _⟩ := hov
        cases hv

theorem Inv.readBlock {k block r} (hi : Inv g ex s) (hk : s.reqs[k]? = some r) :
    Inv g ex { s with reqs := s.reqs.set k { r with
      copied := Function.update r.copied block (some (s.written block)) } } := by
  have hr : r ∈ s.reqs := List.mem_of_getElem? hk
  refine ⟨hi.cache, hi.bits, hi.sender, hi.endios, fun r' hr' => ?_, fun r' hr' hov => ?_, hi.granted,
    hi.safe⟩
  · rcases List.mem_or_eq_of_mem_set hr' with hold | rfl
    · exact hi.reqs r' hold
    · exact hi.reqs r hr
  · rcases List.mem_or_eq_of_mem_set hr' with hold | rfl
    · exact hi.dropped r' hold hov
    · obtain ⟨b, hb, v, hv, hlt⟩ := hov
      refine hi.dropped r hr ⟨b, hb, v, ?_, hlt⟩
      by_cases hbb : b = block
      · subst hbb
        simp only [Function.update_self, Option.some.injEq] at hv
        dsimp only at hlt
        omega
      · simpa [hbb] using hv

/-! ## Acks -/

theorem Inv.ackArrives {k} (hi : Inv g ex s) (h : ackArrives s k = some s') : Inv g ex s' := by
  unfold Noblock.ackArrives at h
  split at h
  case h_2 => cases h
  rename_i r hnone hk
  split at h
  case isFalse => cases h
  rename_i hcopied
  simp only [Option.map_eq_some_iff, Prod.exists] at h
  obtain ⟨lc', found, hcompl, rfl⟩ := h
  have hr : r ∈ s.reqs := List.mem_of_getElem? hk
  have hon := hi.reqs r hr
  have hrel := (hi.release hon hcompl).eraseReq k
  obtain ⟨_, _, hfound, _⟩ := compleateIo_spec hi.cache (fun x hx => hon.extent_ne_free hx) hcompl
  have hmono : ∀ b, s.acked b ≤ (if b ∈ blocks r.sector r.size
      then max (s.acked b) ((r.copied b).getD 0) else s.acked b) := by
    intro b; split <;> omega
  refine ⟨hrel.cache, hrel.bits, hrel.sender, hrel.endios, hrel.reqs, hrel.dropped, ?_, ?_⟩
  · intro a ha hf b hb
    cases ha
    left
    dsimp only at hf hb ⊢
    -- all extents were found, so the request is not overtaken
    have hnot : ¬ Overtaken s.written r := by
      intro hov
      obtain ⟨x, hx, hxt⟩ := hi.dropped r hr hov
      exact hxt (hfound hf x hx)
    obtain ⟨v, hv⟩ := Option.isSome_iff_exists.1 (hcopied b hb)
    have hle : s.written b ≤ v := by
      by_contra hlt
      exact hnot ⟨b, hb, v, hv, by omega⟩
    rw [if_pos hb, hv]
    exact le_trans hle (le_max_right _ _)
  · intro b hb hpend hbit
    exact (hi.safe b hb hpend hbit).imp_left fun hle => le_trans hle (hmono b)

theorem Inv.ackSetInSync (hi : Inv g ex s) (h : ackSetInSync g s = some s') : Inv g ex s' := by
  unfold Noblock.ackSetInSync at h
  split at h
  · cases h
  rename_i a ha
  cases h
  have hbits : (if a.found = true then drbdSetInSync g.capacity s.bitmap a.req.sector a.req.size
      else s.bitmap).bmBits = s.bitmap.bmBits := by
    split <;> simp
  refine ⟨hi.cache, by rw [hbits]; exact hi.bits, hi.sender, hi.endios, hi.reqs, hi.dropped,
    fun _ hn => (by cases hn), ?_⟩
  intro b hb hpend hbit
  dsimp only at hb hbit ⊢
  rw [hbits] at hb
  split at hbit
  · rename_i hfound
    by_cases hba : b ∈ blocks a.req.sector a.req.size
    · exact .inl ((hi.granted a ha hfound b hba).resolve_right hpend)
    · rw [bit_drbdSetInSync_of_notMem hb hba] at hbit
      exact hi.safe b hb hpend hbit
  · exact hi.safe b hb hpend hbit

/-! ## Any event -/

theorem Inv.step {e} (hi : Inv g ex s) (hc : Keeps s e) (h : step g s e = some s') : Inv g ex s' := by
  cases e with
  | endio sector size => exact hi.endio h
  | endioSetOutOfSync k => exact hi.endioSetOutOfSync hc h
  | syncStart =>
      simp only [Noblock.step] at h
      split at h
      · cases h; exact hi.setSender trivial
      · cases h
  | syncStep => exact hi.syncStep hc h
  | syncAbort =>
      simp only [Noblock.step] at h
      split at h
      · cases h
      · cases h; exact hi.setSender trivial
  | submitFailed =>
      have hsender := hi.sender
      simp only [Noblock.step] at h
      split at h
      · rename_i sector size hpc
        rw [hpc] at hsender
        simp only [Option.map_eq_some_iff, Prod.exists] at h
        obtain ⟨lc', ok, hcompl, rfl⟩ := h
        exact (hi.release hsender hcompl).setSender trivial
      · cases h
  | readBlock k block =>
      simp only [Noblock.step] at h
      split at h
      · cases h
      · rename_i r hk
        split at h
        · cases h; exact hi.readBlock hk
        · cases h
  | replyFailed k =>
      simp only [Noblock.step, replyFailed] at h
      split at h
      · cases h
      · rename_i r hk
        simp only [Option.map_eq_some_iff, Prod.exists] at h
        obtain ⟨lc', ok, hcompl, rfl⟩ := h
        exact (hi.release (hi.reqs r (List.mem_of_getElem? hk)) hcompl).eraseReq k
  | replyNotSent k =>
      simp only [Noblock.step] at h
      split at h
      · cases h; exact hi.eraseReq k
      · cases h
  | ackArrives k => exact hi.ackArrives h
  | ackSetInSync => exact hi.ackSetInSync h

end Drbd.Noblock
