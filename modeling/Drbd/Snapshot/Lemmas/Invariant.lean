import Drbd.Bitmap.Lemmas.Pages
import Drbd.Snapshot.Defs

/-!
# Why the cleared bits are on the snapshot

Until the snapshot, a page with its flags down is on disk as it is in memory. From then on flags only go
up, so a page whose flags are down when they decide is on the snapshot bit by bit.
-/

namespace Drbd.Snapshot

open Bitmap Noblock

variable {g : Geometry} {s s' : State}

/-! ## What the other threads do to the bitmap -/

/-- Flips raise flags, and writes are not undone. -/
structure Frame (d d' : Noblock.State) : Prop where
  bits : d'.bitmap.bmBits = d.bitmap.bmBits
  marks : Marks d.bitmap d'.bitmap
  written : ∀ b, d.written b ≤ d'.written b

theorem Frame.of_eq {d d' : Noblock.State} (hb : d'.bitmap = d.bitmap) (hw : d'.written = d.written) :
    Frame d d' :=
  ⟨by rw [hb], by rw [hb]; exact .refl _, fun b => by rw [hw]⟩

theorem marks_drbdSetOutOfSync (capacity : Nat) (b : DrbdBitmap) (sector size : Nat) :
    Marks b (drbdSetOutOfSync capacity b sector size) := by
  unfold drbdSetOutOfSync
  split
  · exact .refl b
  · split
    · exact .refl b
    · exact .bmChangeBitsTo _ _ _ _

theorem marks_drbdSetInSync (capacity : Nat) (b : DrbdBitmap) (sector size : Nat) :
    Marks b (drbdSetInSync capacity b sector size) := by
  unfold drbdSetInSync
  split
  · exact .refl b
  split
  · exact .refl b
  dsimp only
  split
  · exact .refl b
  split
  · split
    · exact .refl b
    · exact .bmChangeBitsTo _ _ _ _
  · split
    · exact .refl b
    · exact .bmChangeBitsTo _ _ _ _

theorem syncStep_frame {d d' : Noblock.State} (h : syncStep g d = some d') : Frame d d' := by
  unfold syncStep at h
  dsimp only at h
  split at h
  · cases h
  · split at h <;> cases h <;> exact .of_eq rfl rfl
  · split at h <;> cases h <;> exact .of_eq rfl rfl
  · split at h <;> cases h <;> exact .of_eq rfl rfl
  · simp only [Option.map_eq_some_iff] at h
    obtain ⟨_, _, rfl⟩ := h
    exact .of_eq rfl rfl
  · cases h
    exact .of_eq rfl rfl

theorem noblock_frame {d d' : Noblock.State} {e : Noblock.Event} (h : Noblock.step g d e = some d') :
    Frame d d' := by
  cases e with
  | endio sector size =>
      simp only [Noblock.step, endio] at h
      split at h
      · simp only [Option.map_eq_some_iff] at h
        obtain ⟨_, _, rfl⟩ := h
        refine ⟨rfl, .refl _, fun b => ?_⟩
        dsimp only
        split <;> omega
      · cases h
  | endioSetOutOfSync k =>
      simp only [Noblock.step, endioSetOutOfSync] at h
      split at h
      · cases h
      · cases h
        exact ⟨by simp, marks_drbdSetOutOfSync _ _ _ _, fun _ => le_refl _⟩
  | syncStart =>
      simp only [Noblock.step] at h
      split at h
      · cases h; exact .of_eq rfl rfl
      · cases h
  | syncStep => exact syncStep_frame h
  | syncAbort =>
      simp only [Noblock.step] at h
      split at h
      · cases h
      · cases h; exact .of_eq rfl rfl
  | submitFailed =>
      simp only [Noblock.step] at h
      split at h
      · simp only [Option.map_eq_some_iff] at h
        obtain ⟨_, _, rfl⟩ := h
        exact .of_eq rfl rfl
      · cases h
  | readBlock k block =>
      simp only [Noblock.step] at h
      split at h
      · cases h
      · split at h
        · cases h; exact .of_eq rfl rfl
        · cases h
  | replyFailed k =>
      simp only [Noblock.step, replyFailed] at h
      split at h
      · cases h
      · simp only [Option.map_eq_some_iff] at h
        obtain ⟨_, _, rfl⟩ := h
        exact .of_eq rfl rfl
  | replyNotSent k =>
      simp only [Noblock.step] at h
      split at h
      · cases h; exact .of_eq rfl rfl
      · cases h
  | ackArrives k =>
      simp only [Noblock.step, ackArrives] at h
      split at h
      · split at h
        · simp only [Option.map_eq_some_iff] at h
          obtain ⟨_, _, rfl⟩ := h
          exact .of_eq rfl rfl
        · cases h
      · cases h
  | ackSetInSync =>
      simp only [Noblock.step, ackSetInSync] at h
      split at h
      · cases h
      · cases h
        refine ⟨?_, ?_, fun _ => le_refl _⟩
        · dsimp only
          split <;> simp
        · dsimp only
          split
          · exact marks_drbdSetInSync _ _ _ _
          · exact .refl _

/-! ## The invariant -/

/-- An unchanged page is on disk, as far as it has landed. -/
def OnDisk (s : State) : Prop :=
  ∀ i < s.dev.bitmap.bmBits, s.dev.bitmap.testPageUnchanged (i / bitsPerPage) = true →
    (s.io (i / bitsPerPage) = none → s.onDisk i = s.dev.bitmap.bit i) ∧
    ∀ x, s.io (i / bitsPerPage) = some x →
      (i < i / bitsPerPage * bitsPerPage + x.landed → s.onDisk i = s.dev.bitmap.bit i) ∧
        ∀ c, x.copy = some c → c i = s.dev.bitmap.bit i

/-- An unchanged page is on the snapshot. -/
structure OnSnapshot (s : State) : Prop where
  page : ∀ i < s.dev.bitmap.bmBits, s.dev.bitmap.testPageUnchanged (i / bitsPerPage) = true →
    s.snapBit i = s.dev.bitmap.bit i
  older : ∀ b, s.snapWritten b ≤ s.dev.written b

/-- The version of the block that the snapshot sync is going to send. -/
def SnapshotHas (s : State) (b version : Nat) : Prop :=
  version = s.snapWritten b ∧ s.snapBit b = true

def Inv (g : Geometry) (s : State) : Prop :=
  match s.phase with
  | .idle | .flushing _ | .flushed => Noblock.Inv g (fun _ _ => False) s.dev ∧ OnDisk s
  | .snapshotted | .flagged => Noblock.Inv g (fun _ _ => False) s.dev ∧ OnSnapshot s
  | .cleared | .counted _ | .returned => Noblock.Inv g (SnapshotHas s) s.dev

theorem OnDisk.frame {dev : Noblock.State} (h : OnDisk s) (hf : Frame s.dev dev) :
    OnDisk { s with dev := dev } := by
  intro i hi hun
  have hi : i < dev.bitmap.bmBits := hi
  rw [hf.bits] at hi
  obtain ⟨hold, hsame⟩ := hf.marks _ hun
  have hdisk := h i hi hold
  dsimp only
  rw [hsame i rfl]
  exact hdisk

theorem OnSnapshot.frame {dev : Noblock.State} (h : OnSnapshot s) (hf : Frame s.dev dev) :
    OnSnapshot { s with dev := dev } := by
  refine ⟨fun i hi hun => ?_, fun b => le_trans (h.older b) (hf.written b)⟩
  have hi : i < dev.bitmap.bmBits := hi
  rw [hf.bits] at hi
  obtain ⟨hold, hsame⟩ := hf.marks _ hun
  dsimp only
  rw [hsame i rfl]
  exact h.page i hi hold

/-- Only the size and the bits of the bitmap matter to the other threads. -/
theorem noblock_setBitmap {ex : Nat → Nat → Prop} {d : Noblock.State} {b : DrbdBitmap}
    (h : Noblock.Inv g ex d) (hbits : b.bmBits = d.bitmap.bmBits) (hbit : ∀ i, b.bit i = d.bitmap.bit i) :
    Noblock.Inv g ex { d with bitmap := b } := by
  refine ⟨h.cache, hbits.trans h.bits, h.sender, h.endios, h.reqs, h.dropped, h.granted,
    fun i hi hpend hclear => ?_⟩
  exact h.safe i (lt_of_lt_of_eq hi hbits) hpend ((hbit i).symm.trans hclear)

theorem Inv.noblock {e : Noblock.Event} {dev : Noblock.State} (hi : Inv g s)
    (hk : Noblock.Keeps s.dev e) (h : Noblock.step g s.dev e = some dev) : Inv g { s with dev := dev } := by
  have hf := noblock_frame h
  unfold Inv at hi ⊢
  dsimp only
  split <;> rename_i hphase <;> simp only [hphase] at hi
  all_goals first
    | exact ⟨hi.1.step hk h, hi.2.frame hf⟩
    | exact hi.step hk h

/-! ## Page writes -/

theorem startIo_onDisk (h : OnDisk s) (page : Nat) (copying : Bool) :
    OnDisk (startIo s page copying) := by
  intro i hi hun
  have hbit : (startIo s page copying).dev.bitmap.bit i = s.dev.bitmap.bit i := rfl
  rw [hbit]
  by_cases hp : i / bitsPerPage = page
  · have hio : (startIo s page copying).io (i / bitsPerPage)
        = some ⟨if copying then some s.dev.bitmap.bit else none, 0⟩ := by
      rw [hp]
      exact Function.update_self _ _ _
    rw [hio]
    refine ⟨fun hnone => (by cases hnone), fun x hx => ?_⟩
    cases hx
    refine ⟨fun hlt => ?_, fun c hc => ?_⟩
    · have := Nat.div_mul_le_self i bitsPerPage
      simp only [Nat.add_zero] at hlt
      omega
    · dsimp only at hc
      split at hc
      · cases hc
        rfl
      · cases hc
  · have hio : (startIo s page copying).io (i / bitsPerPage) = s.io (i / bitsPerPage) :=
      Function.update_of_ne hp _ _
    have hflag : s.dev.bitmap.testPageUnchanged (i / bitsPerPage) = true := by
      have : (s.dev.bitmap.setPageUnchanged page).testPageUnchanged (i / bitsPerPage) = true := hun
      simpa [DrbdBitmap.testPageUnchanged, DrbdBitmap.setPageUnchanged, hp] using this
    rw [hio]
    exact h i hi hflag

theorem dma_onDisk (h : OnDisk s) {page upTo : Nat} (hd : dma s page upTo = some s') : OnDisk s' := by
  unfold dma at hd
  split at hd
  · cases hd
  rename_i x hx
  split at hd
  case isFalse => cases hd
  cases hd
  intro i hi hun
  dsimp only at hi hun ⊢
  obtain ⟨hnone, hsome⟩ := h i hi hun
  have hpos : 0 < bitsPerPage := by decide
  by_cases hp : i / bitsPerPage = page
  · rw [hp, Function.update_self]
    rw [hp] at hsome
    obtain ⟨hlanded, hcopy⟩ := hsome x hx
    refine ⟨fun hn => (by cases hn), fun y hy => ?_⟩
    cases hy
    refine ⟨fun hlt => ?_, hcopy⟩
    split
    · cases hc : x.copy with
      | none => rfl
      | some c => exact hcopy c hc
    · dsimp only at hlt
      exact hlanded (by omega)
  · -- another page
    have hout : ¬ (page * bitsPerPage + x.landed ≤ i ∧ i < page * bitsPerPage + upTo) := by
      rintro ⟨hge, hlt⟩
      apply hp
      apply Nat.div_eq_of_lt_le
      · exact le_trans (Nat.le_add_right _ _) hge
      · rw [Nat.add_mul, Nat.one_mul]
        omega
    rw [if_neg hout, Function.update_of_ne hp]
    exact ⟨hnone, hsome⟩

theorem pageIoDone_onDisk (h : OnDisk s) {page : Nat} (hd : pageIoDone s page = some s') : OnDisk s' := by
  unfold pageIoDone at hd
  split at hd
  · cases hd
  rename_i x hx
  split at hd
  case isFalse => cases hd
  rename_i hall
  cases hd
  intro i hi hun
  dsimp only at hi hun ⊢
  obtain ⟨hnone, hsome⟩ := h i hi hun
  by_cases hp : i / bitsPerPage = page
  · rw [hp, Function.update_self]
    rw [hp] at hsome
    refine ⟨fun _ => (hsome x hx).1 ?_, fun y hy => by cases hy⟩
    rw [hall, ← hp]
    have := Nat.lt_div_mul_add (a := i) (show 0 < bitsPerPage by decide)
    omega
  · rw [Function.update_of_ne hp]
    exact ⟨hnone, hsome⟩

/-- What an event that leaves the phase, the snapshot and all bits alone has to keep. -/
theorem Inv.keep (hi : Inv g s) {s' : State} (hphase : s'.phase = s.phase) (hsnap : s'.snapBit = s.snapBit)
    (hwritten : s'.snapWritten = s.snapWritten)
    (hdev : ∀ ex, Noblock.Inv g ex s.dev → Noblock.Inv g ex s'.dev) (hdisk : OnDisk s → OnDisk s')
    (hwindow : s.phase = .snapshotted ∨ s.phase = .flagged → OnSnapshot s → OnSnapshot s') : Inv g s' := by
  have hhas : SnapshotHas s' = SnapshotHas s := by
    unfold SnapshotHas
    rw [hsnap, hwritten]
  unfold Inv at hi ⊢
  rw [hphase, hhas]
  split <;> rename_i hp <;> simp only [hp] at hi
  · exact ⟨hdev _ hi.1, hdisk hi.2⟩
  · exact ⟨hdev _ hi.1, hdisk hi.2⟩
  · exact ⟨hdev _ hi.1, hdisk hi.2⟩
  · exact ⟨hdev _ hi.1, hwindow (.inl hp) hi.2⟩
  · exact ⟨hdev _ hi.1, hwindow (.inr hp) hi.2⟩
  · exact hdev _ hi
  · exact hdev _ hi
  · exact hdev _ hi

theorem startIo_dev (page : Nat) (copying : Bool) (ex : Nat → Nat → Prop)
    (h : Noblock.Inv g ex s.dev) : Noblock.Inv g ex (startIo s page copying).dev :=
  noblock_setBitmap h rfl fun _ => rfl

theorem Inv.pageIo {page : Nat} (hi : Inv g s) (hk : s.phase ≠ .snapshotted ∧ s.phase ≠ .flagged)
    (h : pageIo s page = some s') : Inv g s' := by
  unfold Snapshot.pageIo at h
  split at h
  case isFalse => cases h
  cases h
  refine hi.keep rfl rfl rfl (startIo_dev page true) (fun hd => startIo_onDisk hd page true) fun hp => ?_
  exact absurd hp (not_or.2 hk)

theorem Inv.dma {page upTo : Nat} (hi : Inv g s) (h : dma s page upTo = some s') : Inv g s' := by
  have hdisk : OnDisk s → OnDisk s' := fun hd => dma_onDisk hd h
  unfold Snapshot.dma at h
  split at h
  · cases h
  split at h
  case isFalse => cases h
  cases h
  exact hi.keep rfl rfl rfl (fun _ hn => hn) hdisk fun _ hw => ⟨hw.page, hw.older⟩

theorem Inv.pageIoDone {page : Nat} (hi : Inv g s) (h : pageIoDone s page = some s') : Inv g s' := by
  have hdisk : OnDisk s → OnDisk s' := fun hd => pageIoDone_onDisk hd h
  unfold Snapshot.pageIoDone at h
  split at h
  · cases h
  split at h
  case isFalse => cases h
  cases h
  exact hi.keep rfl rfl rfl (fun _ hn => hn) hdisk fun _ hw => ⟨hw.page, hw.older⟩

/-! ## The command -/

/-- The flags drop only bits that the snapshot has, of blocks as they are there. -/
theorem noblock_clear (hi : Noblock.Inv g (fun _ _ => False) s.dev) (hw : OnSnapshot s)
    (hk : ∀ b < s.dev.bitmap.bmBits, ¬ Pending s.dev b → s.dev.written b ≠ s.snapWritten b →
      s.dev.bitmap.testPageUnchanged (b / bitsPerPage) = false) :
    Noblock.Inv g (SnapshotHas s) { s.dev with bitmap := bmMemsetUnchanged s.dev.bitmap } := by
  refine ⟨hi.cache, (bmBits_bmMemsetUnchanged _).trans hi.bits, hi.sender, hi.endios, hi.reqs, hi.dropped,
    hi.granted, fun b hb hpend hclear => ?_⟩
  have hb : b < s.dev.bitmap.bmBits := lt_of_lt_of_eq hb (bmBits_bmMemsetUnchanged _)
  have hclear : (bmMemsetUnchanged s.dev.bitmap).bit b = false := hclear
  rw [bit_bmMemsetUnchanged _ hb] at hclear
  cases hbit : s.dev.bitmap.bit b with
  | false => exact .inl ((hi.safe b hb hpend hbit).resolve_right id)
  | true =>
      -- the bit is dropped here, so the page was unchanged
      split at hclear
      · rename_i hun
        refine .inr ⟨?_, (hw.page b hb hun).trans hbit⟩
        by_contra hne
        rw [hk b hb hpend hne] at hun
        cases hun
      · rw [hbit] at hclear
        cases hclear

theorem Inv.command (hi : Inv g s) (hk : KeepsCommand s s.phase) (h : command s = some s') : Inv g s' := by
  unfold Snapshot.command at h
  unfold Inv at hi
  split at h <;> rename_i hphase <;> simp only [hphase] at hi hk
  · cases h
    exact ⟨hi.1, hi.2⟩
  · split at h
    · split at h
      · cases h
        exact ⟨hi.1, hi.2⟩
      · split at h
        · cases h
        · cases h
          exact ⟨startIo_dev _ false _ hi.1, startIo_onDisk hi.2 _ false⟩
    · split at h
      · cases h
        exact ⟨hi.1, hi.2⟩
      · cases h
  · cases h
    refine ⟨hi.1, fun i hlt hun => ?_, fun _ => le_refl _⟩
    have hin : i / bitsPerPage < s.dev.bitmap.bmNumberOfPages := by
      have hlt : i < s.dev.bitmap.bmBits := hlt
      unfold DrbdBitmap.bmNumberOfPages DrbdBitmap.bmWords bitsPerPage
      omega
    exact (hi.2 i hlt hun).1 (Option.isNone_iff_eq_none.1 (hk _ hin))
  · cases h
    exact ⟨hi.1, ⟨hi.2.page, hi.2.older⟩⟩
  · cases h
    exact noblock_clear hi.1 hi.2 hk
  · simp only [Option.map_eq_some_iff] at h
    obtain ⟨c, _, rfl⟩ := h
    exact hi
  · cases h
    exact noblock_setBitmap hi rfl fun _ => rfl
  · cases h

theorem Inv.step {e : Event} (hi : Inv g s) (hk : Keeps s e) (h : step g s e = some s') : Inv g s' := by
  cases e with
  | noblock e =>
      simp only [Snapshot.step, Option.map_eq_some_iff] at h
      obtain ⟨dev, hdev, rfl⟩ := h
      exact hi.noblock hk hdev
  | pageIo page => exact hi.pageIo hk h
  | dma page upTo => exact hi.dma h
  | pageIoDone page => exact hi.pageIoDone h
  | command => exact hi.command hk h

end Drbd.Snapshot
