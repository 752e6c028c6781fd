import Drbd.Uuid.Compare
import Drbd.Uuid.Lemmas.Resync
import Drbd.Uuid.Lemmas.Rules

/-!
# A resync and the comparison after it
-/

namespace Drbd.Uuid

/-- Two nodes that have just compared their UUIDs, the source `a` and the target `b`, and what they do
until the end of the resync. -/
structure Resync where
  a : Report
  b : Report
  resolveConflicts : Bool
  version : Nat
  /-- what `get_random_bytes()` yields, should the bitmap UUID not do -/
  random : UInt64
  primaryA : Bool
  primaryB : Bool
  /-- the role of the target at the end -/
  primaryB' : Bool

namespace Resync

variable (s : Resync)

def viewA : View := s.a.view (drbdSendUuids s.b) s.resolveConflicts s.version
def viewB : View := s.b.view (drbdSendUuids s.a) (!s.resolveConflicts) s.version

def source : Endpoint := .compared s.a (drbdUuidCompare s.viewA) (drbdSendUuids s.b)
def target : Endpoint := .compared s.b (drbdUuidCompare s.viewB) (drbdSendUuids s.a)

/-- The UUID in the `P_SYNC_UUID` packet. -/
def packet : UInt64 := syncUuid s.source.own.uuid s.random

def sourceStarted : Endpoint := drbdGenAndSendSyncUuid s.primaryA s.source s.random
def targetStarted : Endpoint := receiveSyncUuid s.primaryB s.target s.packet

def sourceFinished : Endpoint := drbdResyncFinished false s.primaryA s.sourceStarted
def targetFinished : Endpoint := drbdResyncFinished true s.primaryB' s.targetStarted

/-- The comparison made `a` the source, and the UUIDs in play are distinct, bit 0 aside. -/
structure Started : Prop where
  direction : (drbdUuidCompare s.viewA).hg = 1 ∨ (drbdUuidCompare s.viewA).hg = 2
  current : base s.a.uuid.current ≠ 0
  historyStart : base s.a.uuid.current ≠ base s.b.uuid.historyStart
  historyEnd : base s.a.uuid.current ≠ base s.b.uuid.historyEnd
  packet : base s.packet ≠ 0
  fresh : base s.packet ≠ base s.a.uuid.current

end Resync

/-- The verdicts on both nodes when they connect again. -/
def reconnect (x y : Endpoint) (resolve : Bool) (version : Nat) : Int × Int :=
  ((drbdUuidCompare (x.own.view (drbdSendUuids y.own) resolve version)).hg,
    (drbdUuidCompare (y.own.view (drbdSendUuids x.own) (!resolve) version)).hg)

/-- The first node is the source again. -/
def SourceAgain (x y : Endpoint) (resolve : Bool) (version : Nat) : Prop :=
  reconnect x y resolve version = (1, -1) ∨ reconnect x y resolve version = (2, -2)

variable {s : Resync} {x y : Endpoint} {resolve : Bool} {version : Nat}

theorem SourceAgain.of_hg
    (h : 1 ≤ (drbdUuidCompare (x.own.view (drbdSendUuids y.own) resolve version)).hg ∧
      (drbdUuidCompare (x.own.view (drbdSendUuids y.own) resolve version)).hg ≤ 2) :
    SourceAgain x y resolve version := by
  have hm := (source_mirror (v := x.own.view (drbdSendUuids y.own) resolve version)
    (w := y.own.view (drbdSendUuids x.own) (!resolve) version) opposite_views (by omega)).2
  have hhg := hm.hg
  unfold turned at hhg
  rw [if_pos (by omega)] at hhg
  unfold SourceAgain reconnect
  rw [hhg]
  have hcases : (drbdUuidCompare (x.own.view (drbdSendUuids y.own) resolve version)).hg = 1 ∨
      (drbdUuidCompare (x.own.view (drbdSendUuids y.own) resolve version)).hg = 2 := by omega
  rcases hcases with h1 | h2
  · exact .inl (by rw [h1])
  · exact .inr (by rw [h2])

/-! ## The arrays -/

namespace Resync.Started

theorem hg_pos (h : s.Started) : 0 < (drbdUuidCompare s.viewA).hg := by
  rcases h.direction with h1 | h2 <;> omega

theorem not_justCreated (h : s.Started) : base s.a.uuid.current ≠ uuidJustCreated :=
  (source_mirror opposite_views h.hg_pos).1

/-- The source after the comparison, with its current UUID as before. -/
theorem source_current (h : s.Started) : s.source.own.uuid.current = s.a.uuid.current :=
  (compare_source h.hg_pos).1

/-- The target's own array is as before, and it knows the source's. -/
theorem target_eq (h : s.Started) :
    s.target.own.uuid = s.b.uuid ∧ s.target.pUuid.uuid = s.source.own.uuid := by
  have hm := (source_mirror (w := s.viewB) opposite_views h.hg_pos).2
  exact ⟨hm.self.trans (compare_source h.hg_pos).2, hm.peer⟩

theorem sourceStarted_eq : ∃ k, s.sourceStarted.own.uuid =
    ⟨s.source.own.uuid.current, s.packet, olderUuid s.source.own.uuid, k⟩ :=
  drbdUuidSet_bitmap

theorem sourceFinished_eq (h : s.Started) : s.sourceFinished.own.uuid =
    ⟨s.source.own.uuid.current, 0, s.packet, olderUuid s.source.own.uuid⟩ := by
  obtain ⟨k, hk⟩ := sourceStarted_eq (s := s)
  have hne : s.sourceStarted.own.uuid.bitmap ≠ 0 := by
    rw [hk]
    exact ne_zero_of_base h.packet
  have hfin : s.sourceFinished.own.uuid = drbdUuidSetBm s.sourceStarted.own.uuid 0 := rfl
  rw [hfin, drbdUuidSetBm_zero hne, hk]

theorem targetStarted_eq (h : s.Started) : ∃ c, base c = base s.packet ∧
    s.targetStarted.own.uuid = ⟨c, 0, s.b.uuid.historyStart, s.b.uuid.historyEnd⟩ := by
  refine ⟨_, base_uuidSet_current (p := s.primaryB) (u := s.target.own.uuid), ?_⟩
  rw [← h.target_eq.1]
  rfl

theorem targetFinished_eq (h : s.Started) : ∃ c c', base c = base s.a.uuid.current ∧
    base c' = base s.packet ∧
    s.targetFinished.own.uuid = ⟨c, 0, c', olderUuid s.source.own.uuid⟩ := by
  obtain ⟨c', hc', hstarted⟩ := h.targetStarted_eq
  obtain ⟨c, hc, k, htake⟩ := takeOver_eq (p := s.primaryB') (u := s.targetStarted.own.uuid)
    (w := s.targetStarted.pUuid.uuid)
  have hp : s.targetStarted.pUuid.uuid = s.source.own.uuid := h.target_eq.2
  have hcur : s.targetStarted.own.uuid.current = c' := by rw [hstarted]
  rw [hp, hcur] at htake
  have hne : (takeOver s.primaryB' s.targetStarted.own.uuid s.source.own.uuid).bitmap ≠ 0 := by
    rw [htake]
    exact ne_zero_of_base (by rw [hc']; exact h.packet)
  refine ⟨c, c', ?_, hc', ?_⟩
  · rw [hc, hp, h.source_current]
  · have hfin : s.targetFinished.own.uuid =
        drbdUuidSetBm (takeOver s.primaryB' s.targetStarted.own.uuid s.targetStarted.pUuid.uuid) 0 := rfl
    rw [hfin, hp, drbdUuidSetBm_zero hne, htake]

/-! ## The three places of a cut -/

/-- Neither node has finished, or the source alone has: it lists the UUID of the sync. -/
theorem target_unfinished (h : s.Started) (hver : 91 ≤ version)
    (hcur : x.own.uuid.current = s.a.uuid.current) (hlists : Lists x.own.uuid s.packet) :
    SourceAgain x s.targetStarted resolve version := by
  obtain ⟨c, hc, ht⟩ := h.targetStarted_eq
  have hpeer : base s.targetStarted.own.uuid.current = base s.packet := by rw [ht, ← hc]
  have h0 : base x.own.uuid.current ≠ 0 := by rw [hcur]; exact h.current
  have hj : base x.own.uuid.current ≠ uuidJustCreated := by rw [hcur]; exact h.not_justCreated
  have hne : base x.own.uuid.current ≠ base s.targetStarted.own.uuid.current := by
    rw [hcur, hpeer]
    exact Ne.symm h.fresh
  have hnot : ¬ Lists s.targetStarted.own.uuid x.own.uuid.current := by
    unfold Lists
    rw [ht, hcur, base_zero]
    exact fun hl => hl.elim h.current fun hl => hl.elim h.historyStart h.historyEnd
  have hlists' : Lists x.own.uuid s.targetStarted.own.uuid.current := by
    unfold Lists at hlists ⊢
    rwa [hpeer]
  exact .of_hg (compare_selfKnows hver h0 hj hne hnot hlists')

theorem cut_unfinished (h : s.Started) (hver : 91 ≤ version) :
    SourceAgain s.sourceStarted s.targetStarted resolve version := by
  obtain ⟨k, hk⟩ := sourceStarted_eq (s := s)
  refine h.target_unfinished hver ?_ (.inl ?_)
  · rw [hk]
    exact h.source_current
  · rw [hk]

theorem cut_sourceFinished (h : s.Started) (hver : 91 ≤ version) :
    SourceAgain s.sourceFinished s.targetStarted resolve version := by
  refine h.target_unfinished hver ?_ (.inr (.inl ?_))
  · rw [h.sourceFinished_eq]
    exact h.source_current
  · rw [h.sourceFinished_eq]

theorem cut_targetFinished (h : s.Started) (hver : 91 ≤ version) :
    SourceAgain s.sourceStarted s.targetFinished resolve version := by
  obtain ⟨k, hk⟩ := sourceStarted_eq (s := s)
  obtain ⟨c, c', hc, hc', ht⟩ := h.targetFinished_eq
  have hcur : s.sourceStarted.own.uuid.current = s.a.uuid.current := by
    rw [hk]
    exact h.source_current
  have hg : (drbdUuidCompare
      (s.sourceStarted.own.view (drbdSendUuids s.targetFinished.own) resolve version)).hg = 1 := by
    apply compare_missedFinish hver <;> dsimp only [Report.view, drbdSendUuids]
    · rw [hcur]
      exact h.current
    · rw [hcur]
      exact h.not_justCreated
    · rw [ht, hcur, hc]
    · rw [hk]
      exact ne_zero_of_base h.packet
    · rw [ht]
    · rw [hk, ht, hc']
    · rw [hk, ht]
  exact .of_hg (by rw [hg]; decide)

theorem finished_inSync (h : s.Started) :
    reconnect s.sourceFinished s.targetFinished resolve version = (0, 0) := by
  obtain ⟨c, c', hc, hc', ht⟩ := h.targetFinished_eq
  have hs := h.sourceFinished_eq
  have hcur : base s.sourceFinished.own.uuid.current = base s.a.uuid.current := by
    rw [hs]
    exact congrArg base h.source_current
  have hcur' : base s.targetFinished.own.uuid.current = base s.a.uuid.current := by rw [ht, hc]
  have hflag : ∀ n : Report, n.crashedPrimary = false → (drbdSendUuids n).flags &&& 2 = 0 := by
    intro n hn
    have := crashed_of_flags n.discardMyData n.crashedPrimary n.inconsistent
    rw [hn] at this
    simpa [drbdSendUuids, hn] using this
  unfold reconnect
  congr 1
  · apply compare_inSync <;> dsimp only [Report.view]
    · rw [hcur]
      exact h.current
    · rw [hcur]
      exact h.not_justCreated
    · exact hcur'.trans hcur.symm
    · rw [hs]
    · exact congrArg Uuids.bitmap ht
    · rfl
    · exact hflag _ rfl
  · apply compare_inSync <;> dsimp only [Report.view]
    · rw [hcur']
      exact h.current
    · rw [hcur']
      exact h.not_justCreated
    · exact hcur.trans hcur'.symm
    · rw [ht]
    · exact congrArg Uuids.bitmap hs
    · rfl
    · exact hflag _ rfl

end Resync.Started

/-- A resync that ends leaves the same generations on both nodes and nothing to do. One that is cut
after the target has the UUID of the sync starts again in the same direction. -/
theorem resync_bookkeeping (h : s.Started) :
    SameBase s.sourceFinished.own.uuid s.targetFinished.own.uuid ∧
      s.sourceFinished.own.uuid.bitmap = 0 ∧ s.targetFinished.own.uuid.bitmap = 0 ∧
      ∀ resolve version, reconnect s.sourceFinished s.targetFinished resolve version = (0, 0) ∧
        (91 ≤ version →
          SourceAgain s.sourceStarted s.targetStarted resolve version ∧
          SourceAgain s.sourceStarted s.targetFinished resolve version ∧
          SourceAgain s.sourceFinished s.targetStarted resolve version) := by
  obtain ⟨c, c', hc, hc', ht⟩ := h.targetFinished_eq
  have hs := h.sourceFinished_eq
  refine ⟨⟨?_, ?_, ?_, ?_⟩, ?_, ?_, fun resolve version => ⟨h.finished_inSync, fun hver => ?_⟩⟩
  · rw [hs, ht, hc]
    exact congrArg base h.source_current
  · rw [hs, ht]
  · rw [hs, ht, hc']
  · rw [hs, ht]
  · rw [hs]
  · rw [ht]
  · exact ⟨h.cut_unfinished hver, h.cut_targetFinished hver, h.cut_sourceFinished hver⟩

/-! ## A Primary that was alone for a while -/

/-- The Primary has written alone since generation `0x81`; its peer is Secondary. -/
def wroteAlone : Resync where
  a := ⟨⟨0x101, 0x81, 0x60, 0x40⟩, false, false, false⟩
  b := ⟨⟨0x80, 0, 0x60, 0x40⟩, false, false, false⟩
  resolveConflicts := true
  version := 101
  random := 0x777
  primaryA := true
  primaryB := false
  primaryB' := false

theorem wroteAlone_started : wroteAlone.Started :=
  ⟨by decide, by decide, by decide, by decide, by decide, by decide⟩

theorem resync_bookkeeping_wroteAlone :
    wroteAlone.Started ∧
      reconnect wroteAlone.sourceFinished wroteAlone.targetFinished true 101 = (0, 0) ∧
      SourceAgain wroteAlone.sourceStarted wroteAlone.targetStarted true 101 := by
  have h := (resync_bookkeeping wroteAlone_started).2.2.2 true 101
  exact ⟨wroteAlone_started, h.1, (h.2 (by decide)).1⟩

/-- The sync UUID keeps bit 0 of the bitmap UUID on the source, and loses it on the target: the
histories differ in it. -/
theorem history_bit_differs :
    ¬ ∀ s : Resync, (drbdUuidCompare s.viewA).hg = 1 ∨ (drbdUuidCompare s.viewA).hg = 2 →
      base s.sourceFinished.own.uuid.current = base s.targetFinished.own.uuid.current ∧
        s.sourceFinished.own.uuid.bitmap = s.targetFinished.own.uuid.bitmap ∧
        s.sourceFinished.own.uuid.historyStart = s.targetFinished.own.uuid.historyStart ∧
        s.sourceFinished.own.uuid.historyEnd = s.targetFinished.own.uuid.historyEnd := by
  intro h
  exact absurd (h wroteAlone wroteAlone_started.direction) (by decide)

def withUuids (a b : Uuids) (crashed : Bool) : Resync :=
  { wroteAlone with a := ⟨a, false, false, false⟩, b := ⟨b, false, crashed, false⟩ }

/-- A source with current UUID zero. -/
def zeroCurrent : Resync := withUuids ⟨0, 0, 0x60, 0x40⟩ ⟨4, 0, 0, 0⟩ false

/-- A source whose current UUID is in the target's history. -/
def listedCurrent : Resync := withUuids ⟨0x100, 0x80, 0x60, 0x40⟩ ⟨4, 0, 0x100, 0⟩ false

/-- A sync UUID that is zero but for bit 0. -/
def zeroPacket : Resync :=
  withUuids ⟨0x100, 0xffff000000000001, 0x60, 0x40⟩ ⟨0xffff000000000000, 0, 0x60, 0x40⟩ false

/-- A sync UUID that is the source's current one; the target was Primary when it crashed. -/
def currentPacket : Resync :=
  withUuids ⟨0x1000000000080, 0x80, 0x60, 0x40⟩ ⟨0x80, 0, 0x60, 0x40⟩ true

/-- The conditions on the UUIDs and on the version cannot be dropped. -/
theorem resync_conditions_needed :
    (∀ s ∈ [zeroCurrent, listedCurrent, zeroPacket, currentPacket],
      (drbdUuidCompare s.viewA).hg = 1 ∨ (drbdUuidCompare s.viewA).hg = 2) ∧
      reconnect zeroCurrent.sourceFinished zeroCurrent.targetFinished true 101 = (-2, -2) ∧
      reconnect listedCurrent.sourceFinished listedCurrent.targetStarted true 101 = (-2, -2) ∧
      base zeroPacket.sourceFinished.own.uuid.historyStart ≠
        base zeroPacket.targetFinished.own.uuid.historyStart ∧
      reconnect currentPacket.sourceFinished currentPacket.targetStarted true 101 = (-1, 1) ∧
      reconnect wroteAlone.sourceStarted wroteAlone.targetFinished true 90 = (-1091, -1091) := by
  decide

end Drbd.Uuid
