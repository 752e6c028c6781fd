import Drbd.Uuid.Lemmas.Mirror

/-!
# Two nodes compare their data generations
-/

namespace Drbd.Uuid

variable {a b : Report} {resolve : Bool} {version : Nat}

theorem crashed_of_flags : ∀ discard crashed inconsistent,
    crashed = decide (uuidFlags discard crashed inconsistent &&& 2 ≠ 0) := by decide

/-- With each other's report, and RESOLVE_CONFLICTS on one side, two nodes have opposite views. -/
theorem opposite_views :
    Opposite (a.view (drbdSendUuids b) resolve version) (b.view (drbdSendUuids a) (!resolve) version) :=
  ⟨rfl, rfl, crashed_of_flags .., crashed_of_flags .., rfl, rfl⟩

/-- When the current UUIDs are not both zero and not each known to the other node, bit 0 aside, the two
nodes come to the same decision, and their corrections to the same arrays. -/
theorem compare_antisymmetric
    (hzero : ¬ (base a.uuid.current = 0 ∧ base b.uuid.current = 0))
    (hlists : ¬ (Lists b.uuid a.uuid.current ∧ Lists a.uuid b.uuid.current)) :
    let ra := drbdUuidCompare (a.view (drbdSendUuids b) resolve version)
    let rb := drbdUuidCompare (b.view (drbdSendUuids a) (!resolve) version)
    (-2 ≤ ra.hg ∧ ra.hg ≤ 2 → rb.hg = -ra.hg) ∧
      (ra.hg = 100 ∨ ra.hg = -100 ∨ ra.hg ≤ -1000 → rb.hg = ra.hg) ∧
      ra.self = rb.peer ∧ rb.self = ra.peer := by
  intro ra rb
  have hm : Mirrors ra rb := drbdUuidCompare_mirror opposite_views hzero fun _ _ => hlists
  have hhg := hm.hg
  unfold turned at hhg
  refine ⟨fun hn => ?_, fun hf => ?_, hm.peer.symm, hm.self⟩
  · rwa [if_pos hn] at hhg
  · rwa [if_neg (by omega)] at hhg

/-! ## One generation apart, and two nodes without data -/

def wrote : Report := ⟨⟨0x101, 0x80, 0x60, 0x40⟩, false, false, false⟩
def missed : Report := ⟨⟨0x80, 0, 0x60, 0x40⟩, false, false, false⟩

theorem compare_antisymmetric_wrote :
    (drbdUuidCompare (wrote.view (drbdSendUuids missed) true 101)).hg = 1 ∧
      (drbdUuidCompare (missed.view (drbdSendUuids wrote) false 101)).hg = -1 := by
  have hwrote : (drbdUuidCompare (wrote.view (drbdSendUuids missed) true 101)).hg = 1 := by decide
  have h := @compare_antisymmetric wrote missed true 101 (by decide) (by decide)
  refine ⟨hwrote, ?_⟩
  have hmissed := h.1 (by rw [hwrote]; decide)
  rwa [hwrote] at hmissed

def blank (bitmap : UInt64) : Report := ⟨⟨1, bitmap, 0x60, 0x40⟩, false, false, false⟩

/-- Bit 0 alone makes a current UUID that is not zero, and both nodes want to be the target. -/
theorem blank_both_targets :
    ¬ ∀ (a b : Report) (resolve : Bool) (version : Nat), a.uuid.current ≠ 0 → b.uuid.current ≠ 0 →
      ¬ (Lists b.uuid a.uuid.current ∧ Lists a.uuid b.uuid.current) →
      let ra := drbdUuidCompare (a.view (drbdSendUuids b) resolve version)
      let rb := drbdUuidCompare (b.view (drbdSendUuids a) (!resolve) version)
      (-2 ≤ ra.hg ∧ ra.hg ≤ 2 → rb.hg = -ra.hg) ∧
        (ra.hg = 100 ∨ ra.hg = -100 ∨ ra.hg ≤ -1000 → rb.hg = ra.hg) ∧
        ra.self = rb.peer ∧ rb.self = ra.peer := by
  intro h
  have hboth := (h (blank 0x80) (blank 0xa0) true 101 (by decide) (by decide) (by decide)).1 (by decide)
  exact absurd hboth (by decide)

end Drbd.Uuid
