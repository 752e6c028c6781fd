import Drbd.Uuid.Defs

/-!
# The arrays during a resync
-/

namespace Drbd.Uuid

variable {u w : Uuids} {x : UInt64} {p : Bool}

@[simp] theorem base_or_one (x : UInt64) : base (x ||| 1) = base x := by
  unfold base
  apply UInt64.eq_of_toBitVec_eq
  ext i
  simp
  grind

@[simp] theorem base_and (x : UInt64) : base (x &&& ~~~1) = base x := by
  unfold base
  rw [UInt64.and_assoc, UInt64.and_self]

@[simp] theorem base_zero : base 0 = 0 := by decide

theorem ne_zero_of_base (h : base x ≠ 0) : x ≠ 0 := by
  rintro rfl
  exact h base_zero

/-- The two arrays name the same generations, bit 0 aside. -/
structure SameBase (u w : Uuids) : Prop where
  current : base u.current = base w.current
  bitmap : base u.bitmap = base w.bitmap
  historyStart : base u.historyStart = base w.historyStart
  historyEnd : base u.historyEnd = base w.historyEnd

/-! ## What the steps of a resync leave -/

/-- The newest older UUID of the source: the one its bitmap was relative to, if any. -/
def olderUuid (u : Uuids) : UInt64 := if u.bitmap ≠ 0 then u.bitmap else u.historyStart

theorem base_uuidSet_current : base (uuidSet p u .current x).current = base x := by
  cases p <;> simp [uuidSet, Uuids.put]

theorem drbdUuidSet_bitmap : ∃ k, drbdUuidSet p u .bitmap x = ⟨u.current, x, olderUuid u, k⟩ := by
  unfold drbdUuidSet olderUuid
  by_cases h : u.bitmap ≠ 0
  · exact ⟨u.historyStart, by simp [h, Uuids.get, uuidSet, Uuids.put, drbdUuidMoveHistory]⟩
  · exact ⟨u.historyEnd, by simp [Uuids.get, uuidSet, Uuids.put, not_not.mp h]⟩

theorem drbdUuidSetBm_zero (h : u.bitmap ≠ 0) :
    drbdUuidSetBm u 0 = ⟨u.current, 0, u.bitmap, u.historyStart⟩ := by
  simp [drbdUuidSetBm, h, drbdUuidMoveHistory, Uuids.put]

theorem takeOver_eq : ∃ c, base c = base w.current ∧ ∃ k,
    takeOver p u w = ⟨c, u.current, olderUuid w, k⟩ := by
  unfold takeOver
  dsimp only
  obtain ⟨k, hk⟩ := drbdUuidSet_bitmap (p := p) (x := u.current)
    (u := uuidSet p (uuidSet p (uuidSet p u .bitmap w.bitmap) .historyStart
      w.historyStart) .historyEnd w.historyEnd)
  refine ⟨_, base_uuidSet_current (p := p) (u := u) (x := w.current), k, ?_⟩
  have hcur : (uuidSet p (uuidSet p (uuidSet p u .bitmap w.bitmap) .historyStart
      w.historyStart) .historyEnd w.historyEnd).current = u.current := rfl
  rw [hcur, hk]
  rfl

end Drbd.Uuid
