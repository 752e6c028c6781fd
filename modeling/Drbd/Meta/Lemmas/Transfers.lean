import Drbd.Meta.Defs

/-!
# Two devices that differ in their first byte

A read that begins behind the first byte does not tell them apart, and a write of the same buffer
keeps them as close as they were.
-/

namespace Drbd.Meta

open Lib

variable {dev dev' dev1 : Device} {buf : Nat → UInt8} {count off : Int} {cfg : Format}

/-- The same device, except perhaps for byte 0. -/
structure Agree (dev dev' : Device) : Prop where
  size : dev.size = dev'.size
  byte : ∀ x, 0 < x → dev.byte x = dev'.byte x

theorem Agree.refl (dev : Device) : Agree dev dev := ⟨rfl, fun _ _ => rfl⟩

theorem Device.ext' (hsize : dev.size = dev'.size) (hbyte : dev.byte = dev'.byte) : dev = dev' := by
  cases dev
  cases dev'
  cases hsize
  cases hbyte
  rfl

theorem Agree.eq (h : Agree dev dev') (h0 : dev.byte 0 = dev'.byte 0) : dev = dev' := by
  refine Device.ext' h.size (funext fun x => ?_)
  rcases Nat.eq_zero_or_pos x with rfl | hx
  · exact h0
  · exact h.byte x hx

theorem Agree.transfers (h : Agree dev dev') : Transfers dev' count off ↔ Transfers dev count off := by
  unfold Transfers
  rw [h.size]

/-! ## What one system call says -/

theorem preadOrDie_eq_some (h : preadOrDie dev count off = some buf) :
    Transfers dev count off ∧ buf = fun i => dev.byte (off.toNat + i) := by
  unfold preadOrDie at h
  split at h
  · exact ⟨‹_›, (Option.some.inj h).symm⟩
  · cases h

theorem pwriteOrDie_eq_some (h : pwriteOrDie dev buf count off = some dev1) :
    Transfers dev count off ∧ dev1 = { dev with byte := blit dev.byte off.toNat count.toNat buf } := by
  unfold pwriteOrDie at h
  split at h
  · exact ⟨‹_›, (Option.some.inj h).symm⟩
  · cases h

theorem Agree.preadOrDie (h : Agree dev dev') (hoff : 0 < off) :
    Meta.preadOrDie dev' count off = Meta.preadOrDie dev count off := by
  unfold Meta.preadOrDie
  by_cases ht : Transfers dev count off
  · rw [if_pos ht, if_pos (h.transfers.mpr ht)]
    congr 1
    funext i
    exact (h.byte _ (by omega)).symm
  · rw [if_neg ht, if_neg (mt h.transfers.mp ht)]

theorem Agree.pwriteOrDie (h : Agree dev dev') (hw : pwriteOrDie dev buf count off = some dev1) :
    ∃ dev1', Meta.pwriteOrDie dev' buf count off = some dev1' ∧ Agree dev1 dev1' ∧
      (off = 0 → 0 < count → dev1 = dev1') := by
  obtain ⟨ht, rfl⟩ := pwriteOrDie_eq_some hw
  have hagree : Agree { dev with byte := blit dev.byte off.toNat count.toNat buf }
      { dev' with byte := blit dev'.byte off.toNat count.toNat buf } :=
    ⟨h.size, fun x hx => blit_congr (h.byte x hx)⟩
  refine ⟨_, if_pos (h.transfers.mpr ht), hagree, fun hoff hcount => hagree.eq ?_⟩
  exact blit_inside (by omega) (by omega)

/-! ## Writing the super block -/

theorem Agree.moveSuperBlock (h : Agree dev dev') {old err : Int} {last : Device}
    (hm : moveSuperBlock cfg old dev = some (err, last)) :
    ∃ last', Meta.moveSuperBlock cfg old dev' = some (err, last') ∧ Agree last last' := by
  unfold Meta.moveSuperBlock at hm ⊢
  obtain ⟨cfg1, hcfg, hm⟩ := Option.bind_eq_some_iff.mp hm
  obtain ⟨⟨e, dev1⟩, hsb, hm⟩ := Option.bind_eq_some_iff.mp hm
  have hsb' : ∃ dev1', v08MdCpuToDisk cfg1 dev' = some (e, dev1') ∧ Agree dev1 dev1' := by
    unfold v08MdCpuToDisk at hsb ⊢
    split at hsb
    · obtain ⟨dev2, hw, heq⟩ := Option.bind_eq_some_iff.mp hsb
      cases heq
      obtain ⟨dev2', hw', hag, -⟩ := h.pwriteOrDie hw
      exact ⟨dev2', by rw [if_pos ‹_›, hw']; rfl, hag⟩
    · cases hsb
      exact ⟨dev', if_neg ‹_›, h⟩
  obtain ⟨dev1', hsb', h1⟩ := hsb'
  simp only [hcfg, hsb', Option.bind_eq_bind, Option.bind_some] at hm ⊢
  split at hm
  · obtain ⟨dev2, hw, heq⟩ := Option.bind_eq_some_iff.mp hm
    cases heq
    obtain ⟨dev2', hw', hag, -⟩ := h1.pwriteOrDie hw
    exact ⟨dev2', by rw [if_pos ‹_›, hw']; rfl, hag⟩
  · cases hm
    exact ⟨dev1', if_neg ‹_›, h1⟩

end Drbd.Meta
