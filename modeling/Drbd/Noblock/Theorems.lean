import Drbd.Noblock.Lemmas.Invariant

/-!
# Protocol S and lost updates

A write that overtakes a request in flight drops the extent's entry; the next request in the same
extent makes a new one, and the overtaken request's ack then passes for its own. Without such a
revival, and without a write marking a block while an ack is clearing it, no update is lost.
-/

namespace Drbd.Noblock

open Lru Bitmap Lib

variable {g : Geometry} {s s' : State} {es : List Event}

/-- A freshly attached device: nothing under way, and only blocks the peer has are clear. -/
structure Init (g : Geometry) (s : State) : Prop where
  cache : s.lruNoblock = lcCreate 1024 2000
  bits : s.bitmap.bmBits = (g.capacity + 7) / 8
  endios : s.endios = []
  idle : s.sender.pc = .idle
  reqs : s.reqs = []
  ack : s.ack = none
  inSync : ∀ b < s.bitmap.bmBits, s.bitmap.bit b = false → s.written b ≤ s.acked b

theorem Init.inv (h : Init g s) (ex : Nat → Nat → Prop) : Inv g ex s where
  cache := by rw [h.cache]; exact .lcCreate 1024 2000
  bits := h.bits
  sender := by rw [h.idle]; trivial
  endios w hw := by rw [h.endios] at hw; cases hw
  reqs r hr := by rw [h.reqs] at hr; cases hr
  dropped r hr := by rw [h.reqs] at hr; cases hr
  granted a ha := by rw [h.ack] at ha; cases ha
  safe b hb _ hbit := .inl (h.inSync b hb hbit)

/-- As long as no step revives a dropped extent under an overtaken request, or marks a block that an
ack is clearing, a clear bit means that the peer has the block. -/
theorem no_update_lost (h0 : Init g s) (hc : Meets (step g) Keeps s es)
    (h : run (step g) s es = some s') : Safe s' := by
  have hinv : Inv g (fun _ _ => False) s' :=
    run_invariant (I := Inv g _) (fun hi hk hs => hi.step hk hs) (h0.inv _) hc h
  exact fun b hb hpend hbit => (hinv.safe b hb hpend hbit).resolve_right id

/-! ## Four blocks of one extent -/

/-- Sixteen kilobytes, all in sync. -/
def fourBlocks : Geometry := ⟨32, 2 ^ 20, by decide, by decide⟩

def inSync : State where
  lruNoblock := lcCreate 1024 2000
  bitmap := ⟨4, 0, fun _ => 0, fun _ => false, fun _ => false⟩
  endios := []
  sender := ⟨.idle, 0, 0, 0⟩
  reqs := []
  ack := none
  written := fun _ => 0
  acked := fun _ => 0

theorem inSync_init : Init fourBlocks inSync :=
  ⟨rfl, rfl, rfl, rfl, rfl, rfl, fun _ _ _ => Nat.le_refl _⟩

/-- A write from its completion to its marks, with no other thread in between. -/
def write (sector : Nat) : List Event := [.endio sector 4096, .endioSetOutOfSync 0]

/-- One request of the sender, from the search to the submitted read. -/
def send : List Event := List.replicate 5 .syncStep

/-- One block is written, sent and acknowledged. -/
def written : List Event :=
  write 0 ++ [.syncStart] ++ send ++ [.readBlock 0 0, .ackArrives 0, .ackSetInSync]

theorem no_update_lost_written :
    Init fourBlocks inSync ∧ Meets (step fourBlocks) Keeps inSync written ∧
      ∃ s', run (step fourBlocks) inSync written = some s' ∧ s'.bitmap.bit 0 = false ∧ Safe s' := by
  have hc : Meets (step fourBlocks) Keeps inSync written := by decide +kernel
  have hrun : (run (step fourBlocks) inSync written).map (fun s => s.bitmap.bit 0) = some false := by
    decide +kernel
  obtain ⟨s', hs', hbit⟩ := Option.map_eq_some_iff.1 hrun
  exact ⟨inSync_init, hc, s', hs', hbit, no_update_lost inSync_init hc hs'⟩

/-- Block 0 is written again after it was read, and block 2 is sent before the first ack. -/
def overtaking : List Event :=
  write 0 ++ write 16 ++ [.syncStart] ++ send ++ [.readBlock 0 0] ++ write 0 ++ send ++
    [.ackArrives 0, .ackSetInSync]

/-- Block 0 is clear, though the peer has only its first write. -/
theorem overtaking_loses_update :
    ¬ ∀ (g : Geometry) (s s' : State) (es : List Event),
      Init g s → run (step g) s es = some s' → Safe s' := by
  intro hall
  have hrun : (run (step fourBlocks) inSync overtaking).map
      (fun s => (s.endios, s.bitmap.bit 0, s.written 0, s.acked 0, s.bitmap.bmBits))
      = some ([], false, 2, 1, 4) := by decide +kernel
  obtain ⟨s', hs', hobs⟩ := Option.map_eq_some_iff.1 hrun
  simp only [Prod.mk.injEq] at hobs
  obtain ⟨hend, hbit, hwritten, hacked, hbits⟩ := hobs
  have hsafe := hall _ _ _ _ inSync_init hs' 0 (by omega) (by simp [Pending, hend]) hbit
  omega

end Drbd.Noblock
