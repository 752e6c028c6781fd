import Drbd.Divergence.Defs
import Drbd.Uuid.Lemmas.Resync
import Drbd.Uuid.Lemmas.Rules
import Drbd.State.Lemmas.Sanitize

/-!
# A generation of one's own
-/

namespace Drbd.Divergence

open State Uuid

variable {n n' m : Node} {val : UInt64} {env : Env} {hard : Bool} {ns : DrbdState} {c : Cluster}

/-- The node's current UUID is its own: the other node has it in none of its slots. -/
structure Own (n m : Node) : Prop where
  data : base n.uuid.current ≠ 0
  created : base n.uuid.current ≠ uuidJustCreated
  current : base n.uuid.current ≠ base m.uuid.current
  older : ¬ Uuid.Lists m.uuid n.uuid.current

/-- A random number that is not a UUID yet, bit 0 aside. -/
structure Fresh (c : Cluster) (val : UInt64) : Prop where
  data : base val ≠ 0
  created : base val ≠ uuidJustCreated
  current : ∀ i, base val ≠ base (c.node i).uuid.current
  older : ∀ i, ¬ Uuid.Lists (c.node i).uuid val

instance (c : Cluster) (val : UInt64) : Decidable (Fresh c val) :=
  decidable_of_iff (base val ≠ 0 ∧ base val ≠ uuidJustCreated ∧
    (∀ i, base val ≠ base (c.node i).uuid.current) ∧ ∀ i, ¬ Uuid.Lists (c.node i).uuid val)
    ⟨fun h => ⟨h.1, h.2.1, h.2.2.1, h.2.2.2⟩, fun h => ⟨h.data, h.created, h.current, h.older⟩⟩

/-- The arrays name the same generations; only bit 0 of the current UUID may differ. -/
structure SameUuids (n n' : Node) : Prop where
  current : base n'.uuid.current = base n.uuid.current
  bitmap : n'.uuid.bitmap = n.uuid.bitmap
  historyStart : n'.uuid.historyStart = n.uuid.historyStart
  historyEnd : n'.uuid.historyEnd = n.uuid.historyEnd

/-- A new current UUID, with the old one in the bitmap slot. -/
structure Drawn (val : UInt64) (n n' : Node) : Prop where
  current : base n'.uuid.current = base val
  bitmap : base n'.uuid.bitmap = base n.uuid.current
  historyStart : n'.uuid.historyStart = n.uuid.historyStart
  historyEnd : n'.uuid.historyEnd = n.uuid.historyEnd

theorem SameUuids.of_eq (h : n'.uuid = n.uuid) : SameUuids n n' := by
  constructor <;> rw [h]

theorem Node.newCurrent_drawn : Drawn val n (n.newCurrent val) :=
  ⟨base_uuidSet_current, rfl, rfl, rfl⟩

theorem Own.congr (h : Own n m) (hn : SameUuids n n') : Own n' m := by
  refine ⟨?_, ?_, ?_, ?_⟩
  · rw [hn.current]; exact h.data
  · rw [hn.current]; exact h.created
  · rw [hn.current]; exact h.current
  · unfold Uuid.Lists
    rw [hn.current]
    exact h.older

theorem Own.peer_congr (h : Own m n) (hn : SameUuids n n') : Own m n' := by
  refine ⟨h.data, h.created, ?_, ?_⟩
  · rw [hn.current]; exact h.current
  · unfold Uuid.Lists
    rw [hn.bitmap, hn.historyStart, hn.historyEnd]
    exact h.older

theorem Drawn.own {i : Bool} (h : Drawn val n n') (hf : Fresh c val) : Own n' (c.node i) := by
  refine ⟨?_, ?_, ?_, ?_⟩
  · rw [h.current]; exact hf.data
  · rw [h.current]; exact hf.created
  · rw [h.current]; exact hf.current i
  · unfold Uuid.Lists
    rw [h.current]
    exact hf.older i

theorem Own.peer_drawn {i : Bool} (h : Own (c.node i) n) (hn : Drawn val n n') (hf : Fresh c val) :
    Own (c.node i) n' := by
  refine ⟨h.data, h.created, ?_, ?_⟩
  · rw [hn.current]
    exact Ne.symm (hf.current i)
  · unfold Uuid.Lists
    rw [hn.bitmap, hn.historyStart, hn.historyEnd]
    rintro (hb | hh)
    · exact h.current hb
    · exact h.older (.inr hh)

/-! ## The verdict -/

theorem Own.compare_ne_zero {r : Bool} {version : Nat} {i : Bool} (h : Own (c.node i) (c.node !i)) :
    (c.compare r version i).hg ≠ 0 :=
  Uuid.compare_ne_zero h.data h.created h.current h.older

theorem Own.compare_splitBrain {r : Bool} {version : Nat} {i : Bool} (h : Own (c.node i) (c.node !i))
    (h' : Own (c.node !i) (c.node i))
    (hhist : (c.node i).uuid.historyStart = (c.node !i).uuid.historyStart) :
    (c.compare r version i).hg = 100 ∨ (c.compare r version i).hg = -100 :=
  Uuid.compare_splitBrain h.data h.created h'.data h'.created h.current h.older h'.older
    (.inl (.inl (congrArg base hhist)))

end Drbd.Divergence
