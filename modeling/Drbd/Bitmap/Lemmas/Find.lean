import Drbd.Bitmap.Defs
import Mathlib.Data.List.Range

/-!
# The search for the next bit
-/

namespace Drbd.Bitmap

variable {b : DrbdBitmap} {z : Bool}

/-- `i` is the least bit from `lo` on, below `hi`, that differs from `z`. -/
structure IsNext (b : DrbdBitmap) (z : Bool) (lo hi i : Nat) : Prop where
  ge : lo ≤ i
  lt : i < hi
  hit : b.bit i ≠ z
  least : ∀ j, lo ≤ j → j < i → b.bit j = z

theorem IsNext.unique {lo hi i j : Nat} (h : IsNext b z lo hi i) (h' : IsNext b z lo hi j) : i = j := by
  rcases Nat.lt_trichotomy i j with hlt | heq | hgt
  · exact absurd (h'.least i h.ge hlt) h.hit
  · exact heq
  · exact absurd (h.least j h'.ge hgt) h'.hit

theorem findInPage_some {lo i} (h : findInPage b lo z = some i) :
    IsNext b z lo (lo - lo % bitsPerPage + bitsPerPage) i := by
  unfold findInPage at h
  rw [List.find?_range'_eq_some] at h
  obtain ⟨hit, hmem, hleast⟩ := h
  have hmod : lo % bitsPerPage < bitsPerPage := Nat.mod_lt _ (by decide)
  have hle := Nat.mod_le lo bitsPerPage
  rw [List.mem_range'_1] at hmem
  refine ⟨hmem.1, by omega, by simpa using hit, fun j hj hji => ?_⟩
  have := hleast j hj hji
  simpa using this

theorem findInPage_none {lo} (h : findInPage b lo z = none) :
    ∀ j, lo ≤ j → j < lo - lo % bitsPerPage + bitsPerPage → b.bit j = z := by
  intro j hj hlt
  unfold findInPage at h
  rw [List.find?_eq_none] at h
  have hmod : lo % bitsPerPage < bitsPerPage := Nat.mod_lt _ (by decide)
  have hle := Nat.mod_le lo bitsPerPage
  have := h j (by rw [List.mem_range'_1]; omega)
  simpa using this

/-- The loop visits page after page, so with a page left for each one up to the end it does not stop
short. -/
theorem bmFindNextLoop_spec (pages lo : Nat) (hpages : b.bmBits / bitsPerPage < lo / bitsPerPage + pages) :
    (∀ i, bmFindNextLoop b z pages lo = some i → IsNext b z lo b.bmBits i) ∧
      (bmFindNextLoop b z pages lo = none → ∀ j, lo ≤ j → j < b.bmBits → b.bit j = z) := by
  induction pages generalizing lo with
  | zero =>
      refine ⟨fun i h => (by cases h), fun _ j hj hlt => ?_⟩
      have := Nat.div_le_div_right (c := bitsPerPage) (show lo ≤ b.bmBits by omega)
      omega
  | succ pages ih =>
      unfold bmFindNextLoop
      split
      case isFalse hge => exact ⟨fun i h => (by cases h), fun _ j hj hlt => by omega⟩
      rename_i hlo
      split
      · rename_i i hfind
        have hnext := findInPage_some hfind
        split
        · rename_i hpast
          refine ⟨fun i h => (by cases h), fun _ j hj hlt => hnext.least j hj (by omega)⟩
        · rename_i hin
          refine ⟨fun i' h => ?_, fun h => (by cases h)⟩
          cases h
          exact ⟨hnext.ge, by omega, hnext.hit, hnext.least⟩
      · rename_i hnone
        have hempty := findInPage_none hnone
        have hpage : (lo - lo % bitsPerPage + bitsPerPage) / bitsPerPage = lo / bitsPerPage + 1 := by
          simp only [bitsPerPage]; omega
        have hge : lo ≤ lo - lo % bitsPerPage + bitsPerPage := by
          simp only [bitsPerPage]; omega
        obtain ⟨hsome, hnone'⟩ := ih (lo - lo % bitsPerPage + bitsPerPage) (by rw [hpage]; omega)
        have hbelow : ∀ j, lo ≤ j → (j < lo - lo % bitsPerPage + bitsPerPage → b.bit j = z) :=
          fun j hj hlt => hempty j hj hlt
        refine ⟨fun i h => ?_, fun h j hj hlt => ?_⟩
        · have hnext := hsome i h
          refine ⟨le_trans hge hnext.ge, hnext.lt, hnext.hit, fun j hj hji => ?_⟩
          rcases Nat.lt_or_ge j (lo - lo % bitsPerPage + bitsPerPage) with hlt | hge'
          · exact hbelow j hj hlt
          · exact hnext.least j hge' hji
        · rcases Nat.lt_or_ge j (lo - lo % bitsPerPage + bitsPerPage) with hlt' | hge'
          · exact hbelow j hj hlt'
          · exact hnone' h j hge' hlt

/-- More pages than there are change nothing. -/
theorem bmFindNextLoop_pages {lo pages : Nat} (pages' : Nat) (h : b.bmBits / bitsPerPage < pages)
    (h' : b.bmBits / bitsPerPage < pages') : bmFindNextLoop b z pages lo = bmFindNextLoop b z pages' lo := by
  have hspec := bmFindNextLoop_spec (b := b) (z := z) pages lo (Nat.lt_of_lt_of_le h (Nat.le_add_left _ _))
  have hspec' := bmFindNextLoop_spec (b := b) (z := z) pages' lo (Nat.lt_of_lt_of_le h' (Nat.le_add_left _ _))
  cases hf : bmFindNextLoop b z pages lo with
  | none =>
      cases hf' : bmFindNextLoop b z pages' lo with
      | none => rfl
      | some i =>
          have hnext := hspec'.1 i hf'
          exact absurd (hspec.2 hf i hnext.ge hnext.lt) hnext.hit
  | some i =>
      have hnext := hspec.1 i hf
      cases hf' : bmFindNextLoop b z pages' lo with
      | none => exact absurd (hspec'.2 hf' i hnext.ge hnext.lt) hnext.hit
      | some j => rw [hnext.unique (hspec'.1 j hf')]

theorem bmFindNext_some {lo i} (h : bmFindNext b lo z = some i) : IsNext b z lo b.bmBits i := by
  unfold bmFindNext at h
  split at h
  · cases h
  · exact (bmFindNextLoop_spec _ lo (by simp only [bitsPerPage]; omega)).1 i h

theorem bmFindNext_none {lo} (h : bmFindNext b lo z = none) :
    ∀ j, lo ≤ j → j < b.bmBits → b.bit j = z := by
  unfold bmFindNext at h
  split at h
  · intro j hj hlt
    omega
  · exact (bmFindNextLoop_spec _ lo (by simp only [bitsPerPage]; omega)).2 h

end Drbd.Bitmap
