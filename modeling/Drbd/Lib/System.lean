import Mathlib.Logic.Basic

/-!
# Event systems and their runs

A system takes one event at a time; an event that is not enabled gives no successor.
An interleaving of several threads is a list of events, so what holds for every interleaving is
proved here once: by a step lemma and an induction over the list.
-/

namespace Drbd.Lib

variable {σ ε : Type}

/-- The state after taking all events in order, if each of them was enabled. -/
def run (step : σ → ε → Option σ) : σ → List ε → Option σ
  | s, [] => some s
  | s, e :: es => (step s e).bind fun s' => run step s' es

/-- Every step of the run meets the condition `c` in the state it is taken from. -/
def Meets (step : σ → ε → Option σ) (c : σ → ε → Prop) : σ → List ε → Prop
  | _, [] => True
  | s, e :: es => c s e ∧ ∀ s', step s e = some s' → Meets step c s' es

instance Meets.instDecidable (step : σ → ε → Option σ) (c : σ → ε → Prop) [∀ s e, Decidable (c s e)] :
    ∀ s es, Decidable (Meets step c s es)
  | _, [] => inferInstanceAs (Decidable True)
  | s, e :: es =>
      have : Decidable (∀ s', step s e = some s' → Meets step c s' es) :=
        match h : step s e with
        | none => isTrue (fun s' hs => by simp at hs)
        | some t =>
            match Meets.instDecidable step c t es with
            | isTrue ht => isTrue (fun s' hs => by cases hs; exact ht)
            | isFalse hf => isFalse (fun ha => hf (ha t rfl))
      inferInstanceAs (Decidable (_ ∧ _))

variable {step : σ → ε → Option σ} {c : σ → ε → Prop}

theorem run_cons {s e es s'} (h : run step s (e :: es) = some s') :
    ∃ t, step s e = some t ∧ run step t es = some s' := by
  simpa [run, Option.bind_eq_some_iff] using h

theorem run_append (s : σ) (es fs : List ε) :
    run step s (es ++ fs) = (run step s es).bind fun t => run step t fs := by
  induction es generalizing s with
  | nil => rfl
  | cons e es ih =>
      simp only [List.cons_append, run, Option.bind_assoc]
      exact Option.bind_congr fun t _ => ih t

/-- What one admissible step preserves, a whole admissible run preserves. -/
theorem run_invariant {I : σ → Prop}
    (hstep : ∀ {s e s'}, I s → c s e → step s e = some s' → I s')
    {s es s'} (hI : I s) (hc : Meets step c s es) (h : run step s es = some s') : I s' := by
  induction es generalizing s with
  | nil =>
      simp only [run, Option.some.injEq] at h
      exact h ▸ hI
  | cons e es ih =>
      obtain ⟨t, ht, hrest⟩ := run_cons h
      exact ih (hstep hI hc.1 ht) (hc.2 t ht) hrest

/-- The same for a run of any steps. -/
theorem run_preserves {I : σ → Prop} (hstep : ∀ {s e s'}, I s → step s e = some s' → I s')
    {s es s'} (hI : I s) (h : run step s es = some s') : I s' := by
  induction es generalizing s with
  | nil =>
      simp only [run, Option.some.injEq] at h
      exact h ▸ hI
  | cons e es ih =>
      obtain ⟨t, ht, hrest⟩ := run_cons h
      exact ih (hstep hI ht) hrest

/-- Where the invariant and the condition enable every step, no admissible run gets stuck. -/
theorem run_total {I : σ → Prop} (hstep : ∀ s e, I s → c s e → ∃ s', step s e = some s' ∧ I s') {s es} (hI : I s)
    (hc : Meets step c s es) : ∃ s', run step s es = some s' ∧ I s' := by
  induction es generalizing s with
  | nil => exact ⟨s, rfl, hI⟩
  | cons e es ih =>
      obtain ⟨t, ht, hIt⟩ := hstep s e hI hc.1
      obtain ⟨s', hs', hI'⟩ := ih hIt (hc.2 t ht)
      exact ⟨s', by rw [run, ht, Option.bind_some, hs'], hI'⟩

end Drbd.Lib
