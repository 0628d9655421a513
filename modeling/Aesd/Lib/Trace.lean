import Mathlib.Data.List.Induction
import Mathlib.Tactic.Common

/-!
# Runs of a partial step function

A machine is a function `step : σ → ε → Option σ`: in state `s` the event `e` is possible when
`step s e` is some state. `run step s es` is the state after the events `es`, when all of them
were possible in their turn.

* `run_append`, `run_cons`, `run_concat` — how runs are cut;
* `run_induction` — the invariant rule: what holds at the start and is kept by every step, given
  the events so far, holds after every run;
* `filterMap_concat`, `countP_concat` — what a log or a count kept of the events gains with one more
  event;
* `run_filterMap` — the projection rule: a party of a system runs by itself on its own events;
* `run_budget` — the budget rule: what every counted event takes from bounds their number;
* `Meets`, `Always` — what holds of every event in the state before it, and of every state of a run.
-/

namespace Aesd.Lib

variable {σ ε : Type*} (step : σ → ε → Option σ)

/-- The state after the events, when each was possible in its turn.
Source: none: infrastructure
Kind: D -/
def run (s : σ) : List ε → Option σ
  | [] => some s
  | e :: es => (step s e).bind fun s' => run s' es

variable {step} {s s' : σ} {e : ε} {es : List ε}

/-- No events.
Source: none: infrastructure
Kind: L -/
@[simp] theorem run_nil : run step s [] = some s := rfl

/-- A run is cut behind its first event.
Source: none: infrastructure
Kind: L -/
theorem run_cons : run step s (e :: es) = some s' ↔
    ∃ t, step s e = some t ∧ run step t es = some s' := by
  rw [run, Option.bind_eq_some_iff]

/-- A run is cut anywhere.
Source: none: infrastructure
Kind: L -/
theorem run_append {es' : List ε} : run step s (es ++ es') = some s' ↔
    ∃ t, run step s es = some t ∧ run step t es' = some s' := by
  induction es generalizing s with
  | nil => simp
  | cons e es ih =>
      rw [List.cons_append, run_cons]
      constructor
      · rintro ⟨u, hstep, hrest⟩
        obtain ⟨t, ht, ht'⟩ := ih.mp hrest
        exact ⟨t, run_cons.mpr ⟨u, hstep, ht⟩, ht'⟩
      · rintro ⟨t, ht, ht'⟩
        obtain ⟨u, hstep, hrest⟩ := run_cons.mp ht
        exact ⟨u, hstep, ih.mpr ⟨t, hrest, ht'⟩⟩

/-- A run is cut before its last event.
Source: none: infrastructure
Kind: L -/
theorem run_concat : run step s (es ++ [e]) = some s' ↔
    ∃ t, run step s es = some t ∧ step t e = some s' := by
  rw [run_append]
  refine exists_congr fun t => and_congr_right fun _ => ?_
  rw [run_cons]
  simp

/-- A log of the events gains the entry of one more event.
Source: none: infrastructure
Kind: L -/
theorem filterMap_concat {β : Type*} (f : ε → Option β) (es : List ε) (e : ε) :
    (es ++ [e]).filterMap f = es.filterMap f ++ (f e).toList := by
  rw [List.filterMap_append]
  cases hf : f e <;> simp [hf]

/-- A count of the events goes up with one more event that counts.
Source: none: infrastructure
Kind: L -/
theorem countP_concat (c : ε → Bool) (es : List ε) (e : ε) :
    (es ++ [e]).countP c = es.countP c + (c e).toNat := by
  rw [List.countP_append, List.countP_singleton]
  cases c e <;> rfl

/-- **The invariant rule.** The invariant may speak of the events so far.
Source: none: infrastructure
Kind: L -/
theorem run_induction {P : List ε → σ → Prop} (hinit : P [] s)
    (hstep : ∀ es t e t', run step s es = some t → P es t → step t e = some t' → P (es ++ [e]) t') :
    ∀ {es : List ε} {s' : σ}, run step s es = some s' → P es s' := by
  intro es
  induction es using List.reverseRecOn with
  | nil =>
      intro s' hrun
      cases hrun
      exact hinit
  | append_singleton es e ih =>
      intro s' hrun
      obtain ⟨t, ht, he⟩ := run_concat.mp hrun
      exact hstep es t e s' ht (ih ht) he

/-- **The projection rule.** When every event is one of a party's own or leaves the party alone, the
party has run by itself on its own events.
Source: none: infrastructure
Kind: L -/
theorem run_filterMap {τ η : Type*} {step' : τ → η → Option τ} {f : σ → τ} {g : ε → Option η}
    (hown : ∀ {t e t' a}, step t e = some t' → g e = some a → step' (f t) a = some (f t'))
    (hother : ∀ {t e t'}, step t e = some t' → g e = none → f t' = f t)
    (hrun : run step s es = some s') : run step' (f s) (es.filterMap g) = some (f s') := by
  refine run_induction (P := fun es t => run step' (f s) (es.filterMap g) = some (f t))
    rfl ?_ hrun
  intro es t e t' _ ih hstep
  rw [filterMap_concat]
  cases ha : g e with
  | none =>
      rw [Option.toList_none, List.append_nil, hother hstep ha]
      exact ih
  | some a => exact run_concat.mpr ⟨_, ih, hown hstep ha⟩

/-- **The budget rule.** When a budget is kept by every event and pays for those that are counted,
no run has more of them.
Source: none: infrastructure
Kind: L -/
theorem run_budget {c : ε → Bool} {B : ℕ → σ → Prop}
    (hstep : ∀ {k t e t'}, B k t → step t e = some t' → ∃ j, k = (c e).toNat + j ∧ B j t')
    {k : ℕ} (hs : B k s) (hrun : run step s es = some s') :
    ∃ j, k = es.countP c + j ∧ B j s' := by
  refine run_induction (P := fun es t => ∃ j, k = es.countP c + j ∧ B j t) ⟨k, ?_, hs⟩ ?_ hrun
  · rw [List.countP_nil, Nat.zero_add]
  · rintro es t e t' - ⟨j, rfl, hj⟩ hnext
    obtain ⟨i, rfl, hi⟩ := hstep hj hnext
    refine ⟨i, ?_, hi⟩
    rw [countP_concat]
    omega

/-! ### What holds all along a run -/

variable (step) in
/-- Every event of a run meets a condition in the state before it.
Source: none: infrastructure
Kind: D -/
def Meets (P : σ → ε → Prop) : σ → List ε → Prop
  | _, [] => True
  | s, e :: es => P s e ∧ ∀ s' ∈ step s e, Meets P s' es

variable (step) in
/-- Every state of a run, the first and the last included, has a property.
Source: none: infrastructure
Kind: D -/
def Always (Q : σ → Prop) : σ → List ε → Prop
  | s, [] => Q s
  | s, e :: es => Q s ∧ ∀ s' ∈ step s e, Always Q s' es

/-- Whether every event meets the condition is found by running.
Source: none: infrastructure
Kind: D -/
instance decidableMeets {P : σ → ε → Prop} [∀ s e, Decidable (P s e)] :
    ∀ (s : σ) (es : List ε), Decidable (Meets step P s es)
  | _, [] => inferInstanceAs (Decidable True)
  | s, e :: es =>
      have := fun s' => decidableMeets (P := P) s' es
      inferInstanceAs (Decidable (P s e ∧ ∀ s' ∈ step s e, Meets step P s' es))

/-- One more event meets the condition in the state it comes in.
Source: none: infrastructure
Kind: L -/
theorem meets_concat {P : σ → ε → Prop} : Meets step P s (es ++ [e]) ↔
    Meets step P s es ∧ ∀ t, run step s es = some t → P t e := by
  induction es generalizing s with
  | nil => simp [Meets]
  | cons a es ih =>
      rw [List.cons_append, Meets, Meets, and_assoc]
      refine and_congr_right fun _ => ?_
      constructor
      · intro h
        refine ⟨fun u hu => (ih.mp (h u hu)).1, fun t hrun => ?_⟩
        obtain ⟨u, hu, ht⟩ := run_cons.mp hrun
        exact (ih.mp (h u hu)).2 t ht
      · rintro ⟨hmeets, hlast⟩ u hu
        exact ih.mpr ⟨hmeets u hu, fun t ht => hlast t (run_cons.mpr ⟨u, hu, ht⟩)⟩

/-- An event of a run met the condition in some state.
Source: none: infrastructure
Kind: L -/
theorem Meets.exists_state {P : σ → ε → Prop} (h : Meets step P s es) (hrun : run step s es = some s')
    (he : e ∈ es) : ∃ t, P t e := by
  induction es generalizing s with
  | nil => cases he
  | cons a es ih =>
      obtain ⟨u, hu, hrest⟩ := run_cons.mp hrun
      rcases List.mem_cons.mp he with rfl | he
      · exact ⟨s, h.1⟩
      · exact ih (h.2 u hu) hrest he

/-- One more event leads to a state with the property.
Source: none: infrastructure
Kind: L -/
theorem always_concat {Q : σ → Prop} : Always step Q s (es ++ [e]) ↔
    Always step Q s es ∧ ∀ t t', run step s es = some t → step t e = some t' → Q t' := by
  induction es generalizing s with
  | nil =>
      refine and_congr_right fun _ => ⟨fun h t t' hrun => ?_, fun h s' => h s s' rfl⟩
      cases hrun
      exact h t'
  | cons a es ih =>
      rw [List.cons_append, Always, Always, and_assoc]
      refine and_congr_right fun _ => ?_
      constructor
      · intro h
        refine ⟨fun u hu => (ih.mp (h u hu)).1, fun t t' hrun hstep => ?_⟩
        obtain ⟨u, hu, ht⟩ := run_cons.mp hrun
        exact (ih.mp (h u hu)).2 t t' ht hstep
      · rintro ⟨halways, hlast⟩ u hu
        exact ih.mpr ⟨halways u hu, fun t t' ht => hlast t t' (run_cons.mpr ⟨u, hu, ht⟩)⟩

/-- What holds all along a run holds at its start.
Source: none: infrastructure
Kind: L -/
theorem Always.first {Q : σ → Prop} (h : Always step Q s es) : Q s := by
  cases es with
  | nil => exact h
  | cons e es => exact h.1

/-- What holds all along a run holds at its end.
Source: none: infrastructure
Kind: L -/
theorem Always.last {Q : σ → Prop} (h : Always step Q s es) (hrun : run step s es = some s') :
    Q s' := by
  induction es generalizing s with
  | nil =>
      cases hrun
      exact h
  | cons e es ih =>
      obtain ⟨u, hu, hrest⟩ := run_cons.mp hrun
      exact ih (h.2 u hu) hrest

end Aesd.Lib
