import Mathlib.Tactic.Common

/-!
# Code that works on a state behind a mutex

`Locking σ η α` is the code of one caller, statement by statement: its attempts to take the mutex,
its unlocks, its accesses to the state `σ` that the mutex guards, and its work on the part `η` of the
state that the mutex does not guard. The state is handed out by an access and by nothing else, so
that what the code does to it can be read off its statements.

* `Keeps x held s` — the discipline, followed through the statements: every access and every unlock
  is made while the mutex is held, no attempt is made while it is held, and the code returns holding
  nothing;
* `run_bind`, `run_ite`, `Computes` — what the code does to the state;
* `Within x` — the code has accesses and work only: what may stand between a lock and its unlock;
* `keeps_section`, `run_section` — a critical section keeps to the discipline and does what the code
  in it does.
-/

namespace Aesd.Lib

/-- The part of a state that the mutex does not guard.
Source: none: infrastructure
Kind: D -/
class Unguarded (σ : Type) (η : outParam Type) where
  part : σ → η
  put : η → σ → σ

/-- The statements of one caller. An attempt to lock is told whether it is interrupted; what follows
a statement depends on its result.
Source: none: infrastructure
Kind: D -/
inductive Locking (σ η α : Type) : Type 1 where
  | ret (a : α)
  | fail
  | locks (interrupted : Bool) (k : Bool → Locking σ η α)
  | unlocks (k : Locking σ η α)
  | accesses {β : Type} (f : σ → β × σ) (k : β → Locking σ η α)
  | works {β : Type} (f : η → β × η) (k : β → Locking σ η α)

namespace Locking

variable {σ η α β : Type}

/-- One piece of code, and then another that may use its result.
Source: none: infrastructure
Kind: D -/
def bind : Locking σ η α → (α → Locking σ η β) → Locking σ η β
  | ret a, next => next a
  | fail, _ => fail
  | locks interrupted k, next => locks interrupted fun b => (k b).bind next
  | unlocks k, next => unlocks (k.bind next)
  | accesses f k, next => accesses f fun b => (k b).bind next
  | works f k, next => works f fun b => (k b).bind next

/-- The statements of two pieces of code stand one after the other.
Source: none: infrastructure
Kind: D -/
instance : Monad (Locking σ η) where
  pure := ret
  bind := bind

/-! ### The statements -/

/-- Take the mutex, unless the attempt is interrupted. The result is whether it was.
Source: none: infrastructure
Kind: D -/
def lockInterruptible (interrupted : Bool) : Locking σ η Bool := locks interrupted ret

/-- Release the mutex.
Source: none: infrastructure
Kind: D -/
def unlock : Locking σ η Unit := unlocks (ret ())

/-- Read from the guarded state.
Source: none: infrastructure
Kind: D -/
def access (f : σ → α) : Locking σ η α := accesses (fun s => (f s, s)) ret

/-- Change the guarded state, with a result.
Source: none: infrastructure
Kind: D -/
def update (f : σ → α × σ) : Locking σ η α := accesses f ret

/-- Work on the part that the mutex does not guard.
Source: none: infrastructure
Kind: D -/
def unguarded (f : η → α × η) : Locking σ η α := works f ret

/-! ### The discipline and the result -/

section semantics

variable [Unguarded σ η]

/-- The discipline, followed through the statements from a state on, by a caller that holds the
mutex or not. Nothing is taken for granted of the state that a lock finds: others may have changed
it while the caller waited.
Source: none: infrastructure
Kind: D -/
def Keeps : Locking σ η α → Bool → σ → Prop
  | ret _, held, _ => held = false
  | fail, _, _ => False
  | locks interrupted k, held, s =>
      held = false ∧ if interrupted then (k true).Keeps false s else ∀ s', (k false).Keeps true s'
  | unlocks k, held, s => held = true ∧ k.Keeps false s
  | accesses f k, held, s => held = true ∧ (k (f s).1).Keeps held (f s).2
  | works f k, held, s =>
      (k (f (Unguarded.part s)).1).Keeps held (Unguarded.put (f (Unguarded.part s)).2 s)

/-- The result and the state after the statements, with nobody else in between.
Source: none: infrastructure
Kind: D -/
def run : Locking σ η α → σ → Option (α × σ)
  | ret a, s => some (a, s)
  | fail, _ => none
  | locks interrupted k, s => (k interrupted).run s
  | unlocks k, s => k.run s
  | accesses f k, s => (k (f s).1).run (f s).2
  | works f k, s => (k (f (Unguarded.part s)).1).run (Unguarded.put (f (Unguarded.part s)).2 s)

/-- The code does what the function says.
Source: none: infrastructure
Kind: D -/
def Computes (x : Locking σ η α) (f : σ → α × σ) : Prop := ∀ s, x.run s = some (f s)

/-! ### The rules -/

/-- Code that only returns.
Source: none: infrastructure
Kind: L -/
@[simp] theorem run_pure (a : α) (s : σ) : (pure a : Locking σ η α).run s = some (a, s) := rfl

/-- Code is run piece by piece.
Source: none: infrastructure
Kind: L -/
@[simp] theorem run_bind (x : Locking σ η α) (k : α → Locking σ η β) (s : σ) :
    (x >>= k).run s = (x.run s).bind fun r => (k r.1).run r.2 := by
  change (x.bind k).run s = _
  induction x generalizing s with
  | ret a => rfl
  | fail => rfl
  | locks interrupted k' ih => exact ih _ s
  | unlocks k' ih => exact ih s
  | accesses f k' ih => exact ih _ _
  | works f k' ih => exact ih _ _

/-- A read leaves the state alone.
Source: none: infrastructure
Kind: L -/
@[simp] theorem run_access (f : σ → α) (s : σ) :
    (access f : Locking σ η α).run s = some (f s, s) := rfl

/-- A change does what its function says.
Source: none: infrastructure
Kind: L -/
@[simp] theorem run_update (f : σ → α × σ) (s : σ) :
    (update f : Locking σ η α).run s = some (f s) := rfl

/-- Work changes its part of the state only.
Source: none: infrastructure
Kind: L -/
@[simp] theorem run_unguarded (f : η → α × η) (s : σ) :
    (unguarded f : Locking σ η α).run s =
      some ((f (Unguarded.part s)).1, Unguarded.put (f (Unguarded.part s)).2 s) := rfl

/-- A test is made before the code it chooses.
Source: none: infrastructure
Kind: L -/
@[simp] theorem run_ite {c : Prop} [Decidable c] (x y : Locking σ η α) (s : σ) :
    (if c then x else y).run s = if c then x.run s else y.run s :=
  apply_ite (fun z : Locking σ η α => z.run s) c x y

end semantics

/-! ### Critical sections -/

/-- The code has accesses and work only, and no attempt to lock and no unlock.
Source: none: infrastructure
Kind: D -/
def Inner : Locking σ η α → Prop
  | ret _ => True
  | fail => True
  | locks _ _ => False
  | unlocks _ => False
  | accesses _ k => ∀ b, (k b).Inner
  | works _ k => ∀ b, (k b).Inner

/-- Code with accesses and work only, found by following how the code is put together.
Source: none: infrastructure
Kind: D -/
class Within (x : Locking σ η α) : Prop where
  inner : x.Inner

namespace Within

/-- Code that only returns.
Source: none: infrastructure
Kind: L -/
instance pure (a : α) : Within (Pure.pure a : Locking σ η α) := ⟨trivial⟩

/-- Code that does not end.
Source: none: infrastructure
Kind: L -/
instance fail : Within (Locking.fail : Locking σ η α) := ⟨trivial⟩

/-- A read.
Source: none: infrastructure
Kind: L -/
instance access (f : σ → α) : Within (Locking.access f : Locking σ η α) := ⟨fun _ => trivial⟩

/-- A change.
Source: none: infrastructure
Kind: L -/
instance update (f : σ → α × σ) : Within (Locking.update f : Locking σ η α) := ⟨fun _ => trivial⟩

/-- Work on the unguarded part.
Source: none: infrastructure
Kind: L -/
instance unguarded (f : η → α × η) : Within (Locking.unguarded f : Locking σ η α) :=
  ⟨fun _ => trivial⟩

/-- Two pieces of code.
Source: none: infrastructure
Kind: L -/
instance bind (x : Locking σ η α) (k : α → Locking σ η β) [hx : Within x]
    [hk : ∀ a, Within (k a)] : Within (x >>= k) := by
  constructor
  change (x.bind k).Inner
  have hinner := hx.inner
  clear hx
  induction x with
  | ret a => exact (hk a).inner
  | fail => trivial
  | locks interrupted k' ih => exact hinner.elim
  | unlocks k' ih => exact hinner.elim
  | accesses f k' ih => exact fun b => ih b (hinner b)
  | works f k' ih => exact fun b => ih b (hinner b)

/-- A test, and the code it chooses.
Source: none: infrastructure
Kind: L -/
instance ite {c : Prop} [Decidable c] (x y : Locking σ η α) [hx : Within x] [hy : Within y] :
    Within (if c then x else y) := by
  by_cases hc : c
  · rw [if_pos hc]
    exact hx
  · rw [if_neg hc]
    exact hy

/-- A test whose outcome the code it chooses may use.
Source: none: infrastructure
Kind: L -/
instance dite {c : Prop} [Decidable c] (x : c → Locking σ η α) (y : ¬ c → Locking σ η α)
    [hx : ∀ h, Within (x h)] [hy : ∀ h, Within (y h)] : Within (if h : c then x h else y h) := by
  by_cases hc : c
  · rw [dif_pos hc]
    exact hx hc
  · rw [dif_neg hc]
    exact hy hc

end Within

section sections

variable [Unguarded σ η] {x : Locking σ η α} {interrupted : Bool}

/-- What stands between a lock and its unlock is left as it was entered.
Source: none: infrastructure
Kind: L -/
theorem keeps_bind [hx : Within x] {k : α → Locking σ η β} {s : σ} {r : α × σ}
    (hrun : x.run s = some r) (hk : (k r.1).Keeps true r.2) : (x >>= k).Keeps true s := by
  change (x.bind k).Keeps true s
  have hinner := hx.inner
  clear hx
  induction x generalizing s with
  | ret a =>
      obtain rfl := Option.some_inj.mp hrun
      exact hk
  | fail => simp [run] at hrun
  | locks interrupted k' ih => exact hinner.elim
  | unlocks k' ih => exact hinner.elim
  | accesses f k' ih => exact ⟨rfl, ih _ hrun (hinner _)⟩
  | works f k' ih => exact ih _ hrun (hinner _)

/-- **A critical section keeps to the discipline**, whether or not the attempt to lock is
interrupted, when the code in it ends.
Source: none: infrastructure
Kind: L -/
theorem keeps_section [Within x] {f : σ → α × σ} (hx : interrupted = false → Computes x f)
    (refused : α) (s : σ) :
    (do
      if ← lockInterruptible interrupted then
        return refused
      let result ← x
      unlock
      return result : Locking σ η α).Keeps false s := by
  refine ⟨rfl, ?_⟩
  cases interrupted with
  | true => exact rfl
  | false =>
      intro s'
      change (x >>= fun result => unlock >>= fun _ => pure result).Keeps true s'
      exact keeps_bind (hx rfl s') ⟨rfl, rfl⟩

/-- **A critical section is one step.** The attempt to lock may be interrupted, and then nothing has
happened; otherwise the state is as the code under the lock leaves it.
Source: none: infrastructure
Kind: L -/
theorem run_section {f : σ → α × σ} (hx : interrupted = false → Computes x f) (refused : α)
    (s : σ) :
    (do
      if ← lockInterruptible interrupted then
        return refused
      let result ← x
      unlock
      return result : Locking σ η α).run s =
      some (if interrupted then (refused, s) else f s) := by
  cases interrupted with
  | true => rfl
  | false =>
      change (x >>= fun result => unlock >>= fun _ => pure result).run s = _
      rw [run_bind, hx rfl s]
      rfl

end sections

end Locking

end Aesd.Lib
