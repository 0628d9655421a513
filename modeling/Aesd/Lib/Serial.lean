import Aesd.Lib.Mutex
import Aesd.Lib.Trace
import Mathlib.Logic.Function.Basic

/-!
# Critical sections, interleaved

Any number of threads run code of `Aesd.Lib.Mutex`, each on calls of its own, and the scheduler may
switch between any two statements. A call has at most one critical section, and does nothing to the
shared state outside of it. What the threads do is then what they would do one call at a time, in
the order in which the calls got the mutex.

* `Enters x`, `Leaves x` — the code has at most one critical section, and nothing else;
* `Threads.step` — the next statement of one thread: a call begins, gets the mutex, makes an access,
  releases the mutex and returns;
* `serial_of_run` — in every state of every interleaving, the calls that got the mutex have done what
  they do when they are run whole, one after the other;
* `Serial.holder_steps`, `Serial.leaves_in_steps`, `Serial.free_steps` — who can go on: the thread in
  the critical section always, and it comes to the unlock; every thread when the mutex is free.
-/

namespace Aesd.Lib

variable {σ η α β ω : Type}

/-! ### Code with one critical section -/

namespace Locking

/-- The rest of a critical section: accesses and work up to the unlock, and then the return.
Source: none: infrastructure
Kind: D -/
def Leaves : Locking σ η α → Prop
  | unlocks (ret _) => True
  | accesses _ k => ∀ b, (k b).Leaves
  | works _ k => ∀ b, (k b).Leaves
  | fail => True
  | _ => False

/-- A call: it returns without the mutex, or has one critical section.
Source: none: infrastructure
Kind: D -/
def Enters : Locking σ η α → Prop
  | ret _ => True
  | locks true k => (k true).Enters
  | locks false k => (k false).Leaves
  | _ => False

/-- Code with accesses and work only, then the unlock, then the return.
Source: none: infrastructure
Kind: L -/
theorem leaves_section (x : Locking σ η α) [hx : Within x] :
    (x >>= fun a => unlock >>= fun _ => pure a).Leaves := by
  change (x.bind _).Leaves
  have hinner := hx.inner
  clear hx
  induction x with
  | ret a => trivial
  | fail => trivial
  | locks interrupted k ih => exact hinner.elim
  | unlocks k ih => exact hinner.elim
  | accesses f k ih => exact fun b => ih b (hinner b)
  | works f k ih => exact fun b => ih b (hinner b)

/-- A critical section whose lock attempt may be interrupted.
Source: none: infrastructure
Kind: L -/
theorem enters_section (interrupted : Bool) (refused : α) (x : Locking σ η α) [Within x] :
    (do
      if ← lockInterruptible interrupted then
        return refused
      let result ← x
      unlock
      return result : Locking σ η α).Enters := by
  cases interrupted with
  | true => trivial
  | false => exact leaves_section x

/-- What is made of the result has no part in the critical section.
Source: none: infrastructure
Kind: L -/
theorem Leaves.map {x : Locking σ η α} (hx : x.Leaves) (g : α → β) : (g <$> x).Leaves := by
  change (x.bind fun a => ret (g a)).Leaves
  induction x with
  | ret a => exact hx.elim
  | fail => trivial
  | locks interrupted k ih => exact hx.elim
  | unlocks k ih =>
      cases k with
      | ret a => trivial
      | _ => exact hx.elim
  | accesses f k ih => exact fun b => ih b (hx b)
  | works f k ih => exact fun b => ih b (hx b)

/-- What is made of the result has no part in the locking.
Source: none: infrastructure
Kind: L -/
theorem Enters.map {x : Locking σ η α} (hx : x.Enters) (g : α → β) : (g <$> x).Enters := by
  induction x with
  | ret a => trivial
  | fail => exact hx.elim
  | locks interrupted k ih =>
      cases interrupted with
      | true => exact ih true hx
      | false => exact Leaves.map hx g
  | unlocks k ih => exact hx.elim
  | accesses f k ih => exact hx.elim
  | works f k ih => exact hx.elim

variable [Unguarded σ η]

/-- The code and the state after its first statement, when that is an access or work.
Source: none: infrastructure
Kind: D -/
def next : Locking σ η α → σ → Option (Locking σ η α × σ)
  | accesses f k, s => some (k (f s).1, (f s).2)
  | works f k, s =>
      some (k (f (Unguarded.part s)).1, Unguarded.put (f (Unguarded.part s)).2 s)
  | _, _ => none

/-- How many statements there are from a state on, the unlock being the last one.
Source: none: infrastructure
Kind: D -/
def length : Locking σ η α → σ → ℕ
  | accesses f k, s => (k (f s).1).length (f s).2 + 1
  | works f k, s =>
      (k (f (Unguarded.part s)).1).length (Unguarded.put (f (Unguarded.part s)).2 s) + 1
  | _, _ => 1

/-- There is always one statement left.
Source: none: infrastructure
Kind: L -/
theorem length_pos (x : Locking σ η α) (s : σ) : 0 < x.length s := by
  cases x <;> simp [length]

/-- An access in a critical section leaves the rest of the section, with the same outcome and one
statement less.
Source: none: infrastructure
Kind: L -/
theorem Leaves.next {x x' : Locking σ η α} {s s' : σ} (hx : x.Leaves)
    (hnext : x.next s = some (x', s')) :
    x'.Leaves ∧ x'.run s' = x.run s ∧ x.length s = x'.length s' + 1 := by
  cases x with
  | accesses f k =>
      cases hnext
      exact ⟨hx _, rfl, rfl⟩
  | works f k =>
      cases hnext
      exact ⟨hx _, rfl, rfl⟩
  | _ => cases hnext

/-- A critical section that ends is at its unlock or has an access or work to do.
Source: none: infrastructure
Kind: L -/
theorem Leaves.next_or_unlocks {x : Locking σ η α} {s : σ} {r : α × σ} (hx : x.Leaves)
    (hrun : x.run s = some r) :
    (x = unlocks (ret r.1) ∧ r.2 = s) ∨ ∃ x' s', x.next s = some (x', s') := by
  cases x with
  | ret a => exact hx.elim
  | fail => cases hrun
  | locks interrupted k => exact hx.elim
  | unlocks k =>
      cases k with
      | ret a =>
          cases hrun
          exact .inl ⟨rfl, rfl⟩
      | _ => exact hx.elim
  | accesses f k => exact .inr ⟨_, _, rfl⟩
  | works f k => exact .inr ⟨_, _, rfl⟩

/-- Code does to the state what it does, whatever is made of its result.
Source: none: infrastructure
Kind: L -/
theorem Computes.map {x : Locking σ η α} {f : σ → α × σ} (hx : x.Computes f) (g : α → β) :
    (g <$> x).Computes fun s => (g (f s).1, (f s).2) := by
  intro s
  change (x >>= fun a => pure (g a)).run s = _
  rw [run_bind, hx s]
  rfl

end Locking

/-! ### Threads that run such code -/

/-- Where a thread is: between two calls, in a call that has not got the mutex, or in the critical
section.
Source: none: infrastructure
Kind: D -/
inductive Phase (σ η α ω : Type) : Type 1 where
  | idle
  | outside (op : ω) (x : Locking σ η α)
  | inside (x : Locking σ η α)

/-- The call a thread has begun and that has not got the mutex yet.
Source: none: infrastructure
Kind: D -/
def Phase.begun : Phase σ η α ω → List ω
  | outside op _ => [op]
  | _ => []

/-- The threads, the state they share, and the mutex. A thread has a state of its own, which a call
reads and leaves behind, and a list of calls to make.
Source: none: infrastructure
Kind: D -/
structure Threads (σ η α ω : Type) where
  shared : σ
  holder : Option ℕ
  own : ℕ → α
  todo : ℕ → List ω
  phase : ℕ → Phase σ η α ω
  /-- Ghost: the calls that have got the mutex or returned without it, in that order. -/
  order : List (ℕ × ω)

namespace Threads

/-- No thread has begun.
Source: none: infrastructure
Kind: D -/
def start (shared : σ) (own : ℕ → α) (todo : ℕ → List ω) : Threads σ η α ω :=
  ⟨shared, none, own, todo, fun _ => .idle, []⟩

section step

variable [Unguarded σ η] (code : ω → α → Locking σ η α)

/-- The next statement of thread `i`. A thread at a lock is stopped while another one holds the
mutex. Outside of its critical section a call has no access to make, and inside no second lock.
Source: none: infrastructure
Kind: D -/
def step (s : Threads σ η α ω) (i : ℕ) : Option (Threads σ η α ω) :=
  match s.phase i with
  | .idle =>
      match s.todo i with
      | [] => none
      | op :: rest =>
          some { s with
            todo := Function.update s.todo i rest
            phase := Function.update s.phase i (.outside op (code op (s.own i))) }
  | .outside op (.ret a) =>
      some { s with
        own := Function.update s.own i a
        phase := Function.update s.phase i .idle
        order := s.order ++ [(i, op)] }
  | .outside op (.locks true k) =>
      some { s with phase := Function.update s.phase i (.outside op (k true)) }
  | .outside op (.locks false k) =>
      if s.holder = none then
        some { s with
          holder := some i
          phase := Function.update s.phase i (.inside (k false))
          order := s.order ++ [(i, op)] }
      else none
  | .outside _ _ => none
  | .inside (.unlocks (.ret a)) =>
      some { s with
        holder := none
        own := Function.update s.own i a
        phase := Function.update s.phase i .idle }
  | .inside x =>
      (x.next s.shared).map fun r =>
        { s with shared := r.2, phase := Function.update s.phase i (.inside r.1) }

/-- Everything a step can do.
Source: none: infrastructure
Kind: D -/
inductive Steps (s : Threads σ η α ω) (i : ℕ) : Threads σ η α ω → Prop where
  | begins {op : ω} {rest : List ω} (hphase : s.phase i = .idle) (htodo : s.todo i = op :: rest) :
      Steps s i { s with
        todo := Function.update s.todo i rest
        phase := Function.update s.phase i (.outside op (code op (s.own i))) }
  | returns {op : ω} {a : α} (hphase : s.phase i = .outside op (.ret a)) :
      Steps s i { s with
        own := Function.update s.own i a
        phase := Function.update s.phase i .idle
        order := s.order ++ [(i, op)] }
  | misses {op : ω} {k : Bool → Locking σ η α} (hphase : s.phase i = .outside op (.locks true k)) :
      Steps s i { s with phase := Function.update s.phase i (.outside op (k true)) }
  | enters {op : ω} {k : Bool → Locking σ η α} (hphase : s.phase i = .outside op (.locks false k))
      (hfree : s.holder = none) :
      Steps s i { s with
        holder := some i
        phase := Function.update s.phase i (.inside (k false))
        order := s.order ++ [(i, op)] }
  | acts {x x' : Locking σ η α} {shared : σ} (hphase : s.phase i = .inside x)
      (hnext : x.next s.shared = some (x', shared)) :
      Steps s i { s with shared := shared, phase := Function.update s.phase i (.inside x') }
  | leaves {a : α} (hphase : s.phase i = .inside (.unlocks (.ret a))) :
      Steps s i { s with
        holder := none
        own := Function.update s.own i a
        phase := Function.update s.phase i .idle }

variable {code} {s s' : Threads σ η α ω} {i : ℕ}

/-- A step is one of the six.
Source: none: infrastructure
Kind: L -/
theorem steps_of_step (hstep : s.step code i = some s') : s.Steps code i s' := by
  unfold step at hstep
  split at hstep
  · rename_i hphase
    split at hstep
    · cases hstep
    · rename_i op rest htodo
      cases hstep
      exact .begins hphase htodo
  · rename_i op a hphase
    cases hstep
    exact .returns hphase
  · rename_i op k hphase
    cases hstep
    exact .misses hphase
  · rename_i op k hphase
    rw [Option.ite_none_right_eq_some] at hstep
    obtain ⟨hfree, hstep⟩ := hstep
    cases hstep
    exact .enters hphase hfree
  · cases hstep
  · rename_i a hphase
    cases hstep
    exact .leaves hphase
  · rename_i x _ hphase
    obtain ⟨r, hnext, hr⟩ := Option.map_eq_some_iff.mp hstep
    cases hr
    exact .acts hphase hnext

end step

/-! ### One call at a time -/

/-- The shared state and the threads' own states after one more call, run whole.
Source: none: infrastructure
Kind: D -/
def serially (sem : ω → α → σ → α × σ) (r : σ × (ℕ → α)) (c : ℕ × ω) : σ × (ℕ → α) :=
  ((sem c.2 (r.2 c.1) r.1).2, Function.update r.2 c.1 (sem c.2 (r.2 c.1) r.1).1)

/-- The calls of a thread among those of all threads.
Source: none: infrastructure
Kind: D -/
def callsOf (i : ℕ) (order : List (ℕ × ω)) : List ω :=
  order.filterMap fun c => if c.1 = i then some c.2 else none

/-- One more call of the thread.
Source: none: infrastructure
Kind: L -/
theorem callsOf_concat_self (i : ℕ) (order : List (ℕ × ω)) (op : ω) :
    callsOf i (order ++ [(i, op)]) = callsOf i order ++ [op] := by
  simp [callsOf]

/-- One more call of another thread.
Source: none: infrastructure
Kind: L -/
theorem callsOf_concat_of_ne {i j : ℕ} (hne : i ≠ j) (order : List (ℕ × ω)) (op : ω) :
    callsOf j (order ++ [(i, op)]) = callsOf j order := by
  simp [callsOf, hne]

/-- Whole calls, and one more.
Source: none: infrastructure
Kind: L -/
theorem foldl_serially_concat {sem : ω → α → σ → α × σ} {first : σ × (ℕ → α)}
    (order : List (ℕ × ω)) (c : ℕ × ω) :
    (order ++ [c]).foldl (serially sem) first =
      serially sem (order.foldl (serially sem) first) c := by
  rw [List.foldl_append]
  rfl

section serial

variable [Unguarded σ η]

/-- The state is what whole calls make of the start, but for the rest of the critical section that a
thread is in.
Source: none: infrastructure
Kind: D -/
structure Serial (sem : ω → α → σ → α × σ) (first : σ × (ℕ → α)) (todo : ℕ → List ω)
    (s : Threads σ η α ω) : Prop where
  free : s.holder = none → s.shared = (s.order.foldl (serially sem) first).1
  inside : ∀ i x, s.phase i = .inside x → s.holder = some i ∧ x.Leaves ∧
    x.run s.shared = some ((s.order.foldl (serially sem) first).2 i,
      (s.order.foldl (serially sem) first).1)
  held : ∀ i, s.holder = some i → ∃ x, s.phase i = .inside x
  own : ∀ i, (∀ x, s.phase i ≠ .inside x) → s.own i = (s.order.foldl (serially sem) first).2 i
  outside : ∀ i op x, s.phase i = .outside op x → x.Enters ∧ x.Computes (sem op (s.own i))
  program : ∀ i, todo i = callsOf i s.order ++ (s.phase i).begun ++ s.todo i

variable {code : ω → α → Locking σ η α} {s s' : Threads σ η α ω} {i : ℕ}
  {sem : ω → α → σ → α × σ} {first : σ × (ℕ → α)} {todo : ℕ → List ω}

/-- The thread that holds the mutex is the only one in its critical section.
Source: none: infrastructure
Kind: L -/
theorem Serial.eq_of_inside (hs : Serial sem first todo s) {j : ℕ} {x y : Locking σ η α}
    (hi : s.phase i = .inside x) (hj : s.phase j = .inside y) : j = i := by
  have hholder := (hs.inside j y hj).1
  rw [(hs.inside i x hi).1] at hholder
  exact (Option.some.inj hholder).symm

/-- With the mutex free, no thread is in its critical section.
Source: none: infrastructure
Kind: L -/
theorem Serial.not_inside (hs : Serial sem first todo s) (hfree : s.holder = none) (j : ℕ)
    (x : Locking σ η α) : s.phase j ≠ .inside x := by
  intro hj
  have hholder := (hs.inside j x hj).1
  rw [hfree] at hholder
  cases hholder

/-- A thread that comes to a place where it has no call begun leaves the calls of the others alone.
Source: none: infrastructure
Kind: L -/
theorem Serial.outside_update (hs : Serial sem first todo s) {phase : Phase σ η α ω}
    (hphase : ∀ op x, phase ≠ .outside op x) {j : ℕ} {op : ω} {x : Locking σ η α}
    (hj : Function.update s.phase i phase j = .outside op x) :
    j ≠ i ∧ x.Enters ∧ x.Computes (sem op (s.own j)) := by
  have hne : j ≠ i := by
    rintro rfl
    rw [Function.update_self] at hj
    exact hphase op x hj
  rw [Function.update_of_ne hne] at hj
  exact ⟨hne, hs.outside j op x hj⟩

/-- What a step of thread `i` does to the calls it has made, begun and still to make.
Source: none: infrastructure
Kind: L -/
theorem Serial.program_update (hs : Serial sem first todo s) {order : List (ℕ × ω)}
    {phase : ℕ → Phase σ η α ω} {rest : ℕ → List ω}
    (hself : callsOf i order ++ (phase i).begun ++ rest i =
      callsOf i s.order ++ (s.phase i).begun ++ s.todo i)
    (hothers : ∀ j, j ≠ i →
      callsOf j order = callsOf j s.order ∧ phase j = s.phase j ∧ rest j = s.todo j) (j : ℕ) :
    todo j = callsOf j order ++ (phase j).begun ++ rest j := by
  rw [hs.program j]
  by_cases hji : j = i
  · subst hji
    exact hself.symm
  · obtain ⟨horder, hphase, hrest⟩ := hothers j hji
    rw [horder, hphase, hrest]

/-- A thread outside of its critical section stays there: its phase and the calls it has still to
make are all that changes.
Source: none: infrastructure
Kind: L -/
theorem Serial.stays_outside (hs : Serial sem first todo s) {op : ω} {x : Locking σ η α}
    {rest : ℕ → List ω} (hphase : ∀ y, s.phase i ≠ .inside y) (hx : x.Enters)
    (hcomputes : x.Computes (sem op (s.own i)))
    (hself : op :: rest i = (s.phase i).begun ++ s.todo i)
    (hothers : ∀ j, j ≠ i → rest j = s.todo j) :
    Serial sem first todo { s with
      todo := rest, phase := Function.update s.phase i (.outside op x) } := by
  refine ⟨hs.free, ?_, ?_, ?_, ?_, ?_⟩
  · intro j y hj
    by_cases hji : j = i
    · subst hji
      simp at hj
    · exact hs.inside j y (by simpa [hji] using hj)
  · intro j hj
    obtain ⟨y, hy⟩ := hs.held j hj
    have hne : j ≠ i := by
      rintro rfl
      exact hphase y hy
    exact ⟨y, by simpa [hne] using hy⟩
  · intro j hj
    by_cases hji : j = i
    · subst hji
      exact hs.own j hphase
    · exact hs.own j (by simpa [hji] using hj)
  · intro j op' y hj
    by_cases hji : j = i
    · subst hji
      simp only [Function.update_self, Phase.outside.injEq] at hj
      obtain ⟨rfl, rfl⟩ := hj
      exact ⟨hx, hcomputes⟩
    · exact hs.outside j op' y (by simpa [hji] using hj)
  · refine hs.program_update (i := i) ?_ fun j hji => ?_
    · simp [Phase.begun, hself]
    · simp [hji, hothers j hji]

/-- A call that returns without the mutex leaves the shared state alone.
Source: none: infrastructure
Kind: L -/
theorem Serial.returns (hs : Serial sem first todo s) {op : ω} {a : α}
    (hphase : s.phase i = .outside op (.ret a)) :
    Serial sem first todo { s with
      own := Function.update s.own i a
      phase := Function.update s.phase i .idle
      order := s.order ++ [(i, op)] } := by
  have hown : s.own i = _ := hs.own i (by simp [hphase])
  have hfold : (s.order ++ [(i, op)]).foldl (serially sem) first =
      ((s.order.foldl (serially sem) first).1,
        Function.update (s.order.foldl (serially sem) first).2 i a) := by
    have hcomputes := (hs.outside i op _ hphase).2 (s.order.foldl (serially sem) first).1
    rw [foldl_serially_concat, serially, ← hown, ← Option.some.inj hcomputes]
  refine ⟨?_, ?_, ?_, ?_, ?_, ?_⟩
  · simpa only [hfold] using hs.free
  · intro j x hj
    have hne : j ≠ i := by
      rintro rfl
      simp at hj
    simp only [hfold, Function.update_of_ne hne] at hj ⊢
    exact hs.inside j x hj
  · intro j hj
    obtain ⟨x, hx⟩ := hs.held j hj
    have hne : j ≠ i := by
      rintro rfl
      rw [hphase] at hx
      cases hx
    exact ⟨x, by simpa [hne] using hx⟩
  · intro j hj
    by_cases hji : j = i
    · subst hji
      simp only [hfold, Function.update_self]
    · simp only [hfold, Function.update_of_ne hji] at hj ⊢
      exact hs.own j hj
  · intro j op' x hj
    obtain ⟨hji, hx⟩ := hs.outside_update (by simp) hj
    simpa only [Function.update_of_ne hji] using hx
  · refine hs.program_update (i := i) ?_ fun j hji => ?_
    · simp [callsOf_concat_self, hphase, Phase.begun]
    · simp [callsOf_concat_of_ne (Ne.symm hji), hji]

/-- A call that gets the mutex is in its critical section alone, with all of it before it.
Source: none: infrastructure
Kind: L -/
theorem Serial.enters (hs : Serial sem first todo s) {op : ω} {k : Bool → Locking σ η α}
    (hphase : s.phase i = .outside op (.locks false k)) (hfree : s.holder = none) :
    Serial sem first todo { s with
      holder := some i
      phase := Function.update s.phase i (.inside (k false))
      order := s.order ++ [(i, op)] } := by
  obtain ⟨henters, hcomputes⟩ := hs.outside i op _ hphase
  have hown := hs.own i (by simp [hphase])
  rw [hown] at hcomputes
  refine ⟨by rintro ⟨⟩, ?_, ?_, ?_, ?_, ?_⟩
  · intro j y hj
    by_cases hji : j = i
    · subst hji
      simp only [Function.update_self, Phase.inside.injEq] at hj
      subst hj
      simp only [foldl_serially_concat, serially, Function.update_self, true_and]
      rw [hs.free hfree]
      exact ⟨henters, hcomputes _⟩
    · simp only [Function.update_of_ne hji] at hj
      exact absurd hj (hs.not_inside hfree j y)
  · rintro j ⟨⟩
    exact ⟨_, Function.update_self _ _ _⟩
  · intro j hj
    have hji : j ≠ i := by
      rintro rfl
      exact hj _ (Function.update_self _ _ _)
    simp only [foldl_serially_concat, serially, Function.update_of_ne hji]
    exact hs.own j (hs.not_inside hfree j)
  · intro j op' y hj
    exact (hs.outside_update (by simp) hj).2
  · refine hs.program_update (i := i) ?_ fun j hji => ?_
    · simp [callsOf_concat_self, hphase, Phase.begun]
    · simp [callsOf_concat_of_ne (Ne.symm hji), hji]

/-- An access leaves the rest of the critical section, which leads where it led before.
Source: none: infrastructure
Kind: L -/
theorem Serial.acts (hs : Serial sem first todo s) {x x' : Locking σ η α} {shared : σ}
    (hphase : s.phase i = .inside x) (hnext : x.next s.shared = some (x', shared)) :
    Serial sem first todo { s with
      shared := shared, phase := Function.update s.phase i (.inside x') } := by
  obtain ⟨hholder, hleaves, hrun⟩ := hs.inside i x hphase
  obtain ⟨hleaves', hrun', -⟩ := hleaves.next hnext
  refine ⟨?_, ?_, ?_, ?_, ?_, ?_⟩
  · intro hfree
    rw [hholder] at hfree
    cases hfree
  · intro j y hj
    by_cases hji : j = i
    · subst hji
      simp only [Function.update_self, Phase.inside.injEq] at hj
      subst hj
      exact ⟨hholder, hleaves', hrun'.trans hrun⟩
    · simp only [Function.update_of_ne hji] at hj
      exact absurd (hs.eq_of_inside hphase hj) hji
  · intro j hj
    rw [hholder] at hj
    cases hj
    exact ⟨_, Function.update_self _ _ _⟩
  · intro j hj
    have hji : j ≠ i := by
      rintro rfl
      exact hj _ (Function.update_self _ _ _)
    exact hs.own j (by simpa [hji] using hj)
  · intro j op y hj
    exact (hs.outside_update (by simp) hj).2
  · refine hs.program_update (i := i) ?_ fun j hji => ?_
    · simp [hphase, Phase.begun]
    · simp [hji]

/-- At its unlock, a call has done what it does when it is run whole.
Source: none: infrastructure
Kind: L -/
theorem Serial.leaves (hs : Serial sem first todo s) {a : α}
    (hphase : s.phase i = .inside (.unlocks (.ret a))) :
    Serial sem first todo { s with
      holder := none
      own := Function.update s.own i a
      phase := Function.update s.phase i .idle } := by
  obtain ⟨hholder, -, hrun⟩ := hs.inside i _ hphase
  have hdone := Option.some.inj hrun
  have hnone : ∀ j x, Function.update s.phase i .idle j ≠ .inside x := by
    intro j x hj
    by_cases hji : j = i
    · subst hji
      simp at hj
    · simp only [Function.update_of_ne hji] at hj
      exact hji (hs.eq_of_inside hphase hj)
  refine ⟨fun _ => congrArg Prod.snd hdone, ?_, by rintro j ⟨⟩, ?_, ?_, ?_⟩
  · intro j x hj
    exact absurd hj (hnone j x)
  · intro j _
    by_cases hji : j = i
    · subst hji
      simpa only [Function.update_self] using congrArg Prod.fst hdone
    · simp only [Function.update_of_ne hji]
      exact hs.own j fun x hj => hji (hs.eq_of_inside hphase hj)
  · intro j op x hj
    obtain ⟨hji, hx⟩ := hs.outside_update (by simp) hj
    simpa only [Function.update_of_ne hji] using hx
  · refine hs.program_update (i := i) ?_ fun j hji => ?_
    · simp [hphase, Phase.begun]
    · simp [hji]

/-- Every step keeps to whole calls, when every call has one critical section and does what the
function says.
Source: none: infrastructure
Kind: L -/
theorem Serial.step (himp : ∀ op a, (code op a).Enters ∧ (code op a).Computes (sem op a))
    (hs : Serial sem first todo s) (hstep : s.step code i = some s') :
    Serial sem first todo s' := by
  cases steps_of_step hstep with
  | begins hphase htodo =>
      refine hs.stays_outside (by simp [hphase]) (himp _ _).1 (himp _ _).2 ?_ fun j hji => ?_
      · simp [hphase, htodo, Phase.begun]
      · simp [hji]
  | returns hphase => exact hs.returns hphase
  | misses hphase =>
      obtain ⟨henters, hcomputes⟩ := hs.outside i _ _ hphase
      refine hs.stays_outside (by simp [hphase]) henters hcomputes ?_ fun _ _ => rfl
      simp [hphase, Phase.begun]
  | enters hphase hfree => exact hs.enters hphase hfree
  | acts hphase hnext => exact hs.acts hphase hnext
  | leaves hphase => exact hs.leaves hphase

/-- **Interleaved critical sections are serial.** Whatever the scheduler does, the state is what the
calls make of it when they are run whole in the order in which they got the mutex.
Source: none: infrastructure
Kind: L -/
theorem serial_of_run (himp : ∀ op a, (code op a).Enters ∧ (code op a).Computes (sem op a))
    {shared : σ} {own : ℕ → α} {schedule : List ℕ}
    (hrun : run (step code) (start shared own todo) schedule = some s) :
    Serial sem (shared, own) todo s := by
  refine run_induction (P := fun _ => Serial sem (shared, own) todo) ?_ ?_ hrun
  · exact ⟨fun _ => rfl, by rintro j x ⟨⟩, by rintro j ⟨⟩, fun _ _ => rfl, by rintro j op x ⟨⟩,
      fun _ => rfl⟩
  · intro _ t i t' _ hs hstep
    exact hs.step himp hstep

/-! ### Who can go on -/

/-- The thread in its critical section can always go on.
Source: none: infrastructure
Kind: L -/
theorem Serial.holder_steps (hs : Serial sem first todo s) (hheld : s.holder = some i) :
    (s.step code i).isSome = true := by
  obtain ⟨x, hphase⟩ := hs.held i hheld
  obtain ⟨-, hleaves, hrun⟩ := hs.inside i x hphase
  unfold Threads.step
  rw [hphase]
  rcases hleaves.next_or_unlocks hrun with ⟨rfl, -⟩ | ⟨x', shared, hnext⟩
  · rfl
  · cases x with
    | accesses f k => rfl
    | works f k => rfl
    | _ => cases hnext

/-- With the mutex free, every thread with a call to make or to finish can go on.
Source: none: infrastructure
Kind: L -/
theorem Serial.free_steps (hs : Serial sem first todo s) (hfree : s.holder = none)
    (hwork : s.phase i ≠ .idle ∨ s.todo i ≠ []) : (s.step code i).isSome = true := by
  unfold Threads.step
  cases hphase : s.phase i with
  | idle =>
      cases htodo : s.todo i with
      | nil => simp [hphase, htodo] at hwork
      | cons op rest => rfl
  | outside op x =>
      have henters := (hs.outside i op x hphase).1
      cases x with
      | ret a => rfl
      | locks interrupted k =>
          cases interrupted with
          | true => rfl
          | false => simp [hfree]
      | _ => exact henters.elim
  | inside x => exact absurd hphase (hs.not_inside hfree i x)

/-- A thread gets the mutex by a step of its own only.
Source: none: infrastructure
Kind: L -/
theorem holder_of_step {j : ℕ} (hstep : s.step code j = some s') (hji : j ≠ i)
    (hholder : s.holder ≠ some i) : s'.holder ≠ some i := by
  cases steps_of_step hstep with
  | begins hphase htodo => exact hholder
  | returns hphase => exact hholder
  | misses hphase => exact hholder
  | enters hphase hfree => simpa using hji
  | acts hphase hnext => exact hholder
  | leaves hphase => simp

/-- As long as a thread makes no step, it does not get the mutex.
Source: none: infrastructure
Kind: L -/
theorem holder_of_run {rest : List ℕ} (hrun : run (Threads.step code) s rest = some s')
    (hrest : i ∉ rest) (hholder : s.holder ≠ some i) : s'.holder ≠ some i := by
  induction rest generalizing s with
  | nil =>
      cases hrun
      exact hholder
  | cons j rest ih =>
      obtain ⟨t, hstep, hrun⟩ := run_cons.mp hrun
      rw [List.mem_cons, not_or] at hrest
      exact ih hrun hrest.2 (holder_of_step hstep (Ne.symm hrest.1) hholder)

/-- A step of another thread leaves a critical section and the state it works on alone.
Source: none: infrastructure
Kind: L -/
theorem Serial.inside_of_other (hs : Serial sem first todo s) {x : Locking σ η α} {j : ℕ}
    (hphase : s.phase i = .inside x) (hji : j ≠ i) (hstep : s.step code j = some s') :
    s'.phase i = .inside x ∧ s'.shared = s.shared := by
  have hinside : ∀ y, s.phase j ≠ .inside y := fun y hj => hji (hs.eq_of_inside hphase hj)
  cases steps_of_step hstep with
  | begins hj htodo => exact ⟨by simpa [Ne.symm hji] using hphase, rfl⟩
  | returns hj => exact ⟨by simpa [Ne.symm hji] using hphase, rfl⟩
  | misses hj => exact ⟨by simpa [Ne.symm hji] using hphase, rfl⟩
  | enters hj hfree => exact absurd hphase (hs.not_inside hfree i x)
  | acts hj hnext => exact absurd hj (hinside _)
  | leaves hj => exact absurd hj (hinside _)

/-- **Every critical section comes to its unlock.** The thread holds the mutex until it has made the
statements it had before it, and no longer, whatever the others do in between.
Source: none: infrastructure
Kind: L -/
theorem Serial.leaves_in_steps
    (himp : ∀ op a, (code op a).Enters ∧ (code op a).Computes (sem op a))
    (hs : Serial sem first todo s) {x : Locking σ η α} (hphase : s.phase i = .inside x)
    {rest : List ℕ} (hrun : run (Threads.step code) s rest = some s') :
    (rest.count i < x.length s.shared → s'.holder = some i) ∧
    (rest.count i = x.length s.shared → s'.holder ≠ some i) := by
  induction rest generalizing s x with
  | nil =>
      cases hrun
      have hpos := x.length_pos s'.shared
      refine ⟨fun _ => (hs.inside i x hphase).1, fun hcount => ?_⟩
      rw [List.count_nil] at hcount
      omega
  | cons j rest ih =>
      obtain ⟨t, hstep, hrun⟩ := run_cons.mp hrun
      by_cases hji : j = i
      · subst hji
        rw [List.count_cons_self]
        have ht := hs.step himp hstep
        cases steps_of_step hstep with
        | acts hj hnext =>
            cases hphase.symm.trans hj
            have hlength := ((hs.inside j x hphase).2.1.next hnext).2.2
            have hrest := ih ht (Function.update_self _ _ _) hrun
            rw [hlength]
            exact ⟨fun hlt => hrest.1 (Nat.lt_of_succ_lt_succ hlt),
              fun heq => hrest.2 (Nat.succ.inj heq)⟩
        | leaves hj =>
            cases hphase.symm.trans hj
            change (_ < 1 → _) ∧ (_ = 1 → _)
            refine ⟨fun hlt => by omega, fun heq => holder_of_run hrun ?_ (by simp)⟩
            exact List.count_eq_zero.mp (by omega)
        | begins hj htodo => cases hphase.symm.trans hj
        | returns hj => cases hphase.symm.trans hj
        | misses hj => cases hphase.symm.trans hj
        | enters hj hfree => cases hphase.symm.trans hj
      · obtain ⟨hphase', hshared⟩ := hs.inside_of_other hphase hji hstep
        rw [List.count_cons_of_ne hji, ← hshared]
        exact ih (hs.step himp hstep) hphase' hrun

end serial

end Threads

end Aesd.Lib
