import Aesd.Lib.Trace
import Mathlib.Logic.Function.Basic

/-!
# Threads that hold a mutex for a while (`examples/threading/threading.c`)

`start_thread_obtaining_mutex` creates a thread that sleeps, takes a mutex, sleeps and releases it.
The state is that of any number of such threads on any number of mutexes, and a run is any
interleaving of new threads with the steps of those there are. The environment decides what
`malloc`, `pthread_create`, `usleep`, `pthread_mutex_lock` and `pthread_mutex_unlock` return; a lock
is had only when the mutex is free.

* `Process.Inv` — who holds a mutex, and at which places of `threadfunc`;
* `threads_succeed_unless_abandoned` — no two threads hold one mutex; a thread can still succeed
  exactly as long as no other one has returned with the mutex, which happens exactly when the second
  sleep or the unlock of some thread fails.

Real time is not part of the state, only what `usleep` is asked for. `thread_data` is the thread's
own until it is joined and stands with the thread; the record that is lost when `pthread_create`
fails is not kept.
-/

namespace Aesd.Threading

open Aesd.Lib

/-! ### `threadfunc` -/

/-- The arguments of `threadfunc`, and what it leaves for the thread that joins it.
Source: `threading.h`, `struct thread_data`
Kind: D -/
structure ThreadData where
  mutex : ℕ
  waitToObtainMs : UInt32
  waitToReleaseMs : UInt32
  threadCompleteSuccess : Bool

/-- The places in `threadfunc`, each before the call it is named after.
Source: `threading.c`, `threadfunc`
Kind: D -/
inductive Place where
  | sleepToObtain
  | lock
  | sleepToRelease
  | unlock
  | returned
  deriving DecidableEq

/-- A thread in `threadfunc`, with its argument.
Source: `threading.c`, `threadfunc`
Kind: D -/
structure Thread where
  place : Place
  args : ThreadData
  /-- What the sleeps that have ended were asked for, in microseconds. -/
  slept : List UInt32

/-- `thread_complete_success` is set, and the function returns.
Source: `threading.c`, `threadfunc`
Kind: D -/
def Thread.returns (t : Thread) (success : Bool) : Thread :=
  { t with place := .returned, args := { t.args with threadCompleteSuccess := success } }

/-- A sleep has ended.
Source: `threading.c`, `threadfunc`
Kind: D -/
def Thread.wakes (t : Thread) (ms : UInt32) (next : Place) : Thread :=
  { t with place := next, slept := t.slept ++ [ms * 1000] }

/-- The next call of thread `i`, with whether it returns zero, and the holder of its mutex. A lock
waits for a mutex that is held.
Source: `threading.c`, `threadfunc`
Kind: D -/
def Thread.threadfunc (i : ℕ) (t : Thread) (holder : Option ℕ) (ok : Bool) :
    Option (Thread × Option ℕ) :=
  match t.place, ok with
  | .sleepToObtain, true => some (t.wakes t.args.waitToObtainMs .lock, holder)
  | .lock, true =>
      if holder = none then some ({ t with place := .sleepToRelease }, some i) else none
  | .sleepToRelease, true => some (t.wakes t.args.waitToReleaseMs .unlock, holder)
  | .unlock, true => some (t.returns true, none)
  | .returned, _ => none
  | _, false => some (t.returns false, holder)

/-- The thread has the mutex and is at work.
Source: `threading.c`, `threadfunc`
Kind: D -/
def Thread.InSection (t : Thread) : Prop := t.place = .sleepToRelease ∨ t.place = .unlock

/-! ### The threads -/

/-- The threads, and who holds each mutex.
Source: `threading.c`, `threadfunc`
Kind: D -/
structure Process where
  threads : ℕ → Option Thread
  next : ℕ
  holder : ℕ → Option ℕ

/-- No thread has been started.
Source: `threading.c`, `threadfunc`
Kind: D -/
def Process.start : Process := ⟨fun _ => none, 0, fun _ => none⟩

/-- A new thread.
Source: `threading.c`, `start_thread_obtaining_mutex`
Kind: D -/
def Process.create (s : Process) (data : ThreadData) : Process :=
  { s with
    threads := Function.update s.threads s.next (some ⟨.sleepToObtain, data, []⟩)
    next := s.next + 1 }

/-- Thread `i`, on the mutex, is now `t`, and the mutex has the holder.
Source: `threading.c`, `threadfunc`
Kind: D -/
def Process.put (s : Process) (i mutex : ℕ) (t : Thread) (holder : Option ℕ) : Process :=
  { s with
    threads := Function.update s.threads i (some t)
    holder := Function.update s.holder mutex holder }

/-- The return value, and the new thread. The waiting times are converted from `int` to
`unsigned int`.
Source: `threading.c`, `start_thread_obtaining_mutex`
Kind: D -/
def Process.startThreadObtainingMutex (s : Process) (mutex : ℕ)
    (waitToObtainMs waitToReleaseMs : Int32) (malloc create : Bool) : Bool × Process :=
  if malloc = false then (false, s)
  else
    let data : ThreadData := ⟨mutex, waitToObtainMs.toUInt32, waitToReleaseMs.toUInt32, false⟩
    if create = false then (false, s)
    else (true, s.create data)

/-- A call of `start_thread_obtaining_mutex`, or a step of a thread.
Source: `threading.c`, `threadfunc`
Kind: D -/
inductive Step where
  | start (mutex : ℕ) (waitToObtainMs waitToReleaseMs : Int32) (malloc create : Bool)
  | thread (i : ℕ) (ok : Bool)

/-- A thread is started, or makes its next call.
Source: `threading.c`, `start_thread_obtaining_mutex`
Kind: D -/
def Process.step (s : Process) : Step → Option Process
  | .start mutex waitToObtainMs waitToReleaseMs malloc create =>
      some (s.startThreadObtainingMutex mutex waitToObtainMs waitToReleaseMs malloc create).2
  | .thread i ok => (s.threads i).bind fun t =>
      (t.threadfunc i (s.holder t.args.mutex) ok).map fun r => s.put i t.args.mutex r.1 r.2

/-- The threads after the steps.
Source: `threading.c`, `threadfunc`
Kind: D -/
def threadingRun (steps : List Step) : Option Process := run Process.step .start steps

/-- A thread has returned and still has the mutex.
Source: `threading.c`, `threadfunc`
Kind: D -/
def Process.Abandoned (s : Process) (mutex : ℕ) : Prop :=
  ∃ i t, s.holder mutex = some i ∧ s.threads i = some t ∧ t.place = .returned

/-- In the step, the second sleep or the unlock of a thread that has the mutex fails.
Source: `threading.c`, `threadfunc`
Kind: D -/
def Process.Disturbs (s : Process) (mutex : ℕ) (step : Step) : Prop :=
  ∃ i t, step = .thread i false ∧ s.threads i = some t ∧ t.args.mutex = mutex ∧ t.InSection

/-! ### Who holds a mutex -/

/-- What the place of a thread says about the holder of its mutex and about what it has done.
Source: `threading.c`, `threadfunc`
Kind: D -/
structure Thread.Fits (i : ℕ) (t : Thread) (holder : Option ℕ) : Prop where
  holds : t.InSection → holder = some i
  held : holder = some i → t.InSection ∨ t.place = .returned ∧ t.args.threadCompleteSuccess = false
  success : t.args.threadCompleteSuccess = true → t.place = .returned ∧
    t.slept = [t.args.waitToObtainMs * 1000, t.args.waitToReleaseMs * 1000]
  none : t.place = .sleepToObtain → t.slept = []
  one : t.place = .lock ∨ t.place = .sleepToRelease → t.slept = [t.args.waitToObtainMs * 1000]
  two : t.place = .unlock →
    t.slept = [t.args.waitToObtainMs * 1000, t.args.waitToReleaseMs * 1000]

/-- **What every reachable state is like.**
Source: `threading.c`, `threadfunc`
Kind: D -/
structure Process.Inv (s : Process) : Prop where
  fits : ∀ {i t}, s.threads i = some t → t.Fits i (s.holder t.args.mutex)
  owner : ∀ {mutex i}, s.holder mutex = some i →
    ∃ t, s.threads i = some t ∧ t.args.mutex = mutex
  fresh : ∀ {i}, s.next ≤ i → s.threads i = none

section threadfunc

variable {i : ℕ} {t t' : Thread} {holder holder' : Option ℕ} {ok : Bool}

/-- What one call of `threadfunc` can do.
Source: `threading.c`, `threadfunc`
Kind: D -/
inductive Thread.Calls (i : ℕ) (t : Thread) (holder : Option ℕ) :
    Bool → Thread → Option ℕ → Prop where
  | slept (h : t.place = .sleepToObtain) :
      Calls i t holder true (t.wakes t.args.waitToObtainMs .lock) holder
  | locked (h : t.place = .lock) (hfree : holder = none) :
      Calls i t holder true { t with place := .sleepToRelease } (some i)
  | sleptInside (h : t.place = .sleepToRelease) :
      Calls i t holder true (t.wakes t.args.waitToReleaseMs .unlock) holder
  | unlocked (h : t.place = .unlock) : Calls i t holder true (t.returns true) none
  | failed (h : t.place ≠ .returned) : Calls i t holder false (t.returns false) holder

/-- The calls of a thread, analysed once.
Source: `threading.c`, `threadfunc`
Kind: L -/
theorem Thread.calls_of_threadfunc (h : t.threadfunc i holder ok = some (t', holder')) :
    t.Calls i holder ok t' holder' := by
  unfold Thread.threadfunc at h
  split at h
  · cases h
    exact .slept ‹_›
  · rw [Option.ite_none_right_eq_some] at h
    obtain ⟨hfree, h⟩ := h
    cases h
    exact .locked ‹_› hfree
  · cases h
    exact .sleptInside ‹_›
  · cases h
    exact .unlocked ‹_›
  · cases h
  · rename_i hplace
    cases h
    exact .failed hplace

/-- A call changes the holder of the mutex only from or to its own thread.
Source: `threading.c`, `threadfunc`
Kind: L -/
theorem Thread.Calls.others (h : t.Calls i holder ok t' holder') (ht : t.Fits i holder) {j : ℕ}
    (hne : j ≠ i) : holder' = some j ↔ holder = some j := by
  have hself : some i ≠ some j := fun heq => hne (Option.some_inj.mp heq).symm
  cases h with
  | slept _ | sleptInside _ | failed _ => exact Iff.rfl
  | locked _ hfree => simp [hfree, hself]
  | unlocked hplace => simp [ht.holds (Or.inr hplace), hself]

/-- Only whether the holder is the thread itself matters.
Source: `threading.c`, `threadfunc`
Kind: L -/
theorem Thread.Fits.congr (ht : t.Fits i holder) (hsame : holder' = some i ↔ holder = some i) :
    t.Fits i holder' where
  holds hin := hsame.mpr (ht.holds hin)
  held hi := ht.held (hsame.mp hi)
  success := ht.success
  none := ht.none
  one := ht.one
  two := ht.two

/-- A thread that has returned makes no call.
Source: `threading.c`, `threadfunc`
Kind: L -/
theorem Thread.Calls.place_ne (h : t.Calls i holder ok t' holder') : t.place ≠ .returned := by
  cases h with
  | slept hplace | locked hplace _ | sleptInside hplace | unlocked hplace => simp [hplace]
  | failed hplace => exact hplace

/-- A thread stays with its mutex.
Source: `threading.c`, `threadfunc`
Kind: L -/
theorem Thread.Calls.mutex_eq (h : t.Calls i holder ok t' holder') :
    t'.args.mutex = t.args.mutex := by
  cases h <;> rfl

/-- A call keeps the mutex with who is between the lock and the unlock.
Source: `threading.c`, `threadfunc`
Kind: L -/
theorem Thread.Calls.fits (h : t.Calls i holder ok t' holder') (ht : t.Fits i holder) :
    t'.Fits i holder' := by
  -- a thread that is not at its end has no success yet
  have hopen : t.place ≠ .returned → t.args.threadCompleteSuccess = false := by
    intro hplace
    by_contra hsuccess
    exact hplace (ht.success (by simpa using hsuccess)).1
  have hheld : t.place ≠ .returned → holder = some i → t.InSection := fun hplace hi =>
    (ht.held hi).resolve_right fun hret => hplace hret.1
  cases h with
  | slept hplace =>
      have hout : ¬ t.InSection := by simp [Thread.InSection, hplace]
      constructor <;>
        simp_all [Thread.wakes, Thread.InSection, ht.none hplace]
  | locked hplace hfree =>
      constructor <;>
        simp_all [Thread.InSection, ht.one (Or.inl hplace)]
  | sleptInside hplace =>
      have hi := ht.holds (Or.inl hplace)
      constructor <;>
        simp_all [Thread.wakes, Thread.InSection, ht.one (Or.inr hplace)]
  | unlocked hplace =>
      constructor <;>
        simp_all [Thread.returns, Thread.InSection, ht.two hplace]
  | failed hplace =>
      constructor <;>
        simp_all [Thread.returns, Thread.InSection]

/-- A thread returns with its mutex only when a call fails in the critical section.
Source: `threading.c`, `threadfunc`
Kind: L -/
theorem Thread.Calls.keeps_mutex (h : t.Calls i holder ok t' holder') (ht : t.Fits i holder)
    (hplace : t'.place = .returned) (hi : holder' = some i) : ok = false ∧ t.InSection := by
  cases h with
  | slept _ | locked _ _ | sleptInside _ => simp [Thread.wakes] at hplace
  | unlocked _ => simp at hi
  | failed hopen => exact ⟨rfl, (ht.held hi).resolve_right fun hret => hopen hret.1⟩

/-- A thread succeeds at the end of its critical section.
Source: `threading.c`, `threadfunc`
Kind: L -/
theorem Thread.Calls.unlocks (h : t.Calls i holder ok t' holder')
    (hopen : t.args.threadCompleteSuccess = false) (hsuccess : t'.args.threadCompleteSuccess = true) :
    t.InSection := by
  cases h with
  | slept _ | locked _ _ | sleptInside _ | failed _ =>
      simp [Thread.wakes, Thread.returns, hopen] at hsuccess
  | unlocked hplace => exact Or.inr hplace

end threadfunc

section process

variable {s s' : Process} {steps : List Step}

/-- A new thread is about to sleep.
Source: `threading.c`, `start_thread_obtaining_mutex`
Kind: L -/
@[simp] theorem Process.create_threads_self {data : ThreadData} :
    (s.create data).threads s.next = some ⟨.sleepToObtain, data, []⟩ := Function.update_self ..

/-- A new thread leaves the others alone.
Source: `threading.c`, `start_thread_obtaining_mutex`
Kind: L -/
theorem Process.create_threads_of_ne {data : ThreadData} {i : ℕ} (hi : i ≠ s.next) :
    (s.create data).threads i = s.threads i := Function.update_of_ne hi ..

/-- A new thread holds nothing.
Source: `threading.c`, `start_thread_obtaining_mutex`
Kind: L -/
@[simp] theorem Process.create_holder {data : ThreadData} : (s.create data).holder = s.holder := rfl

/-- The thread that has made a call.
Source: `threading.c`, `threadfunc`
Kind: L -/
@[simp] theorem Process.put_threads_self {i mutex : ℕ} {t : Thread} {holder : Option ℕ} :
    (s.put i mutex t holder).threads i = some t := Function.update_self ..

/-- A call leaves the other threads alone.
Source: `threading.c`, `threadfunc`
Kind: L -/
theorem Process.put_threads_of_ne {i j mutex : ℕ} {t : Thread} {holder : Option ℕ} (hj : j ≠ i) :
    (s.put i mutex t holder).threads j = s.threads j := Function.update_of_ne hj ..

/-- The mutex of the thread that has made a call.
Source: `threading.c`, `threadfunc`
Kind: L -/
@[simp] theorem Process.put_holder_self {i mutex : ℕ} {t : Thread} {holder : Option ℕ} :
    (s.put i mutex t holder).holder mutex = holder := Function.update_self ..

/-- A call leaves the other mutexes alone.
Source: `threading.c`, `threadfunc`
Kind: L -/
theorem Process.put_holder_of_ne {i mutex mutex' : ℕ} {t : Thread} {holder : Option ℕ}
    (hne : mutex' ≠ mutex) : (s.put i mutex t holder).holder mutex' = s.holder mutex' :=
  Function.update_of_ne hne ..

/-- At the start there are no threads.
Source: `threading.c`, `threadfunc`
Kind: L -/
theorem Process.Inv.start : Process.start.Inv :=
  ⟨by simp [Process.start], by simp [Process.start], fun _ => rfl⟩

/-- What one step can do: no thread is created, one is, or one makes a call.
Source: `threading.c`, `threadfunc`
Kind: D -/
inductive Process.Moves (s : Process) : Step → Process → Prop where
  | refused {mutex : ℕ} {a b : Int32} {malloc create : Bool} :
      Moves s (.start mutex a b malloc create) s
  | created {mutex : ℕ} {a b : Int32} {malloc create : Bool} {data : ThreadData}
      (hdata : data.threadCompleteSuccess = false) :
      Moves s (.start mutex a b malloc create) (s.create data)
  | called {i : ℕ} {ok : Bool} {t t' : Thread} {holder' : Option ℕ} (ht : s.threads i = some t)
      (hcall : t.Calls i (s.holder t.args.mutex) ok t' holder') :
      Moves s (.thread i ok) (s.put i t.args.mutex t' holder')

/-- The steps of the process, analysed once.
Source: `threading.c`, `threadfunc`
Kind: L -/
theorem Process.moves_of_step {e : Step} (hstep : s.step e = some s') : s.Moves e s' := by
  cases e with
  | start mutex a b malloc create =>
      obtain rfl := Option.some_inj.mp hstep
      unfold Process.startThreadObtainingMutex
      split_ifs
      · exact .refused
      · exact .refused
      · exact .created rfl
  | thread i ok =>
      obtain ⟨t, ht, hmap⟩ := Option.bind_eq_some_iff.mp hstep
      obtain ⟨⟨t', holder'⟩, hcall, rfl⟩ := Option.map_eq_some_iff.mp hmap
      exact .called ht (Thread.calls_of_threadfunc hcall)

/-- A new thread has a number of its own.
Source: `threading.c`, `threadfunc`
Kind: L -/
theorem Process.Inv.ne_next (hs : s.Inv) {i : ℕ} {t : Thread} (ht : s.threads i = some t) :
    i ≠ s.next := by
  rintro rfl
  simp [hs.fresh (Nat.le_refl _)] at ht

/-- A new thread keeps what holds of the others.
Source: `threading.c`, `start_thread_obtaining_mutex`
Kind: L -/
theorem Process.Inv.create (hs : s.Inv) {data : ThreadData}
    (hdata : data.threadCompleteSuccess = false) : (s.create data).Inv := by
  constructor
  · intro i t ht
    by_cases hi : i = s.next
    · subst hi
      rw [Process.create_threads_self, Option.some_inj] at ht
      subst ht
      have hnone : s.holder data.mutex ≠ some s.next := by
        intro hsome
        obtain ⟨u, hu, -⟩ := hs.owner hsome
        exact hs.ne_next hu rfl
      constructor <;> simp_all [Thread.InSection]
    · rw [Process.create_threads_of_ne hi] at ht
      exact hs.fits ht
  · intro mutex i hi
    obtain ⟨t, ht, hmutex⟩ := hs.owner hi
    refine ⟨t, ?_, hmutex⟩
    rw [Process.create_threads_of_ne (hs.ne_next ht)]
    exact ht
  · intro i hi
    have hle : s.next + 1 ≤ i := hi
    rw [Process.create_threads_of_ne (by omega)]
    exact hs.fresh (by omega)

/-- A call makes no difference to which of the other threads holds a mutex.
Source: `threading.c`, `threadfunc`
Kind: L -/
theorem Process.Inv.put_holder_iff (hs : s.Inv) {i j mutex : ℕ} {ok : Bool} {t t' : Thread}
    {holder' : Option ℕ} (ht : s.threads i = some t)
    (hcall : t.Calls i (s.holder t.args.mutex) ok t' holder') (hj : j ≠ i) :
    (s.put i t.args.mutex t' holder').holder mutex = some j ↔ s.holder mutex = some j := by
  by_cases hm : mutex = t.args.mutex
  · subst hm
    rw [Process.put_holder_self]
    exact hcall.others (hs.fits ht) hj
  · rw [Process.put_holder_of_ne hm]

/-- A call keeps what holds of the threads.
Source: `threading.c`, `threadfunc`
Kind: L -/
theorem Process.Inv.put (hs : s.Inv) {i : ℕ} {ok : Bool} {t t' : Thread} {holder' : Option ℕ}
    (ht : s.threads i = some t) (hcall : t.Calls i (s.holder t.args.mutex) ok t' holder') :
    (s.put i t.args.mutex t' holder').Inv := by
  have hself := hs.fits ht
  constructor
  · intro j u hu
    by_cases hj : j = i
    · subst hj
      rw [Process.put_threads_self, Option.some_inj] at hu
      subst hu
      rw [hcall.mutex_eq, Process.put_holder_self]
      exact hcall.fits hself
    · rw [Process.put_threads_of_ne hj] at hu
      exact (hs.fits hu).congr (hs.put_holder_iff ht hcall hj)
  · intro mutex j hj
    by_cases hji : j = i
    · subst hji
      refine ⟨t', Process.put_threads_self, ?_⟩
      rw [hcall.mutex_eq]
      by_contra hne
      rw [Process.put_holder_of_ne (Ne.symm hne)] at hj
      obtain ⟨u, hu, hmutex⟩ := hs.owner hj
      obtain rfl := Option.some_inj.mp (ht.symm.trans hu)
      exact hne hmutex
    · obtain ⟨u, hu, hmutex⟩ := hs.owner ((hs.put_holder_iff ht hcall hji).mp hj)
      refine ⟨u, ?_, hmutex⟩
      rw [Process.put_threads_of_ne hji]
      exact hu
  · intro j hj
    have hnone := hs.fresh hj
    have hne : j ≠ i := by
      rintro rfl
      simp [hnone] at ht
    rw [Process.put_threads_of_ne hne]
    exact hnone

/-- **Every step keeps the invariant.**
Source: `threading.c`, `threadfunc`
Kind: P -/
theorem Process.Inv.step (hs : s.Inv) {e : Step} (hstep : s.step e = some s') : s'.Inv := by
  cases Process.moves_of_step hstep with
  | refused => exact hs
  | created hdata => exact hs.create hdata
  | called ht hcall => exact hs.put ht hcall

/-- What holds of the threads holds along every run.
Source: `threading.c`, `threadfunc`
Kind: L -/
theorem inv_of_threadingRun (hrun : threadingRun steps = some s) : s.Inv :=
  run_induction (P := fun _ t => t.Inv) .start (fun _ _ _ _ _ ht hstep => ht.step hstep) hrun

/-- **No two threads have a mutex at a time.**
Source: `threading.c`, `threadfunc`
Kind: P -/
theorem Process.Inv.eq_of_inSection (hs : s.Inv) {i j : ℕ} {t u : Thread}
    (ht : s.threads i = some t) (hu : s.threads j = some u) (htin : t.InSection)
    (huin : u.InSection) (hsame : t.args.mutex = u.args.mutex) : i = j := by
  have hi := (hs.fits ht).holds htin
  rw [hsame, (hs.fits hu).holds huin] at hi
  exact (Option.some_inj.mp hi).symm

/-! ### An abandoned mutex -/

/-- A new thread abandons no mutex.
Source: `threading.c`, `start_thread_obtaining_mutex`
Kind: L -/
theorem Process.Inv.abandoned_create (hs : s.Inv) {mutex : ℕ} {data : ThreadData} :
    (s.create data).Abandoned mutex ↔ s.Abandoned mutex := by
  refine exists_congr fun i => exists_congr fun t => and_congr_right fun hholder => ?_
  obtain ⟨u, hu, -⟩ := hs.owner hholder
  rw [Process.create_threads_of_ne (hs.ne_next hu)]

/-- **A mutex that has been abandoned stays so**, and the others are abandoned by a call that fails
in the critical section.
Source: `threading.c`, `threadfunc`
Kind: P -/
theorem Process.Inv.abandoned_step (hs : s.Inv) {mutex : ℕ} {e : Step}
    (hstep : s.step e = some s') :
    s'.Abandoned mutex ↔ s.Abandoned mutex ∨ s.Disturbs mutex e := by
  cases Process.moves_of_step hstep with
  | refused => simp [Process.Disturbs]
  | created hdata => simp [Process.Disturbs, hs.abandoned_create]
  | @called j ok u u' holder' hu hcall =>
      constructor
      · rintro ⟨i, t, hholder, ht, hplace⟩
        by_cases hne : i = j
        · -- the thread that made the call has returned with the mutex
          subst hne
          obtain ⟨v, hv, rfl⟩ := (hs.put hu hcall).owner hholder
          obtain rfl := Option.some_inj.mp (hv.symm.trans ht)
          obtain rfl := Option.some_inj.mp (Process.put_threads_self.symm.trans hv)
          rw [hcall.mutex_eq, Process.put_holder_self] at hholder
          obtain ⟨rfl, hin⟩ := hcall.keeps_mutex (hs.fits hu) hplace hholder
          exact Or.inr ⟨i, u, rfl, hu, hcall.mutex_eq.symm, hin⟩
        · rw [Process.put_threads_of_ne hne] at ht
          exact Or.inl ⟨i, t, (hs.put_holder_iff hu hcall hne).mp hholder, ht, hplace⟩
      · rintro (⟨i, t, hholder, ht, hplace⟩ | ⟨i, t, hfail, ht, rfl, hin⟩)
        · have hne : i ≠ j := by
            rintro rfl
            obtain rfl := Option.some_inj.mp (ht.symm.trans hu)
            exact hcall.place_ne hplace
          refine ⟨i, t, (hs.put_holder_iff hu hcall hne).mpr hholder, ?_, hplace⟩
          rw [Process.put_threads_of_ne hne]
          exact ht
        · obtain ⟨rfl, rfl⟩ := Step.thread.inj hfail
          obtain rfl := Option.some_inj.mp (ht.symm.trans hu)
          cases hcall with
          | failed _ =>
              refine ⟨j, _, ?_, Process.put_threads_self, rfl⟩
              rw [Process.put_holder_self]
              exact (hs.fits ht).holds hin

/-- A mutex is abandoned exactly when a call has failed in its critical section.
Source: `threading.c`, `threadfunc`
Kind: L -/
theorem meets_iff_not_abandoned {mutex : ℕ} (hrun : threadingRun steps = some s) :
    Meets Process.step (fun u e => ¬ u.Disturbs mutex e) .start steps ↔ ¬ s.Abandoned mutex := by
  refine (run_induction (P := fun es u => u.Inv ∧
    (Meets Process.step (fun u e => ¬ u.Disturbs mutex e) .start es ↔ ¬ u.Abandoned mutex))
    ⟨Process.Inv.start, ?_⟩ ?_ hrun).2
  · simp [Meets, Process.Abandoned, Process.start]
  · rintro es u e u' hes ⟨hu, hiff⟩ hstep
    refine ⟨hu.step hstep, ?_⟩
    rw [meets_concat, hiff, hu.abandoned_step hstep, not_or]
    refine and_congr_right fun _ => ⟨fun h => h u hes, fun h v hv => ?_⟩
    obtain rfl := Option.some_inj.mp (hes.symm.trans hv)
    exact h

/-- A thread that has not succeeded, on a mutex that has been abandoned.
Source: `threading.c`, `threadfunc`
Kind: D -/
def Process.Stuck (s : Process) (j mutex : ℕ) : Prop :=
  s.Abandoned mutex ∧ ∃ t, s.threads j = some t ∧ t.args.mutex = mutex ∧
    t.args.threadCompleteSuccess = false

/-- A thread that waits for an abandoned mutex goes on waiting.
Source: `threading.c`, `threadfunc`
Kind: L -/
theorem Process.Inv.stuck_step (hs : s.Inv) {j mutex : ℕ} (hstuck : s.Stuck j mutex) {e : Step}
    (hstep : s.step e = some s') : s'.Stuck j mutex := by
  obtain ⟨habandoned, u, hu, hmutex, hopen⟩ := hstuck
  refine ⟨(hs.abandoned_step hstep).mpr (Or.inl habandoned), ?_⟩
  cases Process.moves_of_step hstep with
  | refused => exact ⟨u, hu, hmutex, hopen⟩
  | created hdata =>
      refine ⟨u, ?_, hmutex, hopen⟩
      rw [Process.create_threads_of_ne (hs.ne_next hu)]
      exact hu
  | @called i ok w w' holder' hw hcall =>
      by_cases hne : j = i
      · subst hne
        obtain rfl := Option.some_inj.mp (hu.symm.trans hw)
        refine ⟨w', Process.put_threads_self, hcall.mutex_eq.trans hmutex, ?_⟩
        -- at the end of its critical section it would have the mutex, and not have returned
        obtain ⟨i, x, hholder, hx, hplace⟩ := habandoned
        by_contra hsuccess
        have hself := (hs.fits hu).holds (hcall.unlocks hopen (by simpa using hsuccess))
        rw [hmutex, hholder, Option.some_inj] at hself
        subst hself
        obtain rfl := Option.some_inj.mp (hu.symm.trans hx)
        exact hcall.place_ne hplace
      · refine ⟨u, ?_, hmutex, hopen⟩
        rw [Process.put_threads_of_ne hne]
        exact hu

/-- **On a mutex that has been abandoned no thread succeeds any more.**
Source: `threading.c`, `threadfunc`
Kind: P -/
theorem Process.Inv.stuck_run (hs : s.Inv) {j mutex : ℕ} (hstuck : s.Stuck j mutex)
    (hrun : Lib.run Process.step s steps = some s') : s'.Stuck j mutex := by
  refine (run_induction (P := fun _ u => u.Inv ∧ u.Stuck j mutex) ⟨hs, hstuck⟩ ?_ hrun).2
  rintro es u e u' - ⟨hu, hst⟩ hstep
  exact ⟨hu.step hstep, hu.stuck_step hst hstep⟩

/-! ### A mutex that is not abandoned -/

section forward

variable {i : ℕ} {t : Thread}

/-- The first sleep of a thread that is not interrupted.
Source: `threading.c`, `threadfunc`
Kind: L -/
theorem Process.step_sleepToObtain (ht : s.threads i = some t) (hplace : t.place = .sleepToObtain) :
    s.step (.thread i true) = some (s.put i t.args.mutex
      (t.wakes t.args.waitToObtainMs .lock) (s.holder t.args.mutex)) := by
  simp [Process.step, ht, Thread.threadfunc, hplace]

/-- The lock of a free mutex.
Source: `threading.c`, `threadfunc`
Kind: L -/
theorem Process.step_lock (ht : s.threads i = some t) (hplace : t.place = .lock)
    (hfree : s.holder t.args.mutex = none) :
    s.step (.thread i true) =
      some (s.put i t.args.mutex { t with place := .sleepToRelease } (some i)) := by
  simp [Process.step, ht, Thread.threadfunc, hplace, hfree]

/-- The second sleep of a thread that is not interrupted.
Source: `threading.c`, `threadfunc`
Kind: L -/
theorem Process.step_sleepToRelease (ht : s.threads i = some t)
    (hplace : t.place = .sleepToRelease) :
    s.step (.thread i true) = some (s.put i t.args.mutex
      (t.wakes t.args.waitToReleaseMs .unlock) (s.holder t.args.mutex)) := by
  simp [Process.step, ht, Thread.threadfunc, hplace]

/-- The unlock, with which the thread succeeds.
Source: `threading.c`, `threadfunc`
Kind: L -/
theorem Process.step_unlock (ht : s.threads i = some t) (hplace : t.place = .unlock) :
    s.step (.thread i true) = some (s.put i t.args.mutex (t.returns true) none) := by
  simp [Process.step, ht, Thread.threadfunc, hplace]

/-- The thread has succeeded.
Source: `threading.c`, `threadfunc`
Kind: D -/
def Process.Succeeded (s : Process) (i : ℕ) : Prop :=
  ∃ t, s.threads i = some t ∧ t.args.threadCompleteSuccess = true

/-- Steps lead to a state where the thread has succeeded, the mutex is free, and the other threads
are as before.
Source: `threading.c`, `threadfunc`
Kind: D -/
def Process.CanRelease (s : Process) (i mutex : ℕ) : Prop :=
  ∃ later s', run Process.step s later = some s' ∧ s'.Succeeded i ∧ s'.holder mutex = none ∧
    ∀ j, j ≠ i → s'.threads j = s.threads j

/-- Before a step of its own the thread can do what it can do after it.
Source: `threading.c`, `threadfunc`
Kind: L -/
theorem Process.CanRelease.of_step {t' : Thread} {holder' : Option ℕ} {mutex : ℕ}
    (hstep : s.step (.thread i true) = some (s.put i mutex t' holder'))
    (h : (s.put i mutex t' holder').CanRelease i mutex) : s.CanRelease i mutex := by
  obtain ⟨later, s', hrun, hsucc, hfree, hothers⟩ := h
  refine ⟨_, s', run_cons.mpr ⟨_, hstep, hrun⟩, hsucc, hfree, fun j hj => ?_⟩
  rw [hothers j hj, Process.put_threads_of_ne hj]

/-- A thread at its unlock can release the mutex.
Source: `threading.c`, `threadfunc`
Kind: L -/
theorem Process.canRelease_of_unlock (ht : s.threads i = some t) (hplace : t.place = .unlock) :
    s.CanRelease i t.args.mutex := by
  apply Process.CanRelease.of_step (Process.step_unlock ht hplace)
  exact ⟨[], _, rfl, ⟨_, Process.put_threads_self, rfl⟩, Process.put_holder_self, fun _ _ => rfl⟩

/-- So can a thread at its second sleep.
Source: `threading.c`, `threadfunc`
Kind: L -/
theorem Process.canRelease_of_sleepToRelease (ht : s.threads i = some t)
    (hplace : t.place = .sleepToRelease) : s.CanRelease i t.args.mutex := by
  apply Process.CanRelease.of_step (Process.step_sleepToRelease ht hplace)
  exact Process.canRelease_of_unlock (t := t.wakes t.args.waitToReleaseMs .unlock)
    Process.put_threads_self rfl

/-- So can a thread at the lock of a free mutex.
Source: `threading.c`, `threadfunc`
Kind: L -/
theorem Process.canRelease_of_lock (ht : s.threads i = some t) (hplace : t.place = .lock)
    (hfree : s.holder t.args.mutex = none) : s.CanRelease i t.args.mutex := by
  apply Process.CanRelease.of_step (Process.step_lock ht hplace hfree)
  exact Process.canRelease_of_sleepToRelease (t := { t with place := .sleepToRelease })
    Process.put_threads_self rfl

/-- So can every thread between its lock and its unlock.
Source: `threading.c`, `threadfunc`
Kind: L -/
theorem Process.canRelease_of_inSection (ht : s.threads i = some t) (hin : t.InSection) :
    s.CanRelease i t.args.mutex := by
  rcases hin with hplace | hplace
  · exact Process.canRelease_of_sleepToRelease ht hplace
  · exact Process.canRelease_of_unlock ht hplace

end forward

/-- A thread that waits for a mutex gets it and succeeds, once the holder has released it.
Source: `threading.c`, `threadfunc`
Kind: L -/
theorem Process.Inv.exists_success_of_lock (hs : s.Inv) {j : ℕ} {t : Thread}
    (ht : s.threads j = some t) (hplace : t.place = .lock) (hkept : ¬ s.Abandoned t.args.mutex) :
    ∃ later s', run Process.step s later = some s' ∧ s'.Succeeded j := by
  cases hholder : s.holder t.args.mutex with
  | none =>
      obtain ⟨later, s', hrun, hsucc, -⟩ := Process.canRelease_of_lock ht hplace hholder
      exact ⟨later, s', hrun, hsucc⟩
  | some i =>
      obtain ⟨u, hu, hmutex⟩ := hs.owner hholder
      have hin : u.InSection := by
        refine ((hs.fits hu).held (hmutex ▸ hholder)).resolve_right fun hret => ?_
        exact hkept ⟨i, u, hholder, hu, hret.1⟩
      have hne : j ≠ i := by
        rintro rfl
        obtain rfl := Option.some_inj.mp (ht.symm.trans hu)
        simp [Thread.InSection, hplace] at hin
      obtain ⟨first, s₁, hfirst, -, hfree, hothers⟩ := Process.canRelease_of_inSection hu hin
      rw [hmutex] at hfree
      obtain ⟨later, s', hrun, hsucc, -⟩ :=
        Process.canRelease_of_lock ((hothers j hne).trans ht) hplace hfree
      exact ⟨first ++ later, s', run_append.mpr ⟨s₁, hfirst, hrun⟩, hsucc⟩

/-- **On a mutex that is not abandoned every thread that has not returned can succeed.**
Source: `threading.c`, `threadfunc`
Kind: P -/
theorem Process.Inv.exists_success (hs : s.Inv) {j : ℕ} {t : Thread} (ht : s.threads j = some t)
    (hopen : t.place ≠ .returned) (hkept : ¬ s.Abandoned t.args.mutex) :
    ∃ later s', Lib.run Process.step s later = some s' ∧ s'.Succeeded j := by
  cases hplace : t.place with
  | sleepToObtain =>
      have hstep := Process.step_sleepToObtain ht hplace
      have hstill : ¬ (s.put j t.args.mutex (t.wakes t.args.waitToObtainMs .lock)
          (s.holder t.args.mutex)).Abandoned t.args.mutex := by
        rw [hs.abandoned_step hstep, not_or]
        exact ⟨hkept, by simp [Process.Disturbs]⟩
      obtain ⟨later, s', hrun, hsucc⟩ :=
        (hs.step hstep).exists_success_of_lock Process.put_threads_self rfl hstill
      exact ⟨_, s', run_cons.mpr ⟨_, hstep, hrun⟩, hsucc⟩
  | lock => exact hs.exists_success_of_lock ht hplace hkept
  | sleepToRelease =>
      obtain ⟨later, s', hrun, hsucc, -⟩ := Process.canRelease_of_sleepToRelease ht hplace
      exact ⟨later, s', hrun, hsucc⟩
  | unlock =>
      obtain ⟨later, s', hrun, hsucc, -⟩ := Process.canRelease_of_unlock ht hplace
      exact ⟨later, s', hrun, hsucc⟩
  | returned => exact absurd hplace hopen

/-! ### Every interleaving -/

/-- **A thread can succeed as long as its mutex is not abandoned.** In every state of every
interleaving: no two threads have one mutex at a time; a mutex has been abandoned, by a thread that
has returned with it, exactly when a second sleep or an unlock has failed in its critical section; a
thread that has not returned can still succeed if its mutex has not been abandoned, and never will
if it has; and a thread that has succeeded has slept as it was asked to, counted in microseconds
modulo `2 ^ 32`, and holds nothing.
Source: `threading.c`, `threadfunc` and `start_thread_obtaining_mutex`
Kind: P -/
theorem threads_succeed_unless_abandoned (hrun : threadingRun steps = some s) :
    (∀ i j t u, s.threads i = some t → s.threads j = some u → t.InSection → u.InSection →
      t.args.mutex = u.args.mutex → i = j) ∧
    (∀ mutex, s.Abandoned mutex ↔
      ¬ Meets Process.step (fun u e => ¬ u.Disturbs mutex e) .start steps) ∧
    (∀ j t, s.threads j = some t → t.place ≠ .returned →
      ((∃ later s', run Process.step s later = some s' ∧ s'.Succeeded j) ↔
        ¬ s.Abandoned t.args.mutex)) ∧
    (∀ j t, s.threads j = some t → t.args.threadCompleteSuccess = true →
      t.slept = [t.args.waitToObtainMs * 1000, t.args.waitToReleaseMs * 1000] ∧
      ∀ mutex, s.holder mutex ≠ some j) := by
  have hs := inv_of_threadingRun hrun
  refine ⟨fun i j t u ht hu htin huin => hs.eq_of_inSection ht hu htin huin, fun mutex => ?_,
    fun j t ht hopen => ⟨?_, hs.exists_success ht hopen⟩, fun j t ht hsuccess => ?_⟩
  · rw [meets_iff_not_abandoned hrun, not_not]
  · rintro ⟨later, s', hlater, u, hu, hsucc⟩ habandoned
    have hfalse : t.args.threadCompleteSuccess = false := by
      by_contra htrue
      exact hopen ((hs.fits ht).success (by simpa using htrue)).1
    obtain ⟨-, v, hv, -, hnot⟩ := hs.stuck_run ⟨habandoned, t, ht, rfl, hfalse⟩ hlater
    obtain rfl := Option.some_inj.mp (hu.symm.trans hv)
    rw [hsucc] at hnot
    exact absurd hnot (by simp)
  · obtain ⟨hplace, hslept⟩ := (hs.fits ht).success hsuccess
    refine ⟨hslept, fun mutex hholder => ?_⟩
    obtain ⟨u, hu, rfl⟩ := hs.owner hholder
    obtain rfl := Option.some_inj.mp (ht.symm.trans hu)
    rcases (hs.fits ht).held hholder with hin | ⟨-, hnot⟩
    · simp [Thread.InSection, hplace] at hin
    · rw [hsuccess] at hnot
      exact absurd hnot (by simp)

end process

/-- The second sleep of the first of two threads is interrupted; the second one will never succeed.
Source: `threading.c`, `threadfunc`
Kind: N+ -/
theorem threads_succeed_unless_abandoned_interrupted :
    ∃ s, threadingRun [.start 0 5 5 true true, .start 0 5 5 true true, .thread 0 true,
        .thread 0 true, .thread 1 true, .thread 0 false] = some s ∧
      (s.threads 1).isSome = true ∧
      ¬ ∃ later s', run Process.step s later = some s' ∧ s'.Succeeded 1 := by
  obtain ⟨s, hs, hvals⟩ := Option.map_eq_some_iff.mp (show (threadingRun [.start 0 5 5 true true,
      .start 0 5 5 true true, .thread 0 true, .thread 0 true, .thread 1 true,
      .thread 0 false]).map (fun s => (s.holder 0, (s.threads 0).map Thread.place,
        (s.threads 1).map fun t => (t.place, t.args.mutex))) =
      some (some 0, some .returned, some (.lock, 0)) by decide +kernel)
  simp only [Prod.mk.injEq, Option.map_eq_some_iff] at hvals
  obtain ⟨hholder, ⟨t, ht, hplace⟩, u, hu, hwaits, hmutex⟩ := hvals
  refine ⟨s, hs, by rw [hu, Option.isSome_some], fun hlater => ?_⟩
  obtain ⟨-, -, hsucceeds, -⟩ := threads_succeed_unless_abandoned hs
  refine (hsucceeds 1 u hu (by simp [hwaits])).mp hlater ?_
  rw [hmutex]
  exact ⟨0, t, hholder, ht, hplace⟩

end Aesd.Threading
