import Aesd.Driver.Locking
import Aesd.Lib.Serial

/-!
# The driver between two accesses (`aesd-char-driver/main.c`)

Any number of threads are in the file operations at the same time, each on an open file of its own,
and the scheduler may switch between any two accesses to `dev->buffer`, to
`dev->current_write_entry` and to the heap. The calls are the code of `Aesd.Driver.Locking`, with its
lock attempts, unlocks and accesses, run statement by statement as `Aesd.Lib.Serial` runs it.

* `fileCall_enters`, `fileCall_computes` — a call has at most one critical section and, run whole, is
  the atomic operation of `Aesd.Driver.CharDevice`;
* `calls_linearizable` — every interleaving is a run of the atomic operations, in the order in which
  the calls got the lock; so what is proved of `driverRun` holds of the interleavings;
* `calls_deadlock_free` — the thread that holds the lock can go on and comes to its unlock; with the
  lock free every thread can go on.
-/

namespace Aesd.Driver

open Aesd.Lib

/-! ### Threads on open files -/

/-- A system call on an open file, with the kernel's part in it.
Source: `main.c`, the file operations
Kind: D -/
inductive FileOp where
  | openFile
  | write (env : WriteEnv) (buf : List UInt8)
  | read (env : ReadEnv) (count : ℕ)
  | ioctl (env : IoctlEnv) (cmd : UInt32)
  | llseek (interrupted : Bool) (offset whence : ℤ)

/-- What a call returned.
Source: `main.c`, the file operations
Kind: D -/
inductive Outcome where
  | opened
  | wrote (result : Except Errno ℕ)
  | read (result : Except Errno (List UInt8))
  | sought (result : Except Errno Unit)
  | moved (result : Except Errno ℤ)

/-- The position of an open file, and what the calls on it have returned.
Source: `main.c`, the file operations
Kind: D -/
structure OpenFile where
  fPos : ℤ
  results : List Outcome

/-- The file after one more call.
Source: `main.c`, the file operations
Kind: D -/
def OpenFile.after (f : OpenFile) (fPos : ℤ) (result : Outcome) : OpenFile :=
  ⟨fPos, f.results ++ [result]⟩

/-- The code of a call on an open file: that of `Aesd.Driver.Locking`, and what the caller keeps of
it.
Source: `main.c`, `aesd_open`, `aesd_write`, `aesd_read`, `aesd_ioctl`, `aesd_llseek`
Kind: D -/
def fileCall (K : KernelLimits) : FileOp → OpenFile → Locked.DevCode OpenFile
  | .openFile, f => return f.after 0 .opened
  | .write env buf, f =>
      (fun r => f.after r.2 (.wrote r.1)) <$>
        Locked.aesdWrite K env (buf.take K.maxRwCount) f.fPos
  | .read env count, f =>
      (fun r => f.after r.2 (.read r.1)) <$> Locked.aesdRead env count f.fPos
  | .ioctl env cmd, f =>
      (fun r => f.after r.2 (.sought r.1)) <$> Locked.aesdIoctl env cmd f.fPos
  | .llseek interrupted offset whence, f =>
      (fun r => f.after r.2 (.moved r.1)) <$> Locked.aesdLlseek interrupted offset whence f.fPos

/-- The call as a step of the driver on a file.
Source: `main.c`, the file operations
Kind: D -/
def FileOp.on (file : ℕ) : FileOp → DriverOp
  | .openFile => .openFile file
  | .write env buf => .write file env buf
  | .read env count => .read file env count
  | .ioctl env cmd => .ioctl file env cmd
  | .llseek interrupted offset whence => .llseek file interrupted offset whence

/-- What a call returns when it is one step.
Source: `main.c`, the file operations
Kind: D -/
def FileOp.outcome (K : KernelLimits) (fPos : ℤ) (dev : AesdDev) : FileOp → Outcome
  | .openFile => .opened
  | .write env buf => .wrote (vfsWrite K env buf fPos dev).1
  | .read env count => .read (aesdRead env count fPos dev).1
  | .ioctl env cmd => .sought (aesdIoctl env cmd fPos dev).1
  | .llseek interrupted offset whence => .moved (aesdLlseek interrupted offset whence fPos dev).1

/-- The file and the device after a call that is one step.
Source: `main.c`, the file operations
Kind: D -/
def wholeCall (K : KernelLimits) (op : FileOp) (f : OpenFile) (dev : AesdDev) :
    OpenFile × AesdDev :=
  let s := DriverState.exec K ⟨dev, fun _ => f.fPos⟩ (op.on 0)
  (f.after (s.fPos 0) (op.outcome K f.fPos dev), s.dev)

section concurrent

variable {K : KernelLimits}

/-- `aesd_ioctl` has one critical section, which the command may not come to.
Source: `main.c`, `aesd_ioctl`
Kind: L -/
theorem enters_aesdIoctl (env : IoctlEnv) (cmd : UInt32) (fPos : ℤ) :
    (Locked.aesdIoctl env cmd fPos).Enters := by
  unfold Locked.aesdIoctl
  by_cases htype : iocType cmd ≠ aesdIocMagic
  · rw [if_pos htype]
    trivial
  rw [if_neg htype]
  by_cases hnr : iocNr cmd > aesdcharIocMaxnr
  · rw [if_pos hnr]
    trivial
  rw [if_neg hnr]
  by_cases hseek : cmd = aesdcharIocseekto
  · rw [if_pos hseek]
    cases env.arg with
    | none => trivial
    | some seekto => exact Locking.enters_section _ _ _
  · rw [if_neg hseek]
    trivial

/-- Every call has at most one critical section, and nothing shared outside of it.
Source: `main.c`, `aesd_open`, `aesd_write`, `aesd_read`, `aesd_ioctl`, `aesd_llseek`
Kind: L -/
theorem fileCall_enters (op : FileOp) (f : OpenFile) : (fileCall K op f).Enters := by
  cases op with
  | openFile => trivial
  | write env buf => exact (Locking.enters_section _ _ _).map _
  | read env count => exact (Locking.enters_section _ _ _).map _
  | ioctl env cmd => exact (enters_aesdIoctl env cmd f.fPos).map _
  | llseek interrupted offset whence => exact (Locking.enters_section _ _ _).map _

/-- **Every call, run whole, is the atomic operation.**
Source: `main.c`, `aesd_open`, `aesd_write`, `aesd_read`, `aesd_ioctl`, `aesd_llseek`
Kind: L -/
theorem fileCall_computes (op : FileOp) (f : OpenFile) :
    (fileCall K op f).Computes (wholeCall K op f) := by
  cases op with
  | openFile => exact fun _ => rfl
  | write env buf => exact Locking.Computes.map (Locked.run_aesdWrite K env _ f.fPos) _
  | read env count => exact Locking.Computes.map (Locked.run_aesdRead env count f.fPos) _
  | ioctl env cmd => exact Locking.Computes.map (Locked.run_aesdIoctl env cmd f.fPos) _
  | llseek interrupted offset whence =>
      exact Locking.Computes.map (Locked.run_aesdLlseek interrupted offset whence f.fPos) _

/-! ### The order of the calls -/

/-- The calls of the threads, as calls of the driver on their files.
Source: `main.c`, the file operations
Kind: D -/
def opsOf (order : List (ℕ × FileOp)) : List DriverOp := order.map fun c => c.2.on c.1

/-- What the calls on a file return when each call is one step, from a state of the driver on.
Source: `main.c`, the file operations
Kind: D -/
def outcomes (K : KernelLimits) (file : ℕ) : DriverState → List (ℕ × FileOp) → List Outcome
  | _, [] => []
  | s, c :: order =>
      (if c.1 = file then [c.2.outcome K (s.fPos file) s.dev] else []) ++
        outcomes K file (s.exec K (c.2.on c.1)) order

/-- The threads before their calls: each has a file of its own open, on the device as it was
initialised.
Source: `main.c`, the file operations
Kind: D -/
def concurrentRun (K : KernelLimits) (programs : ℕ → List FileOp) (schedule : List ℕ) :
    Option (Threads AesdDev (Heap UInt8) OpenFile FileOp) :=
  run (Threads.step (fileCall K)) (.start aesdInitModule (fun _ => ⟨0, []⟩) programs) schedule

/-- A call on one file as a call of the driver.
Source: none: infrastructure
Kind: L -/
theorem exec_on (s : DriverState) (file : ℕ) (op : FileOp) (f : OpenFile)
    (hpos : f.fPos = s.fPos file) :
    s.exec K (op.on file) = ⟨(wholeCall K op f s.dev).2,
      Function.update s.fPos file (wholeCall K op f s.dev).1.fPos⟩ := by
  cases op <;> simp [DriverState.exec, FileOp.on, wholeCall, OpenFile.after, hpos]

/-- The driver and the results after whole calls.
Source: none: infrastructure
Kind: L -/
theorem foldl_serially (order : List (ℕ × FileOp)) (s : DriverState) (own : ℕ → OpenFile)
    (hpos : ∀ i, (own i).fPos = s.fPos i) :
    order.foldl (Threads.serially (wholeCall K)) (s.dev, own) =
      (((opsOf order).foldl (DriverState.exec K) s).dev, fun i =>
        ⟨((opsOf order).foldl (DriverState.exec K) s).fPos i,
          (own i).results ++ outcomes K i s order⟩) := by
  induction order generalizing s own with
  | nil =>
      refine Prod.ext rfl (funext fun i => ?_)
      simp [opsOf, outcomes, ← hpos]
  | cons c order ih =>
      have hexec := exec_on (K := K) s c.1 c.2 (own c.1) (hpos c.1)
      have hdev : (wholeCall K c.2 (own c.1) s.dev).2 = (s.exec K (c.2.on c.1)).dev := by rw [hexec]
      change order.foldl _ ((wholeCall K c.2 (own c.1) s.dev).2,
        Function.update own c.1 (wholeCall K c.2 (own c.1) s.dev).1) = _
      rw [hdev, ih]
      · refine Prod.ext rfl (funext fun i => ?_)
        by_cases hi : c.1 = i
        · subst hi
          simp [opsOf, outcomes, wholeCall, OpenFile.after, hpos]
        · simp [opsOf, outcomes, hi, Ne.symm hi]
      · intro i
        rw [hexec]
        by_cases hi : i = c.1
        · subst hi
          simp
        · simp [hi, hpos]

/-- In every state of every interleaving, the calls that have got the lock are done as whole.
Source: `main.c`, the file operations
Kind: L -/
theorem serial_of_concurrentRun {programs : ℕ → List FileOp} {schedule : List ℕ}
    {s : Threads AesdDev (Heap UInt8) OpenFile FileOp} (hrun : concurrentRun K programs schedule = some s) :
    s.Serial (wholeCall K) (aesdInitModule, fun _ => ⟨0, []⟩) programs :=
  Threads.serial_of_run (fun op f => ⟨fileCall_enters op f, fileCall_computes op f⟩) hrun

/-- The driver and the results after whole calls from the module's start on.
Source: `main.c`, the file operations
Kind: L -/
theorem foldl_serially_init (order : List (ℕ × FileOp)) :
    order.foldl (Threads.serially (wholeCall K)) (aesdInitModule, fun _ => ⟨0, []⟩) =
      ((driverRun K (opsOf order)).dev, fun i =>
        ⟨(driverRun K (opsOf order)).fPos i, outcomes K i .init order⟩) :=
  foldl_serially order .init (fun _ => ⟨0, []⟩) fun _ => rfl

/-- **The driver's calls are linearizable.** Any number of threads call the file operations, each on
a file of its own, and the scheduler may switch between any two accesses to the device. In every
state, with the calls in the order in which they got `dev->lock` (or returned without it): each
thread has made its calls in the order of its program; a thread that is not in its critical section
has the position and the results that it has when every call is one atomic step; the device is the
one of the atomic steps whenever the lock is free; and when a thread holds the lock, the rest of its
critical section leads there.
Source: `main.c`, `aesd_open`, `aesd_read`, `aesd_write`, `aesd_ioctl`, `aesd_llseek`
Kind: P -/
theorem calls_linearizable {programs : ℕ → List FileOp} {schedule : List ℕ}
    {s : Threads AesdDev (Heap UInt8) OpenFile FileOp} (hrun : concurrentRun K programs schedule = some s) :
    (∀ i, programs i = Threads.callsOf i s.order ++ (s.phase i).begun ++ s.todo i) ∧
    (s.holder = none → s.shared = (driverRun K (opsOf s.order)).dev) ∧
    (∀ i, s.holder ≠ some i → s.own i =
      ⟨(driverRun K (opsOf s.order)).fPos i, outcomes K i .init s.order⟩) ∧
    ∀ i, s.holder = some i → ∃ x, s.phase i = .inside x ∧ x.run s.shared =
      some (⟨(driverRun K (opsOf s.order)).fPos i, outcomes K i .init s.order⟩,
        (driverRun K (opsOf s.order)).dev) := by
  have hs := serial_of_concurrentRun hrun
  have hfold := foldl_serially_init (K := K) s.order
  refine ⟨hs.program, fun hfree => ?_, fun i hi => ?_, fun i hi => ?_⟩
  · rw [hs.free hfree, hfold]
  · rw [hs.own i fun x hx => hi (hs.inside i x hx).1, hfold]
  · obtain ⟨x, hx⟩ := hs.held i hi
    refine ⟨x, hx, ?_⟩
    rw [(hs.inside i x hx).2.2, hfold]

/-- **No deadlock on `dev->lock`.** In every state of every interleaving: the thread that holds the
lock can take its next step, and there is a number of steps of its own until which it holds the lock
and with which it has released it, whatever the other threads do in between; and when the lock is
free, every thread with a call to make or to finish can take its next step.
Source: `main.c`, `aesd_open`, `aesd_read`, `aesd_write`, `aesd_ioctl`, `aesd_llseek`
Kind: P -/
theorem calls_deadlock_free {programs : ℕ → List FileOp} {schedule : List ℕ}
    {s : Threads AesdDev (Heap UInt8) OpenFile FileOp}
    (hrun : concurrentRun K programs schedule = some s) :
    (∀ i, s.holder = some i → (s.step (fileCall K) i).isSome = true ∧
      ∃ n, ∀ rest s', run (Threads.step (fileCall K)) s rest = some s' →
        (rest.count i < n → s'.holder = some i) ∧ (rest.count i = n → s'.holder ≠ some i)) ∧
    (s.holder = none → ∀ i, (s.phase i ≠ .idle ∨ s.todo i ≠ []) →
      (s.step (fileCall K) i).isSome = true) := by
  have hs := serial_of_concurrentRun hrun
  refine ⟨fun i hi => ⟨hs.holder_steps hi, ?_⟩, fun hfree i hwork => hs.free_steps hfree hwork⟩
  obtain ⟨x, hx⟩ := hs.held i hi
  refine ⟨x.length s.shared, fun rest s' hrest => ?_⟩
  exact hs.leaves_in_steps (fun op f => ⟨fileCall_enters op f, fileCall_computes op f⟩) hx hrest

end concurrent

/-- One thread writes a line, another one reads twice.
Source: `main.c`, the file operations
Kind: D -/
def writerAndReader : ℕ → List FileOp
  | 0 => [.write .undisturbed [97, 10]]
  | 1 => [.read .undisturbed 5, .read .undisturbed 5]
  | _ => []

/-- The reader has asked for the lock before the writer, and gets it after it.
Source: `main.c`, the file operations
Kind: N+ -/
theorem calls_linearizable_overlapping :
    ∃ s, concurrentRun .pages4K writerAndReader (1 :: List.replicate 16 0 ++ List.replicate 8 1) =
        some s ∧
      s.order.length = 2 ∧ s.shared = (driverRun .pages4K (opsOf s.order)).dev := by
  obtain ⟨s, hs, hvals⟩ := Option.map_eq_some_iff.mp (show (concurrentRun .pages4K writerAndReader
    (1 :: List.replicate 16 0 ++ List.replicate 8 1)).map (fun s => (s.order.length, s.holder)) =
      some (2, none) by decide +kernel)
  obtain ⟨hlen, hfree⟩ := Prod.mk.inj hvals
  exact ⟨s, hs, hlen, (calls_linearizable hs).2.1 hfree⟩

/-- The reader waits while the writer is in its critical section, which the writer leaves.
Source: `main.c`, `aesd_read`, `aesd_write`
Kind: N+ -/
theorem calls_deadlock_free_waiting :
    ∃ s, concurrentRun .pages4K writerAndReader [1, 0, 0, 0, 0] = some s ∧
      s.holder = some 0 ∧ (s.step (fileCall .pages4K) 1).isSome = false ∧
      (s.step (fileCall .pages4K) 0).isSome = true ∧
      ∃ n, ∀ rest s', run (Threads.step (fileCall .pages4K)) s rest = some s' →
        (rest.count 0 < n → s'.holder = some 0) ∧ (rest.count 0 = n → s'.holder ≠ some 0) := by
  obtain ⟨s, hs, hvals⟩ := Option.map_eq_some_iff.mp (show (concurrentRun .pages4K writerAndReader
    [1, 0, 0, 0, 0]).map (fun s => (s.holder, (s.step (fileCall .pages4K) 1).isSome)) =
      some (some 0, false) by decide +kernel)
  obtain ⟨hholder, hwaits⟩ := Prod.mk.inj hvals
  obtain ⟨hsteps, hleaves⟩ := (calls_deadlock_free hs).1 0 hholder
  exact ⟨s, hs, hholder, hwaits, hsteps, hleaves⟩

end Aesd.Driver
