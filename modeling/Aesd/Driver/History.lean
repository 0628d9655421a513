import Aesd.Driver.Represent

/-!
# What writes leave behind: conservation, and what a failed write costs

* `driverRun_conserves` — over any sequence of calls whose writes all succeed, through any number
  of files, nothing written is lost: the entries ever added to the ring followed by the pending
  bytes are the bytes written, and the entries are the maximal runs of writes of which only the
  last holds a newline.
* `failed_write_atomic_iff` — a write that fails leaves everything as it was, *unless* it fails in
  the user copy while bytes of earlier writes are pending: `aesd_write` then releases the block it
  has just grown, and the earlier bytes go with it (`failed_write_drops_pending`).
* `write_accounting_iff` — a write that completes an entry returns the size of the whole entry, so
  that it returns the number of bytes it was given *unless* bytes of earlier writes were pending.
-/

namespace Aesd.Driver

open Aesd.Lib

/-! ### Conservation -/

/-- The bytes a call writes.
Source: `main.c`, `aesd_write`
Kind: D -/
def DriverOp.written : DriverOp → Option (List UInt8)
  | .write _ _ buf => some buf
  | _ => none

/-- The call is not a write that fails.
Source: `main.c`, `aesd_write`
Kind: D -/
def DriverOp.succeeds (K : KernelLimits) (s : DriverState) : DriverOp → Bool
  | .write file env buf => (vfsWrite K env buf (s.fPos file) s.dev).1.isOk
  | _ => true

/-- No write of the sequence fails.
Source: `main.c`, `aesd_write`
Kind: D -/
def writesSucceed (K : KernelLimits) : DriverState → List DriverOp → Bool
  | _, [] => true
  | s, op :: ops => op.succeeds K s && writesSucceed K (s.exec K op) ops

/-- A write that succeeds feeds its bytes to the assembler; the other calls leave it alone.
Source: `main.c`, `aesd_write`
Kind: L -/
theorem DriverState.exec_records {K : KernelLimits} {s : DriverState} (hrep : Represents K s.dev)
    {op : DriverOp} (hok : op.succeeds K s = true) :
    (s.exec K op).dev.records =
      (op.written.toList).foldl (Records.feed newline) s.dev.records := by
  cases op with
  | openFile file => rfl
  | read file env count => rfl
  | ioctl file env cmd => rfl
  | llseek file interrupted offset whence => rfl
  | write file env buf =>
      have hout := vfsWrite_outcome hrep env buf (s.fPos file)
      change (vfsWrite K env buf (s.fPos file) s.dev).1.isOk = true at hok
      change (vfsWrite K env buf (s.fPos file) s.dev).2.2.records =
        Records.feed newline s.dev.records buf
      generalize vfsWrite K env buf (s.fPos file) s.dev = r at hout hok ⊢
      cases hout with
      | refused => exact absurd hok (by simp [Except.isOk, Except.toBool])
      | dropped => exact absurd hok (by simp [Except.isOk, Except.toBool])
      | accepted _ halloc _ _ _ hrec =>
          rw [take_maxRwCount halloc] at hrec
          exact hrec

/-- The records left by a sequence of calls whose writes all succeed.
Source: `main.c`, `aesd_write`
Kind: L -/
theorem records_of_writesSucceed {K : KernelLimits} :
    ∀ (ops : List DriverOp) {s : DriverState}, Represents K s.dev →
      writesSucceed K s ops = true →
      (ops.foldl (DriverState.exec K) s).dev.records =
        (ops.filterMap DriverOp.written).foldl (Records.feed newline) s.dev.records
  | [], _, _, _ => rfl
  | op :: ops, s, hrep, hok => by
      rw [writesSucceed, Bool.and_eq_true] at hok
      rw [List.foldl_cons, records_of_writesSucceed ops (DriverState.exec_represents hrep op) hok.2,
        DriverState.exec_records hrep hok.1]
      cases hw : op.written with
      | none => simp [hw]
      | some buf => simp [hw]

/-- **Write history is conserved.** After any sequence of calls on a freshly loaded device whose
writes all succeed, through any number of files in any order: the entries ever added to the ring,
followed by the pending bytes, are the bytes written; the pending bytes have no newline; the
writes fall into consecutive runs, each the writes of one entry and only the last of them with a
newline, and a rest without one, which is pending; and the ring keeps the last ten entries.
Source: `main.c`, `aesd_write`
Kind: P -/
theorem driverRun_conserves (K : KernelLimits) (ops : List DriverOp)
    (hok : writesSucceed K .init ops = true) :
    let dev := (driverRun K ops).dev
    let writes := ops.filterMap DriverOp.written
    dev.added.flatten ++ dev.pending = writes.flatten ∧
    newline ∉ dev.pending ∧
    (∃ (runs : List (List (List UInt8))) (rest : List (List UInt8)),
      writes = runs.flatten ++ rest ∧
      dev.added = runs.map List.flatten ∧
      (∀ run ∈ runs, ∃ init last, run = init ++ [last] ∧
        (∀ w ∈ init, newline ∉ w) ∧ newline ∈ last) ∧
      dev.pending = rest.flatten ∧ ∀ w ∈ rest, newline ∉ w) ∧
    dev.commands = dev.added.rtake 10 := by
  obtain ⟨runs, rest, htiles⟩ := Records.exists_tiles newline (ops.filterMap DriverOp.written)
  have hrec : (driverRun K ops).dev.records =
      (ops.filterMap DriverOp.written).foldl (Records.feed newline) .start :=
    records_of_writesSucceed ops (represents_init K) hok
  rw [← hrec] at htiles
  refine ⟨htiles.conserved, htiles.pending_free, ⟨runs, rest, htiles.pieces_eq, htiles.done_eq,
    htiles.isRun, htiles.pending_eq, htiles.rest_free⟩, ?_⟩
  exact (represents_driverRun K ops).commands_eq

/-- Two files, an empty write, a line in two pieces and the start of another one.
Source: `main.c`, `aesd_write`
Kind: N+ -/
theorem driverRun_conserves_two_files :
    (driverRun .pages4K [.write 0 .undisturbed [], .write 0 .undisturbed [97],
      .write 1 .undisturbed [98, 10, 99], .write 0 .undisturbed [100]]).dev.added.flatten ++
      (driverRun .pages4K [.write 0 .undisturbed [], .write 0 .undisturbed [97],
        .write 1 .undisturbed [98, 10, 99], .write 0 .undisturbed [100]]).dev.pending =
      [97, 98, 10, 99, 100] :=
  (driverRun_conserves .pages4K [.write 0 .undisturbed [], .write 0 .undisturbed [97],
    .write 1 .undisturbed [98, 10, 99], .write 0 .undisturbed [100]] (by decide)).1

/-! ### Failed writes -/

/-- **When a failed write is atomic.** A write that returns an error leaves the retained entries,
the pending bytes and every file position as they were exactly when the lock attempt was
interrupted, the allocation failed, or there were no pending bytes; the remaining case is a failed
user copy with bytes pending.
Source: `main.c`, `aesd_write`
Kind: P -/
theorem failed_write_atomic_iff (K : KernelLimits) (ops : List DriverOp) (file : ℕ) (env : WriteEnv)
    (buf : List UInt8) (e : Errno)
    (herr : (vfsWrite K env buf ((driverRun K ops).fPos file) (driverRun K ops).dev).1 = .error e) :
    let s := driverRun K ops
    let s' := s.exec K (.write file env buf)
    (s'.dev.commands = s.dev.commands ∧ s'.dev.pending = s.dev.pending ∧ s'.fPos = s.fPos) ↔
      (env.interrupted = true ∨
        env.AllocFails K (s.dev.currentWriteEntry.size + (buf.take K.maxRwCount).length) ∨
        s.dev.pending = []) := by
  have hrep := represents_driverRun K ops
  generalize driverRun K ops = s at herr hrep ⊢
  have hout := vfsWrite_outcome hrep env buf (s.fPos file)
  simp only [DriverState.exec]
  generalize vfsWrite K env buf (s.fPos file) s.dev = r at herr hout ⊢
  cases hout with
  | @refused e' dev' hcause hrep' hbuffer hrec =>
      refine ⟨fun _ => hcause, fun _ => ⟨?_, congrArg Records.pending hrec, ?_⟩⟩
      · rw [hrep'.commands_eq, hrep.commands_eq]
        exact congrArg (fun r => r.done.rtake 10) hrec
      · exact Function.update_eq_self file s.fPos
  | @dropped dev' hlock halloc hcopy hne hrep' hbuffer hrec =>
      refine ⟨fun hsame => absurd ?_ hne, ?_⟩
      · exact hsame.2.1.symm.trans (congrArg Records.pending hrec)
      · rintro (hint | halloc' | hnil)
        · rw [hlock] at hint
          cases hint
        · exact absurd halloc' halloc
        · exact absurd hnil hne
  | accepted => cases herr

/-- An interrupted lock attempt with bytes pending.
Source: `main.c`, `aesd_write`
Kind: N+ -/
theorem failed_write_atomic_interrupted :
    let s := driverRun .pages4K [.write 0 .undisturbed [97, 98]]
    (s.exec .pages4K (.write 1 ⟨true, .moved, fun _ => 0, 0⟩ [99])).dev.pending = s.dev.pending :=
  ((failed_write_atomic_iff .pages4K [.write 0 .undisturbed [97, 98]] 1
    ⟨true, .moved, fun _ => 0, 0⟩ [99] .ERESTARTSYS rfl).mpr (Or.inl rfl)).2.1

/-- Failed writes are not atomic in general: `"ab"` is acknowledged and pending, the next write
grows the block and fails to copy its byte, and `"ab"` is gone.
Source: `main.c`, `aesd_write`
Kind: N− -/
theorem failed_write_drops_pending :
    ¬ ∀ (K : KernelLimits) (ops : List DriverOp) (file : ℕ) (env : WriteEnv) (buf : List UInt8)
      (e : Errno),
      (vfsWrite K env buf ((driverRun K ops).fPos file) (driverRun K ops).dev).1 = .error e →
      ((driverRun K ops).exec K (.write file env buf)).dev.commands =
          (driverRun K ops).dev.commands ∧
        ((driverRun K ops).exec K (.write file env buf)).dev.pending =
          (driverRun K ops).dev.pending ∧
        ((driverRun K ops).exec K (.write file env buf)).fPos = (driverRun K ops).fPos := by
  intro h
  have hsame := h .pages4K [.write 0 .undisturbed [97, 98]] 0 ⟨false, .moved, fun _ => 0, 1⟩ [99]
    .EFAULT rfl
  exact absurd hsame.2.1 (by decide)

/-! ### What a write returns -/

/-- Sum a number of each call along a run.
Source: `main.c`, `aesd_write`
Kind: D -/
def totalAlong (K : KernelLimits) (f : DriverState → DriverOp → ℕ) : DriverState → List DriverOp → ℕ
  | _, [] => 0
  | s, op :: ops => f s op + totalAlong K f (s.exec K op) ops

/-- Every call of a run has a property in the state it is made in.
Source: `main.c`, `aesd_write`
Kind: D -/
def HoldsAlong (K : KernelLimits) (P : DriverState → DriverOp → Prop) :
    DriverState → List DriverOp → Prop
  | _, [] => True
  | s, op :: ops => P s op ∧ HoldsAlong K P (s.exec K op) ops

/-- The value a write through the file returns, when it succeeds.
Source: `main.c`, `aesd_write`
Kind: D -/
def DriverOp.returned (K : KernelLimits) (file : ℕ) (s : DriverState) : DriverOp → ℕ
  | .write f env buf =>
      if f = file then (vfsWrite K env buf (s.fPos f) s.dev).1.toOption.getD 0 else 0
  | _ => 0

/-- The number of bytes a write through the file is given.
Source: `main.c`, `aesd_write`
Kind: D -/
def DriverOp.submitted (file : ℕ) : DriverOp → ℕ
  | .write f _ buf => if f = file then buf.length else 0
  | _ => 0

/-- The call is not a write through the file that fails.
Source: `main.c`, `aesd_write`
Kind: D -/
def DriverOp.SucceedsOn (K : KernelLimits) (file : ℕ) (s : DriverState) : DriverOp → Prop
  | .write f env buf => f = file → (vfsWrite K env buf (s.fPos f) s.dev).1.isOk = true
  | _ => True

/-- The call is not a write through the file that completes an entry others have begun.
Source: `main.c`, `aesd_write`
Kind: D -/
def DriverOp.CompletesOwn (file : ℕ) (s : DriverState) : DriverOp → Prop
  | .write f _ buf => f = file → newline ∉ buf ∨ s.dev.pending = []
  | _ => True

section accounting

variable {K : KernelLimits} {s : DriverState} {file : ℕ}

/-- The value a successful write returns, and how far it moves the position.
Source: `main.c`, `aesd_write`
Kind: L -/
theorem vfsWrite_returned (hrep : Represents K s.dev) {env : WriteEnv} {buf : List UInt8} {n : ℕ}
    (hok : (vfsWrite K env buf (s.fPos file) s.dev).1 = .ok n) :
    n = buf.length + (if newline ∈ buf then s.dev.pending.length else 0) ∧
      (s.exec K (.write file env buf)).fPos file = s.fPos file + n := by
  have hout := vfsWrite_outcome hrep env buf (s.fPos file)
  simp only [DriverState.exec, Function.update_self]
  generalize vfsWrite K env buf (s.fPos file) s.dev = r at hout hok ⊢
  cases hout with
  | refused => cases hok
  | dropped => cases hok
  | accepted _ halloc _ hn _ _ =>
      cases hok
      rw [take_maxRwCount halloc] at hn
      refine ⟨?_, rfl⟩
      rw [hn]
      split_ifs with hnl
      · exact Nat.add_comm _ _
      · rfl

/-- What a successful write returns is at least what it was given, and equal to it exactly when the
write completes no entry that others have begun.
Source: `main.c`, `aesd_write`
Kind: L -/
theorem DriverOp.returned_iff (hrep : Represents K s.dev) {op : DriverOp}
    (hok : op.SucceedsOn K file s) :
    op.submitted file ≤ op.returned K file s ∧
      (op.returned K file s = op.submitted file ↔ op.CompletesOwn file s) := by
  cases op with
  | openFile f => exact ⟨le_rfl, iff_of_true rfl trivial⟩
  | read f env count => exact ⟨le_rfl, iff_of_true rfl trivial⟩
  | ioctl f env cmd => exact ⟨le_rfl, iff_of_true rfl trivial⟩
  | llseek f interrupted offset whence => exact ⟨le_rfl, iff_of_true rfl trivial⟩
  | write f env buf =>
      simp only [DriverOp.submitted, DriverOp.returned, DriverOp.CompletesOwn]
      by_cases hf : f = file
      · subst hf
        have hsome := hok rfl
        cases hres : (vfsWrite K env buf (s.fPos f) s.dev).1 with
        | error e =>
            rw [hres] at hsome
            cases hsome
        | ok n =>
            obtain ⟨hn, -⟩ := vfsWrite_returned hrep hres
            simp only [if_true, Except.toOption, Option.getD_some, true_imp_iff]
            rw [hn]
            split_ifs with hnl
            · refine ⟨Nat.le_add_right _ _, ?_⟩
              rw [Nat.add_eq_left, List.length_eq_zero_iff]
              exact ⟨Or.inr, fun h => h.resolve_left (not_not.mpr hnl)⟩
            · exact ⟨le_rfl, iff_of_true rfl (Or.inl hnl)⟩
      · simp [hf]

/-- Over a run, what the writes through a file return adds up to what they were given exactly when
each of them returned what it was given.
Source: `main.c`, `aesd_write`
Kind: L -/
theorem total_returned_iff : ∀ (ops : List DriverOp) {s : DriverState}, Represents K s.dev →
    HoldsAlong K (DriverOp.SucceedsOn K file) s ops →
    totalAlong K (fun _ => DriverOp.submitted file) s ops ≤
        totalAlong K (DriverOp.returned K file) s ops ∧
      (totalAlong K (DriverOp.returned K file) s ops =
          totalAlong K (fun _ => DriverOp.submitted file) s ops ↔
        HoldsAlong K (DriverOp.CompletesOwn file) s ops)
  | [], s, _, _ => ⟨le_rfl, iff_of_true rfl trivial⟩
  | op :: ops, s, hrep, hok => by
      obtain ⟨hle, hiff⟩ := DriverOp.returned_iff hrep hok.1
      obtain ⟨hle', hiff'⟩ := total_returned_iff ops (DriverState.exec_represents hrep op) hok.2
      simp only [totalAlong, HoldsAlong]
      rw [← hiff, ← hiff']
      omega

end accounting

/-- **When a write returns what it was given.** In every reachable state, a write that succeeds
returns the number of bytes it was given, and moves the position by it, exactly when it holds no
newline or nothing was pending; and from every reachable state, whatever else is called in between,
the values returned by the writes through one file, all of which succeed, add up to the number of
bytes given to them exactly when each of these writes is of that kind.
Source: `main.c`, `aesd_write`
Kind: P -/
theorem write_accounting_iff (K : KernelLimits) (before : List DriverOp) (file : ℕ) :
    let s := driverRun K before
    (∀ (env : WriteEnv) (buf : List UInt8) (n : ℕ),
      (vfsWrite K env buf (s.fPos file) s.dev).1 = .ok n →
      ((n = buf.length ∧
          (s.exec K (.write file env buf)).fPos file = s.fPos file + buf.length) ↔
        newline ∉ buf ∨ s.dev.pending = [])) ∧
    ∀ ops, HoldsAlong K (DriverOp.SucceedsOn K file) s ops →
      (totalAlong K (DriverOp.returned K file) s ops =
          totalAlong K (fun _ => DriverOp.submitted file) s ops ↔
        HoldsAlong K (DriverOp.CompletesOwn file) s ops) := by
  intro s
  have hrep : Represents K s.dev := represents_driverRun K before
  refine ⟨?_, fun ops hok => (total_returned_iff ops hrep hok).2⟩
  intro env buf n hok
  obtain ⟨hn, hmove⟩ := vfsWrite_returned hrep hok
  rw [hmove]
  split_ifs at hn with hnl
  · rw [← List.length_eq_zero_iff]
    constructor
    · rintro ⟨hcount, -⟩
      right
      omega
    · intro hcase
      have hzero := hcase.resolve_left (not_not.mpr hnl)
      omega
  · refine iff_of_true ⟨hn, ?_⟩ (Or.inl hnl)
    rw [hn, Nat.add_zero]

/-- A write does not return what it was given in general: `"a"` is pending, and the write of
`"b\n"` returns three.
Source: `main.c`, `aesd_write`
Kind: N− -/
theorem write_returns_whole_entry :
    ¬ ∀ (K : KernelLimits) (before : List DriverOp) (file : ℕ) (env : WriteEnv) (buf : List UInt8)
      (n : ℕ),
      (vfsWrite K env buf ((driverRun K before).fPos file) (driverRun K before).dev).1 = .ok n →
      n = buf.length ∧ ((driverRun K before).exec K (.write file env buf)).fPos file =
        (driverRun K before).fPos file + buf.length := by
  intro h
  have hcount := (h .pages4K [.write 0 .undisturbed [97]] 0 .undisturbed [98, 10] 3 rfl).1
  exact absurd hcount (by decide)

end Aesd.Driver
