import Aesd.Driver.CharDevice
import Aesd.Lib.Mutex

/-!
# The driver's use of `dev->lock` (`aesd-char-driver/main.c`)

The file operations once more, statement by statement (`Aesd.Lib.Mutex`): every lock attempt, every
unlock, every access to `dev->buffer` and `dev->current_write_entry`, and every call that works on
the kernel's heap, which `dev->lock` does not guard. The two guarded fields are had by an access
only; a call on the heap is given the heap and nothing else. The `goto`s to the label before
`mutex_unlock` are the returns of the code between the two.

* `Locked.computes_aesdWriteSection` and its like — what the code under the lock does;
* `lock_discipline` — every call, whatever its exit, makes every access and its unlock while it holds
  the lock and returns holding nothing, and does what the atomic operation of
  `Aesd.Driver.CharDevice` does.
-/

namespace Aesd.Driver

open Aesd.Lib

namespace Locked

open Locking

/-! ### The shared fields -/

/-- `dev->lock` does not guard the kernel's heap.
Source: `main.c`
Kind: D -/
instance : Unguarded AesdDev (Heap UInt8) where
  part := AesdDev.heap
  put heap dev := { dev with heap := heap }

/-- Code of the file operations.
Source: `main.c`
Kind: D -/
abbrev DevCode (α : Type) : Type 1 := Locking AesdDev (Heap UInt8) α

/-- A read of `dev->buffer`.
Source: `main.c`
Kind: D -/
def buffer : DevCode AesdCircularBuffer := access AesdDev.buffer

/-- A read of `dev->current_write_entry`.
Source: `main.c`
Kind: D -/
def currentWriteEntry : DevCode AesdBufferEntry := access AesdDev.currentWriteEntry

/-- An assignment to `dev->current_write_entry.buffptr`.
Source: `main.c`
Kind: D -/
def setBuffptr (p : Ptr) : DevCode Unit :=
  update fun dev =>
    ((), { dev with currentWriteEntry := { dev.currentWriteEntry with buffptr := p } })

/-- An assignment to `dev->current_write_entry.size`.
Source: `main.c`
Kind: D -/
def setSize (n : ℕ) : DevCode Unit :=
  update fun dev => ((), { dev with currentWriteEntry := { dev.currentWriteEntry with size := n } })

/-- A call that works on the kernel's heap only.
Source: `main.c`
Kind: D -/
def onHeap {α : Type} (f : Heap UInt8 → α × Heap UInt8) : DevCode α := unguarded f

/-- `kfree`.
Source: `main.c`
Kind: D -/
def kfree (p : Ptr) : DevCode Unit := onHeap fun h => ((), h.free p)

/-- `copy_to_user` from `offset` bytes into a block: the number of bytes not copied, and the
bytes.
Source: `main.c`, `aesd_read`
Kind: D -/
def copyToUser (src : Ptr) (offset n uncopied : ℕ) : DevCode (ℕ × List UInt8) :=
  onHeap fun h => ((notCopied uncopied n, ((h.load src).drop offset).take n), h)

/-- `memchr` over the bytes of `dev->current_write_entry`.
Source: `main.c`, `aesd_write`
Kind: D -/
def newlinePending : DevCode Bool := access fun dev => decide (newline ∈ dev.pending)

/-- `aesd_circular_buffer_add_entry` on `dev->buffer`; the ghost keeps the contents of the entry.
Source: `aesd-circular-buffer.c`, `aesd_circular_buffer_add_entry`
Kind: D -/
def aesdCircularBufferAddEntry (entry : AesdBufferEntry) : DevCode Ptr :=
  update fun dev =>
    let (removed, buffer) := Driver.aesdCircularBufferAddEntry dev.buffer entry
    (removed, { dev with buffer := buffer, added := dev.added ++ [dev.bytesOf entry] })

/-! ### `aesd_write` -/

/-- The first piece of an entry goes to a new block.
Source: `main.c`, `aesd_write`, the branch `current_write_entry.buffptr == NULL`
Kind: D -/
def aesdWriteFirst (K : KernelLimits) (env : WriteEnv) (buf : List UInt8) :
    DevCode (Except Errno Unit) := do
  setBuffptr (← onHeap (kzalloc K env.alloc buf.length))
  if (← currentWriteEntry).buffptr = .null then
    return .error .ENOMEM
  let left ← onHeap (copyFromUser (← currentWriteEntry).buffptr 0 buf env.uncopied)
  if left ≠ 0 then
    kfree (← currentWriteEntry).buffptr
    setBuffptr .null
    setSize 0
    return .error .EFAULT
  setSize buf.length
  return .ok ()

/-- A further piece of an entry goes behind the pending bytes.
Source: `main.c`, `aesd_write`, the `else` branch
Kind: D -/
def aesdWriteGrow (K : KernelLimits) (env : WriteEnv) (buf : List UInt8) :
    DevCode (Except Errno Unit) := do
  let newBuffptr ← onHeap (krealloc K env.alloc env.junk (← currentWriteEntry).buffptr
    (SizeT.add (← currentWriteEntry).size buf.length))
  if newBuffptr = .null then
    return .error .ENOMEM
  setBuffptr newBuffptr
  let left ← onHeap (copyFromUser (← currentWriteEntry).buffptr (← currentWriteEntry).size buf
    env.uncopied)
  if left ≠ 0 then
    kfree (← currentWriteEntry).buffptr
    setBuffptr .null
    setSize 0
    return .error .EFAULT
  setSize (SizeT.add (← currentWriteEntry).size buf.length)
  return .ok ()

/-- An entry that has its newline moves to the ring.
Source: `main.c`, `aesd_write`, from `memchr` on
Kind: D -/
def aesdWriteCommit (count : ℕ) : DevCode ℕ := do
  if ← newlinePending then
    let entry : AesdBufferEntry :=
      ⟨(← currentWriteEntry).buffptr, (← currentWriteEntry).size⟩
    let removed ← aesdCircularBufferAddEntry entry
    if removed ≠ .null then
      kfree removed
    setBuffptr .null
    setSize 0
    return entry.size
  return count

/-- The code between the lock and the label `write_cleanup`.
Source: `main.c`, `aesd_write`
Kind: D -/
def aesdWriteSection (K : KernelLimits) (env : WriteEnv) (buf : List UInt8) (fPos : ℤ) :
    DevCode (Except Errno ℕ × ℤ) := do
  let result ←
    if (← currentWriteEntry).buffptr = .null then aesdWriteFirst K env buf
    else aesdWriteGrow K env buf
  match result with
  | .error e => return (.error e, fPos)
  | .ok () =>
      let retval ← aesdWriteCommit buf.length
      return (.ok retval, fPos + retval)

/-- The results are the returned value and the file position after the call.
Source: `main.c`, `aesd_write`
Kind: D -/
def aesdWrite (K : KernelLimits) (env : WriteEnv) (buf : List UInt8) (fPos : ℤ) :
    DevCode (Except Errno ℕ × ℤ) := do
  if ← lockInterruptible env.interrupted then
    return (.error .ERESTARTSYS, fPos)
  let result ← aesdWriteSection K env buf fPos
  unlock
  return result

/-! ### `aesd_read` -/

/-- The `do … while` of the lookup, as `findLoop`.
Source: `aesd-circular-buffer.c`, `aesd_circular_buffer_find_entry_offset_for_fpos`
Kind: D -/
def findLoop (charOffset : ℕ) : ℕ → ℕ → Fin aesdcharMaxWriteOperationsSupported →
    DevCode (Option (Fin aesdcharMaxWriteOperationsSupported × ℕ))
  | 0, _, _ => .fail
  | fuel + 1, runningSize, index => do
      if charOffset < SizeT.add runningSize ((← buffer).entry index).size then
        return some (index, SizeT.sub charOffset runningSize)
      let runningSize := SizeT.add runningSize ((← buffer).entry index).size
      let index := rotate index 1
      if (index ≠ (← buffer).inOffs ∨ (← buffer).full = true) ∧ index ≠ (← buffer).outOffs then
        findLoop charOffset fuel runningSize index
      else
        return none

/-- The search for the entry at an offset, access by access.
Source: `aesd-circular-buffer.c`, `aesd_circular_buffer_find_entry_offset_for_fpos`
Kind: D -/
def aesdCircularBufferFindEntryOffsetForFpos (charOffset : ℕ) :
    DevCode (Option (Fin aesdcharMaxWriteOperationsSupported × ℕ)) := do
  findLoop charOffset aesdcharMaxWriteOperationsSupported 0 (← buffer).outOffs

/-- The code between the lock and the label `read_cleanup`.
Source: `main.c`, `aesd_read`
Kind: D -/
def aesdReadSection (env : ReadEnv) (count : ℕ) (fPos : ℤ) :
    DevCode (Except Errno (List UInt8) × ℤ) := do
  match ← aesdCircularBufferFindEntryOffsetForFpos (sizeOfLoff fPos) with
  | none => return (.ok [], fPos)
  | some (index, entryOffsetByte) =>
      if entryOffsetByte ≥ ((← buffer).entry index).size then
        return (.ok [], fPos)
      let bytesToCopy := min count (((← buffer).entry index).size - entryOffsetByte)
      let (left, bytes) ←
        copyToUser ((← buffer).entry index).buffptr entryOffsetByte bytesToCopy env.uncopied
      if left ≠ 0 then
        return (.error .EFAULT, fPos)
      return (.ok bytes, fPos + bytesToCopy)

/-- The results are the bytes delivered and the file position after the call.
Source: `main.c`, `aesd_read`
Kind: D -/
def aesdRead (env : ReadEnv) (count : ℕ) (fPos : ℤ) :
    DevCode (Except Errno (List UInt8) × ℤ) := do
  if ← lockInterruptible env.interrupted then
    return (.error .ERESTARTSYS, fPos)
  let result ← aesdReadSection env count fPos
  unlock
  return result

/-! ### `aesd_ioctl` -/

/-- The sum of the sizes before the slot that the command names, access by access.
Source: `main.c`, `aesd_ioctl`, the `AESD_CIRCULAR_BUFFER_FOREACH` loop
Kind: D -/
def ioctlCharOffset (seekto : AesdSeekto) :
    List (Fin aesdcharMaxWriteOperationsSupported) → ℕ → DevCode ℕ
  | [], charOffset => return charOffset
  | index :: rest, charOffset => do
      if index.val = seekto.writeCmd.toNat then
        return SizeT.add charOffset seekto.writeCmdOffset.toNat
      ioctlCharOffset seekto rest (SizeT.add charOffset ((← buffer).entry index).size)

/-- A command that passes the first check names a slot.
Source: `main.c`, `aesd_ioctl`
Kind: L -/
theorem slot_lt {seekto : AesdSeekto}
    (hcmd : ¬ seekto.writeCmd.toNat ≥ aesdcharMaxWriteOperationsSupported) :
    seekto.writeCmd.toNat < aesdcharMaxWriteOperationsSupported := Nat.lt_of_not_le hcmd

/-- The code between the lock and the label `aesd_ioctl_cleanup`.
Source: `main.c`, `aesd_ioctl`
Kind: D -/
def aesdIoctlSection (seekto : AesdSeekto) (fPos : ℤ) :
    DevCode (Except Errno Unit × ℤ) := do
  if hcmd : seekto.writeCmd.toNat ≥ aesdcharMaxWriteOperationsSupported then
    return (.error .EINVAL, fPos)
  else
    let slot : Fin aesdcharMaxWriteOperationsSupported := ⟨_, slot_lt hcmd⟩
    if ((← buffer).entry slot).buffptr = .null then
      return (.error .EINVAL, fPos)
    if seekto.writeCmdOffset.toNat ≥ ((← buffer).entry slot).size then
      return (.error .EINVAL, fPos)
    let charOffset ← ioctlCharOffset seekto aesdCircularBufferForeach 0
    return (.ok (), loffOfSize charOffset)

/-- The results are the returned value and the file position after the call.
Source: `main.c`, `aesd_ioctl`
Kind: D -/
def aesdIoctl (env : IoctlEnv) (cmd : UInt32) (fPos : ℤ) :
    DevCode (Except Errno Unit × ℤ) := do
  if iocType cmd ≠ aesdIocMagic then
    return (.error .ENOTTY, fPos)
  if iocNr cmd > aesdcharIocMaxnr then
    return (.error .ENOTTY, fPos)
  if cmd = aesdcharIocseekto then
    match env.arg with
    | none => return (.error .EFAULT, fPos)
    | some seekto =>
        if ← lockInterruptible env.interrupted then
          return (.error .ERESTARTSYS, fPos)
        let result ← aesdIoctlSection seekto fPos
        unlock
        return result
  else
    return (.error .ENOTTY, fPos)

/-! ### `aesd_llseek` -/

/-- The loop of `aesd_circular_buffer_size`.
Source: `main.c`, `aesd_circular_buffer_size`
Kind: D -/
def sizeLoop : List (Fin aesdcharMaxWriteOperationsSupported) → ℕ → DevCode ℕ
  | [], size => return size
  | index :: rest, size => do sizeLoop rest (SizeT.add size ((← buffer).entry index).size)

/-- The sum of the sizes of the slots, access by access.
Source: `main.c`, `aesd_circular_buffer_size`
Kind: D -/
def aesdCircularBufferSize : DevCode ℤ := do
  return loffOfSize (← sizeLoop aesdCircularBufferForeach 0)

/-- The code between the lock and the unlock.
Source: `main.c`, `aesd_llseek`
Kind: D -/
def aesdLlseekSection (offset whence fPos : ℤ) : DevCode (Except Errno ℤ × ℤ) := do
  return fixedSizeLlseek offset whence (← aesdCircularBufferSize) fPos

/-- The results are the returned value and the file position after the call.
Source: `main.c`, `aesd_llseek`
Kind: D -/
def aesdLlseek (interrupted : Bool) (offset whence fPos : ℤ) :
    DevCode (Except Errno ℤ × ℤ) := do
  if ← lockInterruptible interrupted then
    return (.error .ERESTARTSYS, fPos)
  let newpos ← aesdLlseekSection offset whence fPos
  unlock
  return newpos

/-! ### What stands between the lock and the unlock -/

section within

-- the longest section has more accesses than the default bound on instances allows
set_option synthInstance.maxSize 1000

/-- A read of the buffer is an access.
Source: `main.c`
Kind: L -/
instance : Within buffer := Within.access _

/-- A read of the pending entry is an access.
Source: `main.c`
Kind: L -/
instance : Within currentWriteEntry := Within.access _

/-- So is an assignment to its buffer.
Source: `main.c`
Kind: L -/
instance (p : Ptr) : Within (setBuffptr p) := Within.update _

/-- And one to its size.
Source: `main.c`
Kind: L -/
instance (n : ℕ) : Within (setSize n) := Within.update _

/-- A call on the heap is work.
Source: `main.c`
Kind: L -/
instance {α : Type} (f : Heap UInt8 → α × Heap UInt8) : Within (onHeap f) :=
  Within.unguarded _

/-- So is `kfree`.
Source: `main.c`
Kind: L -/
instance (p : Ptr) : Within (kfree p) := inferInstanceAs (Within (onHeap _))

/-- And `copy_to_user`.
Source: `main.c`, `aesd_read`
Kind: L -/
instance (src : Ptr) (offset n uncopied : ℕ) : Within (copyToUser src offset n uncopied) :=
  inferInstanceAs (Within (onHeap _))

/-- The search for a newline is an access.
Source: `main.c`
Kind: L -/
instance : Within newlinePending := Within.access _

/-- So is the addition of an entry.
Source: `aesd-circular-buffer.c`, `aesd_circular_buffer_add_entry`
Kind: L -/
instance (entry : AesdBufferEntry) : Within (aesdCircularBufferAddEntry entry) :=
  Within.update _

/-- The first part of an entry is gathered without a lock or an unlock.
Source: `main.c`, `aesd_write`
Kind: L -/
instance (K : KernelLimits) (env : WriteEnv) (buf : List UInt8) :
    Within (aesdWriteFirst K env buf) := Within.bind _ _

/-- So are the later ones.
Source: `main.c`, `aesd_write`
Kind: L -/
instance (K : KernelLimits) (env : WriteEnv) (buf : List UInt8) :
    Within (aesdWriteGrow K env buf) := Within.bind _ _

/-- So is a complete entry added.
Source: `main.c`, `aesd_write`
Kind: L -/
instance (count : ℕ) : Within (aesdWriteCommit count) := Within.bind _ _

/-- The whole section of a write. Its matches are followed by hand.
Source: `main.c`, `aesd_write`
Kind: L -/
instance (K : KernelLimits) (env : WriteEnv) (buf : List UInt8) (fPos : ℤ) :
    Within (aesdWriteSection K env buf fPos) :=
  @Within.bind _ _ _ _ _ _ _ fun _ => @Within.ite _ _ _ _ _ _ _
    (@Within.bind _ _ _ _ _ _ _ fun
      | .error _ => Within.pure _
      | .ok () => Within.bind _ _)
    (@Within.bind _ _ _ _ _ _ _ fun
      | .error _ => Within.pure _
      | .ok () => Within.bind _ _)

/-- The search through the ring, turn by turn.
Source: `aesd-circular-buffer.c`, `aesd_circular_buffer_find_entry_offset_for_fpos`
Kind: L -/
instance withinFindLoop (charOffset : ℕ) : (fuel runningSize : ℕ) →
    (index : Fin aesdcharMaxWriteOperationsSupported) →
    Within (findLoop charOffset fuel runningSize index)
  | 0, _, _ => Within.fail
  | fuel + 1, _, _ =>
      have := withinFindLoop charOffset fuel
      Within.bind _ _

/-- The whole search.
Source: `aesd-circular-buffer.c`, `aesd_circular_buffer_find_entry_offset_for_fpos`
Kind: L -/
instance (charOffset : ℕ) : Within (aesdCircularBufferFindEntryOffsetForFpos charOffset) :=
  Within.bind _ _

/-- The whole section of a read.
Source: `main.c`, `aesd_read`
Kind: L -/
instance (env : ReadEnv) (count : ℕ) (fPos : ℤ) : Within (aesdReadSection env count fPos) :=
  @Within.bind _ _ _ _ _ _ _ fun
    | none => Within.pure _
    | some (_, _) => Within.bind _ _

/-- The sum of the slots before one, turn by turn.
Source: `main.c`, `aesd_ioctl`
Kind: L -/
instance withinIoctlCharOffset (seekto : AesdSeekto) :
    (slots : List (Fin aesdcharMaxWriteOperationsSupported)) → (charOffset : ℕ) →
    Within (ioctlCharOffset seekto slots charOffset)
  | [], _ => Within.pure _
  | _ :: rest, _ =>
      have := withinIoctlCharOffset seekto rest
      Within.ite _ _

/-- The whole section of a seek.
Source: `main.c`, `aesd_ioctl`
Kind: L -/
instance (seekto : AesdSeekto) (fPos : ℤ) : Within (aesdIoctlSection seekto fPos) :=
  Within.dite _ _

/-- The sum of all slots, turn by turn.
Source: `main.c`, `aesd_llseek`
Kind: L -/
instance withinSizeLoop : (slots : List (Fin aesdcharMaxWriteOperationsSupported)) → (size : ℕ) →
    Within (sizeLoop slots size)
  | [], _ => Within.pure _
  | _ :: rest, _ =>
      have := withinSizeLoop rest
      Within.bind _ _

/-- The whole sum.
Source: `main.c`, `aesd_llseek`
Kind: L -/
instance : Within aesdCircularBufferSize := Within.bind _ _

/-- The whole section of a reposition.
Source: `main.c`, `aesd_llseek`
Kind: L -/
instance (offset whence fPos : ℤ) : Within (aesdLlseekSection offset whence fPos) :=
  Within.bind _ _

end within

/-! ### What the code under the lock does -/

section sections

variable {env : WriteEnv} {dev : AesdDev}

/-- What a read of the buffer finds.
Source: none: infrastructure
Kind: L -/
@[simp] theorem run_buffer : buffer.run dev = some (dev.buffer, dev) :=
  run_access _ dev

/-- What a read of the pending entry finds.
Source: none: infrastructure
Kind: L -/
@[simp] theorem run_currentWriteEntry :
    currentWriteEntry.run dev = some (dev.currentWriteEntry, dev) :=
  run_access _ dev

/-- What an assignment to its buffer leaves.
Source: none: infrastructure
Kind: L -/
@[simp] theorem run_setBuffptr (p : Ptr) : (setBuffptr p).run dev =
    some ((), { dev with currentWriteEntry := ⟨p, dev.currentWriteEntry.size⟩ }) :=
  run_update _ dev

/-- What an assignment to its size leaves.
Source: none: infrastructure
Kind: L -/
@[simp] theorem run_setSize (n : ℕ) : (setSize n).run dev =
    some ((), { dev with currentWriteEntry := ⟨dev.currentWriteEntry.buffptr, n⟩ }) :=
  run_update _ dev

/-- A call on the heap leaves the rest of the device.
Source: none: infrastructure
Kind: L -/
@[simp] theorem run_onHeap {α : Type} (f : Heap UInt8 → α × Heap UInt8) :
    (onHeap f).run dev =
      some ((f dev.heap).1, { dev with heap := (f dev.heap).2 }) :=
  run_unguarded _ dev

/-- What `kfree` leaves.
Source: none: infrastructure
Kind: L -/
@[simp] theorem run_kfree (p : Ptr) : (kfree p).run dev =
    some ((), { dev with heap := dev.heap.free p }) := run_onHeap _

/-- What the search for a newline finds.
Source: `main.c`, `aesd_write`
Kind: L -/
@[simp] theorem run_newlinePending : newlinePending.run dev =
    some (decide (newline ∈ dev.pending), dev) := run_access _ dev

/-- What `copy_to_user` copies, and how much of it fails.
Source: `main.c`, `aesd_read`
Kind: L -/
@[simp] theorem run_copyToUser (src : Ptr) (offset n uncopied : ℕ) :
    (copyToUser src offset n uncopied).run dev =
      some ((notCopied uncopied n, ((dev.heap.load src).drop offset).take n), dev) :=
  run_onHeap _

/-- What the addition of an entry leaves.
Source: `aesd-circular-buffer.c`, `aesd_circular_buffer_add_entry`
Kind: L -/
@[simp] theorem run_aesdCircularBufferAddEntry (entry : AesdBufferEntry) :
    (aesdCircularBufferAddEntry entry).run dev =
      some ((Driver.aesdCircularBufferAddEntry dev.buffer entry).1,
        { dev with
          buffer := (Driver.aesdCircularBufferAddEntry dev.buffer entry).2
          added := dev.added ++ [dev.bytesOf entry] }) := run_update _ dev

/-- The first part of an entry is gathered as in one step.
Source: `main.c`, `aesd_write`
Kind: L -/
theorem computes_aesdWriteFirst (K : KernelLimits) (env : WriteEnv) (buf : List UInt8) :
    Computes (aesdWriteFirst K env buf) (Driver.aesdWriteFirst K env buf) := by
  intro dev
  by_cases hnull : (kzalloc K env.alloc buf.length dev.heap).1 = .null
  · simp [aesdWriteFirst, Driver.aesdWriteFirst, hnull]
  · by_cases hleft : (copyFromUser (kzalloc K env.alloc buf.length dev.heap).1 0 buf env.uncopied
        (kzalloc K env.alloc buf.length dev.heap).2).1 = 0
    · simp [aesdWriteFirst, Driver.aesdWriteFirst, hnull, hleft]
    · simp [aesdWriteFirst, Driver.aesdWriteFirst, hnull, hleft]

/-- So are the later ones.
Source: `main.c`, `aesd_write`
Kind: L -/
theorem computes_aesdWriteGrow (K : KernelLimits) (env : WriteEnv) (buf : List UInt8) :
    Computes (aesdWriteGrow K env buf) (Driver.aesdWriteGrow K env buf) := by
  intro dev
  by_cases hnull : (krealloc K env.alloc env.junk dev.currentWriteEntry.buffptr
      (SizeT.add dev.currentWriteEntry.size buf.length) dev.heap).1 = .null
  · simp [aesdWriteGrow, Driver.aesdWriteGrow, hnull]
  · by_cases hleft : (copyFromUser (krealloc K env.alloc env.junk dev.currentWriteEntry.buffptr
        (SizeT.add dev.currentWriteEntry.size buf.length) dev.heap).1 dev.currentWriteEntry.size buf
        env.uncopied (krealloc K env.alloc env.junk dev.currentWriteEntry.buffptr
        (SizeT.add dev.currentWriteEntry.size buf.length) dev.heap).2).1 = 0
    · simp [aesdWriteGrow, Driver.aesdWriteGrow, hnull, hleft]
    · simp [aesdWriteGrow, Driver.aesdWriteGrow, hnull, hleft]

/-- A complete entry is added as in one step.
Source: `main.c`, `aesd_write`
Kind: L -/
theorem computes_aesdWriteCommit (count : ℕ) :
    Computes (aesdWriteCommit count) (Driver.aesdWriteCommit count) := by
  intro dev
  have hbytes : dev.bytesOf ⟨dev.currentWriteEntry.buffptr, dev.currentWriteEntry.size⟩ =
      dev.pending := rfl
  by_cases hline : newline ∈ dev.pending
  · by_cases hremoved :
        (Driver.aesdCircularBufferAddEntry dev.buffer dev.currentWriteEntry).1 = .null
    · simp [aesdWriteCommit, Driver.aesdWriteCommit, hline, hremoved, hbytes]
    · simp [aesdWriteCommit, Driver.aesdWriteCommit, hline, hremoved, hbytes]
  · simp [aesdWriteCommit, Driver.aesdWriteCommit, hline]

/-- Under the lock `aesd_write` does what the atomic operation does when it is not interrupted.
Source: `main.c`, `aesd_write`
Kind: L -/
theorem computes_aesdWriteSection (K : KernelLimits) (buf : List UInt8) (fPos : ℤ)
    (hlocks : env.interrupted = false) :
    Computes (aesdWriteSection K env buf fPos) fun dev =>
      (((Driver.aesdWrite K env buf fPos dev).1, (Driver.aesdWrite K env buf fPos dev).2.1),
        (Driver.aesdWrite K env buf fPos dev).2.2) := by
  intro dev
  have hcommit : ∀ dev', (aesdWriteCommit buf.length).run dev' = _ :=
    computes_aesdWriteCommit buf.length
  by_cases hnull : dev.currentWriteEntry.buffptr = .null
  · have hfirst := computes_aesdWriteFirst K env buf dev
    cases hresult : (Driver.aesdWriteFirst K env buf dev).1 with
    | error e => simp [aesdWriteSection, Driver.aesdWrite, hlocks, hnull, hfirst, hresult]
    | ok u => simp [aesdWriteSection, Driver.aesdWrite, hlocks, hnull, hfirst, hresult, hcommit]
  · have hgrow := computes_aesdWriteGrow K env buf dev
    cases hresult : (Driver.aesdWriteGrow K env buf dev).1 with
    | error e => simp [aesdWriteSection, Driver.aesdWrite, hlocks, hnull, hgrow, hresult]
    | ok u => simp [aesdWriteSection, Driver.aesdWrite, hlocks, hnull, hgrow, hresult, hcommit]

/-- Every turn of the lookup runs under the lock.
Source: `aesd-circular-buffer.c`, `aesd_circular_buffer_find_entry_offset_for_fpos`
Kind: L -/
theorem run_findLoop (charOffset fuel runningSize : ℕ)
    (index : Fin aesdcharMaxWriteOperationsSupported) :
    (findLoop charOffset fuel runningSize index).run dev =
      (Driver.findLoop dev.buffer charOffset fuel runningSize index).map fun r =>
        (r, dev) := by
  induction fuel generalizing runningSize index with
  | zero => rfl
  | succ fuel ih =>
      rw [findLoop_succ]
      by_cases hfound : charOffset < SizeT.add runningSize (dev.buffer.entry index).size
      · simp [findLoop, hfound]
      · by_cases hgoes : (rotate index 1 ≠ dev.buffer.inOffs ∨ dev.buffer.full = true) ∧
            rotate index 1 ≠ dev.buffer.outOffs
        · rw [if_neg hfound, if_pos hgoes, ← ih]
          simp [findLoop, hfound, hgoes]
        · rw [if_neg hfound, if_neg hgoes]
          simp only [findLoop, run_bind, run_buffer, Option.bind_some, run_ite, if_neg hfound,
            if_neg hgoes]
          rfl

/-- The sum of the slots before one is that of the atomic operation.
Source: `main.c`, `aesd_ioctl`
Kind: L -/
theorem run_ioctlCharOffset (dev : AesdDev) (seekto : AesdSeekto)
    (slots : List (Fin aesdcharMaxWriteOperationsSupported)) (charOffset : ℕ) :
    (ioctlCharOffset seekto slots charOffset).run dev =
      some (Driver.ioctlCharOffset dev.buffer seekto slots charOffset, dev) := by
  induction slots generalizing charOffset with
  | nil => rfl
  | cons index rest ih =>
      by_cases hslot : index.val = seekto.writeCmd.toNat
      · simp [ioctlCharOffset, Driver.ioctlCharOffset, hslot]
      · simp [ioctlCharOffset, Driver.ioctlCharOffset, hslot, ih]

/-- The sum of all slots is that of the atomic operation.
Source: `main.c`, `aesd_llseek`
Kind: L -/
theorem run_sizeLoop (slots : List (Fin aesdcharMaxWriteOperationsSupported)) (size : ℕ) :
    (sizeLoop slots size).run dev =
      some (slots.foldl (fun size index => SizeT.add size (dev.buffer.entry index).size) size,
        dev) := by
  induction slots generalizing size with
  | nil => rfl
  | cons index rest ih => simp [sizeLoop, ih]

/-- The search finds what the atomic one finds.
Source: `aesd-circular-buffer.c`, `aesd_circular_buffer_find_entry_offset_for_fpos`
Kind: L -/
theorem run_aesdCircularBufferFindEntryOffsetForFpos (dev : AesdDev) (charOffset : ℕ) :
    (aesdCircularBufferFindEntryOffsetForFpos charOffset).run dev = some
      (Driver.aesdCircularBufferFindEntryOffsetForFpos dev.buffer charOffset, dev) := by
  unfold aesdCircularBufferFindEntryOffsetForFpos
  rw [run_bind, run_buffer]
  change (findLoop charOffset 10 0 dev.buffer.outOffs).run dev = _
  rw [run_findLoop, findLoop_eq_some]
  rfl

/-- Under the lock `aesd_read` does what the atomic operation does when it is not interrupted.
Source: `main.c`, `aesd_read`
Kind: L -/
theorem computes_aesdReadSection {env : ReadEnv} (count : ℕ) (fPos : ℤ)
    (hlocks : env.interrupted = false) :
    Computes (aesdReadSection env count fPos) fun dev =>
      (Driver.aesdRead env count fPos dev, dev) := by
  intro dev
  have hlookup := run_aesdCircularBufferFindEntryOffsetForFpos dev (sizeOfLoff fPos)
  cases hfind : Driver.aesdCircularBufferFindEntryOffsetForFpos dev.buffer (sizeOfLoff fPos) with
  | none => simp [aesdReadSection, Driver.aesdRead, hlocks, hlookup, hfind]
  | some found =>
      obtain ⟨index, offset⟩ := found
      by_cases hover : offset ≥ (dev.buffer.entry index).size
      · simp [aesdReadSection, Driver.aesdRead, hlocks, hlookup, hfind, hover]
      · by_cases hleft : notCopied env.uncopied
            (min count ((dev.buffer.entry index).size - offset)) = 0
        · simp [aesdReadSection, Driver.aesdRead, hlocks, hlookup, hfind, hover, hleft]
        · simp [aesdReadSection, Driver.aesdRead, hlocks, hlookup, hfind, hover, hleft]

/-- Under the lock `aesd_ioctl` does what the atomic operation does.
Source: `main.c`, `aesd_ioctl`
Kind: L -/
theorem computes_aesdIoctlSection (seekto : AesdSeekto) (fPos : ℤ) :
    Computes (aesdIoctlSection seekto fPos) fun dev => (aesdIoctlSeekto seekto fPos dev, dev) := by
  intro dev
  have hloop := run_ioctlCharOffset dev seekto aesdCircularBufferForeach 0
  by_cases hcmd : seekto.writeCmd.toNat ≥ aesdcharMaxWriteOperationsSupported
  · simp [aesdIoctlSection, aesdIoctlSeekto, hcmd]
  · by_cases hnull : (dev.buffer.entry ⟨_, slot_lt hcmd⟩).buffptr = .null
    · simp [aesdIoctlSection, aesdIoctlSeekto, hcmd, hnull]
    · by_cases hover : seekto.writeCmdOffset.toNat ≥
          (dev.buffer.entry ⟨_, slot_lt hcmd⟩).size
      · simp [aesdIoctlSection, aesdIoctlSeekto, hcmd, hnull, hover]
      · simp [aesdIoctlSection, aesdIoctlSeekto, hcmd, hnull, hover, hloop]

/-- Under the lock `aesd_llseek` does what the atomic operation does.
Source: `main.c`, `aesd_llseek`
Kind: L -/
theorem computes_aesdLlseekSection (offset whence fPos : ℤ) :
    Computes (aesdLlseekSection offset whence fPos) fun dev =>
      (fixedSizeLlseek offset whence (Driver.aesdCircularBufferSize dev.buffer) fPos, dev) := by
  intro dev
  simp [aesdLlseekSection, aesdCircularBufferSize, Driver.aesdCircularBufferSize, run_sizeLoop]

/-! ### The whole calls -/

/-- A whole write does what the atomic operation does.
Source: `main.c`, `aesd_write`
Kind: L -/
theorem run_aesdWrite (K : KernelLimits) (env : WriteEnv) (buf : List UInt8) (fPos : ℤ)
    (dev : AesdDev) :
    (aesdWrite K env buf fPos).run dev =
      some (((Driver.aesdWrite K env buf fPos dev).1, (Driver.aesdWrite K env buf fPos dev).2.1),
        (Driver.aesdWrite K env buf fPos dev).2.2) := by
  refine (run_section (computes_aesdWriteSection K buf fPos) _ dev).trans ?_
  cases hlocks : env.interrupted with
  | true => simp [Driver.aesdWrite, hlocks]
  | false => rfl

/-- So does a whole read.
Source: `main.c`, `aesd_read`
Kind: L -/
theorem run_aesdRead (env : ReadEnv) (count : ℕ) (fPos : ℤ) (dev : AesdDev) :
    (aesdRead env count fPos).run dev =
      some (Driver.aesdRead env count fPos dev, dev) := by
  refine (run_section (computes_aesdReadSection count fPos) _ dev).trans ?_
  cases hlocks : env.interrupted with
  | true => simp [Driver.aesdRead, hlocks]
  | false => rfl

/-- So does a whole ioctl, whatever its command.
Source: `main.c`, `aesd_ioctl`
Kind: L -/
theorem run_aesdIoctl (env : IoctlEnv) (cmd : UInt32) (fPos : ℤ) (dev : AesdDev) :
    (aesdIoctl env cmd fPos).run dev =
      some (Driver.aesdIoctl env cmd fPos dev, dev) := by
  unfold aesdIoctl Driver.aesdIoctl
  by_cases htype : iocType cmd ≠ aesdIocMagic
  · rw [if_pos htype, if_pos htype]
    rfl
  · rw [if_neg htype, if_neg htype]
    by_cases hnr : iocNr cmd > aesdcharIocMaxnr
    · rw [if_pos hnr, if_pos hnr]
      rfl
    · rw [if_neg hnr, if_neg hnr]
      by_cases hseek : cmd = aesdcharIocseekto
      · rw [if_pos hseek, if_pos hseek]
        cases env.arg with
        | none => rfl
        | some seekto =>
            refine (run_section (fun _ => computes_aesdIoctlSection seekto fPos) _ dev).trans ?_
            cases env.interrupted <;> rfl
      · rw [if_neg hseek, if_neg hseek]
        rfl

/-- So does a whole reposition.
Source: `main.c`, `aesd_llseek`
Kind: L -/
theorem run_aesdLlseek (interrupted : Bool) (offset whence fPos : ℤ) (dev : AesdDev) :
    (aesdLlseek interrupted offset whence fPos).run dev =
      some (Driver.aesdLlseek interrupted offset whence fPos dev, dev) := by
  refine (run_section (fun _ => computes_aesdLlseekSection offset whence fPos) _ dev).trans ?_
  cases interrupted <;> rfl

/-! ### Which statements the calls are made of -/

/-- A write keeps to the lock.
Source: `main.c`, `aesd_write`
Kind: L -/
theorem keeps_aesdWrite (K : KernelLimits) (env : WriteEnv) (buf : List UInt8) (fPos : ℤ)
    (dev : AesdDev) : (aesdWrite K env buf fPos).Keeps false dev :=
  keeps_section (computes_aesdWriteSection K buf fPos) _ dev

/-- So does a read.
Source: `main.c`, `aesd_read`
Kind: L -/
theorem keeps_aesdRead (env : ReadEnv) (count : ℕ) (fPos : ℤ) (dev : AesdDev) :
    (aesdRead env count fPos).Keeps false dev :=
  keeps_section (computes_aesdReadSection count fPos) _ dev

/-- So does an ioctl, which returns before the lock for a command it does not know.
Source: `main.c`, `aesd_ioctl`
Kind: L -/
theorem keeps_aesdIoctl (env : IoctlEnv) (cmd : UInt32) (fPos : ℤ) (dev : AesdDev) :
    (aesdIoctl env cmd fPos).Keeps false dev := by
  unfold aesdIoctl
  by_cases htype : iocType cmd ≠ aesdIocMagic
  · rw [if_pos htype]
    exact rfl
  rw [if_neg htype]
  by_cases hnr : iocNr cmd > aesdcharIocMaxnr
  · rw [if_pos hnr]
    exact rfl
  rw [if_neg hnr]
  by_cases hseek : cmd = aesdcharIocseekto
  · rw [if_pos hseek]
    cases env.arg with
    | none => exact rfl
    | some seekto => exact keeps_section (fun _ => computes_aesdIoctlSection seekto fPos) _ dev
  · rw [if_neg hseek]
    exact rfl

/-- So does a reposition.
Source: `main.c`, `aesd_llseek`
Kind: L -/
theorem keeps_aesdLlseek (interrupted : Bool) (offset whence fPos : ℤ) (dev : AesdDev) :
    (aesdLlseek interrupted offset whence fPos).Keeps false dev :=
  keeps_section (fun _ => computes_aesdLlseekSection offset whence fPos) _ dev

end sections

end Locked

/-- **The lock discipline of the driver.** Every call of the four operations, with any arguments, on
any device, whatever the lock attempt, the user copies and the allocator answer: it asks for the
lock only when it does not hold it, makes every access to `dev->buffer` and
`dev->current_write_entry` and its unlock while it holds it, and returns holding nothing, in
whatever state the lock finds the device; and its result and the device it leaves are those of the
atomic operation.
Source: `main.c`, `aesd_read`, `aesd_write`, `aesd_ioctl`, `aesd_llseek`
Kind: P -/
theorem lock_discipline (dev : AesdDev) :
    (∀ env count fPos, (Locked.aesdRead env count fPos).Keeps false dev ∧
      (Locked.aesdRead env count fPos).run dev = some (aesdRead env count fPos dev, dev)) ∧
    (∀ K env buf fPos, (Locked.aesdWrite K env buf fPos).Keeps false dev ∧
      ∃ result fPos' dev', aesdWrite K env buf fPos dev = (result, fPos', dev') ∧
        (Locked.aesdWrite K env buf fPos).run dev = some ((result, fPos'), dev')) ∧
    (∀ env cmd fPos, (Locked.aesdIoctl env cmd fPos).Keeps false dev ∧
      (Locked.aesdIoctl env cmd fPos).run dev = some (aesdIoctl env cmd fPos dev, dev)) ∧
    (∀ interrupted offset whence fPos,
      (Locked.aesdLlseek interrupted offset whence fPos).Keeps false dev ∧
      (Locked.aesdLlseek interrupted offset whence fPos).run dev =
        some (aesdLlseek interrupted offset whence fPos dev, dev)) := by
  refine ⟨?_, ?_, ?_, ?_⟩
  · intro env count fPos
    exact ⟨Locked.keeps_aesdRead env count fPos dev, Locked.run_aesdRead env count fPos dev⟩
  · intro K env buf fPos
    exact ⟨Locked.keeps_aesdWrite K env buf fPos dev, _, _, _, rfl,
      Locked.run_aesdWrite K env buf fPos dev⟩
  · intro env cmd fPos
    exact ⟨Locked.keeps_aesdIoctl env cmd fPos dev, Locked.run_aesdIoctl env cmd fPos dev⟩
  · intro interrupted offset whence fPos
    exact ⟨Locked.keeps_aesdLlseek interrupted offset whence fPos dev,
      Locked.run_aesdLlseek interrupted offset whence fPos dev⟩

end Aesd.Driver
