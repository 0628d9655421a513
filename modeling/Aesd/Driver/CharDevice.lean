import Aesd.Driver.CircularBuffer
import Mathlib.Data.UInt

/-!
# The character device (`aesd-char-driver/main.c`)

The file operations of `/dev/aesdchar` over an explicit device state: the ring of completed write
commands, the pending `current_write_entry`, and the kernel heap the two point into. Each
operation runs under `dev->lock` and is one atomic step of the state; the debug prints and the
`cdev` registration are left out.

What the driver calls in the kernel is an argument of the call: whether the lock attempt was
interrupted, how the allocator answers, how many bytes a user copy leaves uncopied.
`KernelLimits` carries the two bounds of the kernel build the calls are subject to.

The field `added` is a ghost: the contents of every entry ever handed to
`aesd_circular_buffer_add_entry`, in order. No operation reads it.
-/

namespace Aesd.Driver

open Aesd.Lib

/-! ### The kernel services -/

/-- The bounds of a kernel build: no `kmalloc` above `KMALLOC_MAX_SIZE` succeeds, and a `read` or
`write` transfers at most `MAX_RW_COUNT` bytes, which is below `INT_MAX` and above any possible
`kmalloc`.
Source: `main.c`
Kind: D -/
structure KernelLimits where
  kmallocMaxSize : ℕ
  maxRwCount : ℕ
  kmallocMaxSize_lt : kmallocMaxSize < maxRwCount
  maxRwCount_lt : maxRwCount < 2 ^ 31

/-- A build with 4 KiB pages.
Source: `main.c`
Kind: D -/
def KernelLimits.pages4K : KernelLimits := ⟨2 ^ 22, 0x7ffff000, by decide, by decide⟩

/-- The errors the driver returns.
Source: `main.c`
Kind: D -/
inductive Errno where
  | ERESTARTSYS
  | ENOMEM
  | EFAULT
  | EINVAL
  | ENOTTY
  deriving DecidableEq, Repr

/-- How the allocator answers a request within its bound: it fails, it grows the block where it
is, or it hands out a new one.
Source: `main.c`, `aesd_write`
Kind: D -/
inductive AllocAnswer where
  | fail
  | inPlace
  | moved
  deriving DecidableEq, Repr

/-- The request cannot be served.
Source: `main.c`, `aesd_write`
Kind: D -/
def AllocAnswer.Refuses (answer : AllocAnswer) (K : KernelLimits) (n : ℕ) : Prop :=
  K.kmallocMaxSize < n ∨ answer = .fail

/-- Whether an allocation is refused is decided by its size.
Source: none: infrastructure
Kind: D -/
instance (answer : AllocAnswer) (K : KernelLimits) (n : ℕ) : Decidable (answer.Refuses K n) :=
  inferInstanceAs (Decidable (_ ∨ _))

/-- `kzalloc`: a zeroed block; an empty request is answered with `ZERO_SIZE_PTR`.
Source: `main.c`, `aesd_write`
Kind: D -/
def kzalloc (K : KernelLimits) (answer : AllocAnswer) (n : ℕ) (h : Heap UInt8) :
    Ptr × Heap UInt8 :=
  if n = 0 then (.zeroSize, h)
  else if answer.Refuses K n then (.null, h)
  else (.block h.next, h.fresh (List.replicate n 0))

/-- The contents of a resized block: what fits of the old ones, then whatever the memory held.
Source: `main.c`, `aesd_write`
Kind: D -/
def resize (old : List UInt8) (n : ℕ) (junk : ℕ → UInt8) : List UInt8 :=
  old.take n ++ (List.range (n - old.length)).map junk

/-- Give a block another size, where it is or in a new place.
Source: `main.c`, `aesd_write`
Kind: D -/
def regrow (answer : AllocAnswer) (junk : ℕ → UInt8) (p : Ptr) (n : ℕ) (h : Heap UInt8) :
    Ptr × Heap UInt8 :=
  match p, answer with
  | .block id, .inPlace => (.block id, h.put (.block id) (resize (h.load (.block id)) n junk))
  | p, _ => (.block h.next, (h.fresh (resize (h.load p) n junk)).free p)

/-- `krealloc`: an empty request releases the block and is answered with `ZERO_SIZE_PTR`; a
failure keeps the old block.
Source: `main.c`, `aesd_write`
Kind: D -/
def krealloc (K : KernelLimits) (answer : AllocAnswer) (junk : ℕ → UInt8) (p : Ptr) (n : ℕ)
    (h : Heap UInt8) : Ptr × Heap UInt8 :=
  if n = 0 then (.zeroSize, h.free p)
  else if answer.Refuses K n then (.null, h)
  else regrow answer junk p n h

/-- Overwrite part of a block's contents.
Source: `main.c`, `aesd_write`
Kind: D -/
def patch (old : List UInt8) (offset : ℕ) (data : List UInt8) : List UInt8 :=
  old.take offset ++ data ++ old.drop (offset + data.length)

/-- The number of bytes of an `n`-byte user copy that are not copied, when the user memory fails
`uncopied` bytes before its end.
Source: `main.c`, `aesd_write`
Kind: D -/
def notCopied (uncopied n : ℕ) : ℕ := min uncopied n

/-- `copy_from_user` to `offset` bytes into a block: the number of bytes not copied (they are
zeroed in the destination) and the heap.
Source: `main.c`, `aesd_write`
Kind: D -/
def copyFromUser (dst : Ptr) (offset : ℕ) (src : List UInt8) (uncopied : ℕ) (h : Heap UInt8) :
    ℕ × Heap UInt8 :=
  let left := notCopied uncopied src.length
  (left, h.put dst (patch (h.load dst) offset
    (src.take (src.length - left) ++ List.replicate left 0)))

/-- A `loff_t` as the `size_t` it is converted to.
Source: `main.c`, `aesd_read`
Kind: D -/
def sizeOfLoff (pos : ℤ) : ℕ := (pos % 2 ^ 64).toNat

/-- A `size_t` as the `loff_t` it is converted to.
Source: `main.c`
Kind: D -/
def loffOfSize (n : ℕ) : ℤ := (n : ℤ).bmod (2 ^ 64)

/-! ### The device -/

/-- The byte `'\n'`.
Source: `main.c`, `aesd_write`
Kind: D -/
def newline : UInt8 := 10

/-- The part of `struct aesd_dev` the operations use, and the heap it points into.
Source: `aesdchar.h`, `struct aesd_dev`
Kind: D -/
structure AesdDev where
  buffer : AesdCircularBuffer
  /-- The entry for writes that have not yet been terminated by a newline. -/
  currentWriteEntry : AesdBufferEntry
  heap : Heap UInt8
  /-- Ghost: the contents of every entry ever added to the buffer. -/
  added : List (List UInt8)

/-- The device as `aesd_init_module` leaves it.
Source: `main.c`, `aesd_init_module`
Kind: D -/
def aesdInitModule : AesdDev := ⟨aesdCircularBufferInit, .zeroed, .empty, []⟩

/-- `AESD_CIRCULAR_BUFFER_FOREACH`: the slots in the order of the array.
Source: `aesd-circular-buffer.h`, `AESD_CIRCULAR_BUFFER_FOREACH`
Kind: D -/
def aesdCircularBufferForeach : List (Fin aesdcharMaxWriteOperationsSupported) :=
  List.finRange aesdcharMaxWriteOperationsSupported

/-- The pending bytes.
Source: `aesdchar.h`, `struct aesd_dev`
Kind: D -/
def AesdDev.pending (dev : AesdDev) : List UInt8 :=
  (dev.heap.load dev.currentWriteEntry.buffptr).take dev.currentWriteEntry.size

/-- The bytes of an entry.
Source: `aesdchar.h`, `struct aesd_dev`
Kind: D -/
def AesdDev.bytesOf (dev : AesdDev) (e : AesdBufferEntry) : List UInt8 :=
  (dev.heap.load e.buffptr).take e.size

/-- The retained write commands, oldest first.
Source: `aesdchar.h`, `struct aesd_dev`
Kind: D -/
def AesdDev.commands (dev : AesdDev) : List (List UInt8) := dev.buffer.retained.map dev.bytesOf

/-- The content of the device: what a reader who starts at position zero is given.
Source: `aesdchar.h`, `struct aesd_dev`
Kind: D -/
def AesdDev.content (dev : AesdDev) : List UInt8 := dev.commands.flatten

/-! ### `aesd_write` -/

/-- The kernel's part in one `aesd_write`.
Source: `main.c`, `aesd_write`
Kind: D -/
structure WriteEnv where
  /-- `mutex_lock_interruptible` was interrupted. -/
  interrupted : Bool
  alloc : AllocAnswer
  junk : ℕ → UInt8
  /-- Bytes at the end of the user buffer that cannot be read. -/
  uncopied : ℕ

/-- The call is not disturbed: the lock is taken, the allocation served, the copy complete.
Source: `main.c`, `aesd_write`
Kind: D -/
def WriteEnv.undisturbed : WriteEnv := ⟨false, .moved, fun _ => 0, 0⟩

/-- The branch for an empty `current_write_entry`.
Source: `main.c`, `aesd_write`, the branch `current_write_entry.buffptr == NULL`
Kind: D -/
def aesdWriteFirst (K : KernelLimits) (env : WriteEnv) (buf : List UInt8) (dev : AesdDev) :
    Except Errno Unit × AesdDev :=
  let (p, h) := kzalloc K env.alloc buf.length dev.heap
  if p = .null then
    (.error .ENOMEM, { dev with
      currentWriteEntry := { dev.currentWriteEntry with buffptr := p }, heap := h })
  else
    let (left, h) := copyFromUser p 0 buf env.uncopied h
    if left ≠ 0 then
      (.error .EFAULT, { dev with currentWriteEntry := ⟨.null, 0⟩, heap := h.free p })
    else
      (.ok (), { dev with currentWriteEntry := ⟨p, buf.length⟩, heap := h })

/-- The branch that grows a `current_write_entry` in use.
Source: `main.c`, `aesd_write`, the `else` branch
Kind: D -/
def aesdWriteGrow (K : KernelLimits) (env : WriteEnv) (buf : List UInt8) (dev : AesdDev) :
    Except Errno Unit × AesdDev :=
  let (p, h) := krealloc K env.alloc env.junk dev.currentWriteEntry.buffptr
    (SizeT.add dev.currentWriteEntry.size buf.length) dev.heap
  if p = .null then
    -- krealloc failed: the old buffer and its size are kept
    (.error .ENOMEM, { dev with heap := h })
  else
    let (left, h) := copyFromUser p dev.currentWriteEntry.size buf env.uncopied h
    if left ≠ 0 then
      (.error .EFAULT, { dev with currentWriteEntry := ⟨.null, 0⟩, heap := h.free p })
    else
      (.ok (), { dev with
        currentWriteEntry := ⟨p, SizeT.add dev.currentWriteEntry.size buf.length⟩, heap := h })

/-- The end of a successful write: an entry that holds a newline is moved into the ring, and the
entry it overwrites is released.
Source: `main.c`, `aesd_write`, from `memchr` on
Kind: D -/
def aesdWriteCommit (count : ℕ) (dev : AesdDev) : ℕ × AesdDev :=
  let entry := dev.currentWriteEntry
  if newline ∈ dev.pending then
    let (removed, buffer) := aesdCircularBufferAddEntry dev.buffer entry
    (entry.size,
      { buffer := buffer
        currentWriteEntry := ⟨.null, 0⟩
        heap := if removed ≠ .null then dev.heap.free removed else dev.heap
        added := dev.added ++ [dev.pending] })
  else
    (count, dev)

/-- The user's buffer is `buf`, and `count` is its length. The results are the returned value, the
file position after the call, and the device.
Source: `main.c`, `aesd_write`
Kind: D -/
def aesdWrite (K : KernelLimits) (env : WriteEnv) (buf : List UInt8) (fPos : ℤ) (dev : AesdDev) :
    Except Errno ℕ × ℤ × AesdDev :=
  if env.interrupted then (.error .ERESTARTSYS, fPos, dev)
  else
    let (result, dev) :=
      if dev.currentWriteEntry.buffptr = .null then aesdWriteFirst K env buf dev
      else aesdWriteGrow K env buf dev
    match result with
    | .error e => (.error e, fPos, dev)
    | .ok () =>
        let (retval, dev) := aesdWriteCommit buf.length dev
        (.ok retval, fPos + retval, dev)

/-- The `write` system call on the device: the kernel hands the driver at most `MAX_RW_COUNT`
bytes.
Source: `main.c`, `aesd_write`
Kind: D -/
def vfsWrite (K : KernelLimits) (env : WriteEnv) (buf : List UInt8) (fPos : ℤ) (dev : AesdDev) :
    Except Errno ℕ × ℤ × AesdDev :=
  aesdWrite K env (buf.take K.maxRwCount) fPos dev

/-! ### `aesd_read` -/

/-- The kernel's part in one `aesd_read`.
Source: `main.c`, `aesd_read`
Kind: D -/
structure ReadEnv where
  interrupted : Bool
  /-- Bytes at the end of the user buffer that cannot be written. -/
  uncopied : ℕ

/-- The lock is taken and the copy complete.
Source: `main.c`, `aesd_read`
Kind: D -/
def ReadEnv.undisturbed : ReadEnv := ⟨false, 0⟩

/-- The results are the bytes delivered (the returned value is their number) and the file position
after the call.
Source: `main.c`, `aesd_read`
Kind: D -/
def aesdRead (env : ReadEnv) (count : ℕ) (fPos : ℤ) (dev : AesdDev) :
    Except Errno (List UInt8) × ℤ :=
  if env.interrupted then (.error .ERESTARTSYS, fPos)
  else match aesdCircularBufferFindEntryOffsetForFpos dev.buffer (sizeOfLoff fPos) with
    | none => (.ok [], fPos)
    | some (index, entryOffsetByte) =>
        let entry := dev.buffer.entry index
        if entryOffsetByte ≥ entry.size then (.ok [], fPos)
        else
          let bytesToCopy := min count (entry.size - entryOffsetByte)
          if notCopied env.uncopied bytesToCopy ≠ 0 then (.error .EFAULT, fPos)
          else
            (.ok (((dev.heap.load entry.buffptr).drop entryOffsetByte).take bytesToCopy),
              fPos + bytesToCopy)

/-! ### `aesd_ioctl` -/

/-- The argument of the seek command.
Source: `aesd_ioctl.h`, `struct aesd_seekto`
Kind: D -/
structure AesdSeekto where
  writeCmd : UInt32
  writeCmdOffset : UInt32
  deriving DecidableEq, Repr

/-- The type byte of the device's ioctl commands.
Source: `aesd_ioctl.h`, `AESD_IOC_MAGIC`
Kind: D -/
def aesdIocMagic : UInt32 := 0x16

/-- `_IOWR(type, nr, size)` of the generic ioctl encoding.
Source: `aesd_ioctl.h`, `AESDCHAR_IOCSEEKTO`
Kind: D -/
def iowr (type nr size : UInt32) : UInt32 :=
  ((3 : UInt32) <<< 30) ||| (size <<< 16) ||| (type <<< 8) ||| nr

/-- `_IOC_TYPE(cmd)`.
Source: `main.c`, `aesd_ioctl`
Kind: D -/
def iocType (cmd : UInt32) : UInt32 := (cmd >>> 8) &&& 0xff

/-- `_IOC_NR(cmd)`.
Source: `main.c`, `aesd_ioctl`
Kind: D -/
def iocNr (cmd : UInt32) : UInt32 := cmd &&& 0xff

/-- A `struct aesd_seekto` has eight bytes.
Source: `aesd_ioctl.h`, `AESDCHAR_IOCSEEKTO`
Kind: D -/
def aesdcharIocseekto : UInt32 := iowr aesdIocMagic 1 8

/-- The largest command number.
Source: `aesd_ioctl.h`, `AESDCHAR_IOC_MAXNR`
Kind: D -/
def aesdcharIocMaxnr : UInt32 := 1

/-- The kernel's part in one `aesd_ioctl`.
Source: `main.c`, `aesd_ioctl`
Kind: D -/
structure IoctlEnv where
  /-- The structure at the user pointer, unless it cannot be read. -/
  arg : Option AesdSeekto
  interrupted : Bool

/-- The loop that adds up the sizes of the slots before the one asked for.
Source: `main.c`, `aesd_ioctl`, the `AESD_CIRCULAR_BUFFER_FOREACH` loop
Kind: D -/
def ioctlCharOffset (buffer : AesdCircularBuffer) (seekto : AesdSeekto) :
    List (Fin aesdcharMaxWriteOperationsSupported) → ℕ → ℕ
  | [], charOffset => charOffset
  | index :: rest, charOffset =>
      if index.val = seekto.writeCmd.toNat then
        SizeT.add charOffset seekto.writeCmdOffset.toNat
      else ioctlCharOffset buffer seekto rest (SizeT.add charOffset (buffer.entry index).size)

/-- The case `AESDCHAR_IOCSEEKTO` with the argument copied in and the lock held.
Source: `main.c`, `aesd_ioctl`
Kind: D -/
def aesdIoctlSeekto (seekto : AesdSeekto) (fPos : ℤ) (dev : AesdDev) : Except Errno Unit × ℤ :=
  if hcmd : seekto.writeCmd.toNat ≥ aesdcharMaxWriteOperationsSupported then (.error .EINVAL, fPos)
  else
    let entry := dev.buffer.entry ⟨seekto.writeCmd.toNat, Nat.lt_of_not_le hcmd⟩
    if entry.buffptr = .null then (.error .EINVAL, fPos)
    else if seekto.writeCmdOffset.toNat ≥ entry.size then (.error .EINVAL, fPos)
    else (.ok (), loffOfSize (ioctlCharOffset dev.buffer seekto aesdCircularBufferForeach 0))

/-- The results are the returned value and the file position after the call.
Source: `main.c`, `aesd_ioctl`
Kind: D -/
def aesdIoctl (env : IoctlEnv) (cmd : UInt32) (fPos : ℤ) (dev : AesdDev) : Except Errno Unit × ℤ :=
  if iocType cmd ≠ aesdIocMagic then (.error .ENOTTY, fPos)
  else if iocNr cmd > aesdcharIocMaxnr then (.error .ENOTTY, fPos)
  else if cmd = aesdcharIocseekto then
    match env.arg with
    | none => (.error .EFAULT, fPos)
    | some seekto =>
        if env.interrupted then (.error .ERESTARTSYS, fPos) else aesdIoctlSeekto seekto fPos dev
  else (.error .ENOTTY, fPos)

/-! ### `aesd_llseek` -/

/-- The sum of the sizes of the ten slots.
Source: `main.c`, `aesd_circular_buffer_size`
Kind: D -/
def aesdCircularBufferSize (buffer : AesdCircularBuffer) : ℤ :=
  loffOfSize (aesdCircularBufferForeach.foldl
    (fun size index => SizeT.add size (buffer.entry index).size) 0)

/-- `vfs_setpos` with a maximal position.
Source: `main.c`, `aesd_llseek`
Kind: D -/
def vfsSetpos (offset maxsize fPos : ℤ) : Except Errno ℤ × ℤ :=
  if offset < 0 ∨ maxsize < offset then (.error .EINVAL, fPos) else (.ok offset, offset)

/-- `fixed_size_llseek`: `SEEK_SET`, `SEEK_CUR` and `SEEK_END` are 0, 1 and 2. A `SEEK_CUR` by
zero only asks for the position.
Source: `main.c`, `aesd_llseek`
Kind: D -/
def fixedSizeLlseek (offset whence size fPos : ℤ) : Except Errno ℤ × ℤ :=
  if whence = 0 then vfsSetpos offset size fPos
  else if whence = 1 then
    if offset = 0 then (.ok fPos, fPos) else vfsSetpos (fPos + offset) size fPos
  else if whence = 2 then vfsSetpos (offset + size) size fPos
  else (.error .EINVAL, fPos)

/-- The results are the returned value and the file position after the call.
Source: `main.c`, `aesd_llseek`
Kind: D -/
def aesdLlseek (interrupted : Bool) (offset whence fPos : ℤ) (dev : AesdDev) :
    Except Errno ℤ × ℤ :=
  if interrupted then (.error .ERESTARTSYS, fPos)
  else fixedSizeLlseek offset whence (aesdCircularBufferSize dev.buffer) fPos

/-! ### `aesd_cleanup_module` -/

/-- The heap after the module is unloaded.
Source: `main.c`, `aesd_cleanup_module`
Kind: D -/
def aesdCleanupModule (dev : AesdDev) : Heap UInt8 :=
  aesdCircularBufferForeach.foldl
    (fun h index =>
      if (dev.buffer.entry index).buffptr ≠ .null then h.free (dev.buffer.entry index).buffptr
      else h)
    dev.heap

/-! ### The driver as a state machine

Any number of files is open on the one device; each keeps a position of its own. -/

/-- The device and the positions of the open files.
Source: `main.c`, the file operations
Kind: D -/
structure DriverState where
  dev : AesdDev
  fPos : ℕ → ℤ

/-- A system call on the file `file` that reaches one of the file operations, with the kernel's
part in it.
Source: `main.c`, the file operations
Kind: D -/
inductive DriverOp where
  | openFile (file : ℕ)
  | write (file : ℕ) (env : WriteEnv) (buf : List UInt8)
  | read (file : ℕ) (env : ReadEnv) (count : ℕ)
  | ioctl (file : ℕ) (env : IoctlEnv) (cmd : UInt32)
  | llseek (file : ℕ) (interrupted : Bool) (offset whence : ℤ)

/-- What one call does to the driver.
Source: `main.c`, the file operations
Kind: D -/
def DriverState.exec (K : KernelLimits) (s : DriverState) : DriverOp → DriverState
  | .openFile file => { s with fPos := Function.update s.fPos file 0 }
  | .write file env buf =>
      let r := vfsWrite K env buf (s.fPos file) s.dev
      ⟨r.2.2, Function.update s.fPos file r.2.1⟩
  | .read file env count =>
      let r := aesdRead env count (s.fPos file) s.dev
      { s with fPos := Function.update s.fPos file r.2 }
  | .ioctl file env cmd =>
      let r := aesdIoctl env cmd (s.fPos file) s.dev
      { s with fPos := Function.update s.fPos file r.2 }
  | .llseek file interrupted offset whence =>
      let r := aesdLlseek interrupted offset whence (s.fPos file) s.dev
      { s with fPos := Function.update s.fPos file r.2 }

/-- The driver after the module has been loaded.
Source: `main.c`, `aesd_init_module`
Kind: D -/
def DriverState.init : DriverState := ⟨aesdInitModule, fun _ => 0⟩

/-- The driver after a sequence of calls.
Source: `main.c`, the file operations
Kind: D -/
def driverRun (K : KernelLimits) (ops : List DriverOp) : DriverState :=
  ops.foldl (DriverState.exec K) .init

/-- One more call.
Source: none: infrastructure
Kind: L -/
theorem driverRun_append_singleton (K : KernelLimits) (ops : List DriverOp) (op : DriverOp) :
    driverRun K (ops ++ [op]) = (driverRun K ops).exec K op := by
  simp [driverRun, List.foldl_append]

end Aesd.Driver
