import Aesd.Driver.Concurrent
import Aesd.Driver.Reposition
import Mathlib.Data.List.Rotate

/-!
# The driver as a journal

What the driver is for, with no ring, no heap, no pointer and no lock: a journal of newline-terminated
records, of which the last ten can be read as one text, and the piece that is being written. Every
call is a function of the journal and of the position of its file (`Journal.call`), with the errors
that the kernel's part in it brings about.

The numbers that `AESDCHAR_IOCSEEKTO` gives to the records are not those of reading: the record with
the number `j` is the last one that was the `j`-th, counted from the load modulo ten
(`Journal.numbered`).

* `vfsWrite_journal`, `aesdRead_journal`, `aesdIoctl_journal`, `aesdLlseek_journal` — each call does
  to the device what it does to the journal, and returns the same;
* `driver_refines_journal` — so do the calls of any number of threads, in any interleaving of their
  accesses to the device, as if the calls were made on the journal one after another.
-/

namespace Aesd.Driver

open Aesd.Lib

/-! ### The journal -/

namespace Journal

/-- The records that can be read: the last ten.
Source: `main.c`, the file operations
Kind: D -/
def kept (r : Records UInt8) : List (List UInt8) := r.done.rtake 10

/-- The records that can be read, in the order of the numbers that a seek gives them.
Source: `main.c`, the file operations
Kind: D -/
def numbered (r : Records UInt8) : List (List UInt8) :=
  (kept r).rotate ((kept r).length - (r.done.length - 10) % 10)

/-- The calls: what they return, the position of the file after them, and the journal. A piece joins
the one that is being written, or ends it with a newline; the return value is then the length of
the whole record. A copy that fails loses the piece that was being written.
Source: `main.c`, `aesd_write`
Kind: D -/
def write (K : KernelLimits) (env : WriteEnv) (buf : List UInt8) (fPos : ℤ) (r : Records UInt8) :
    Except Errno ℕ × ℤ × Records UInt8 :=
  let piece := buf.take K.maxRwCount
  if env.interrupted then (.error .ERESTARTSYS, fPos, r)
  else if env.AllocFails K (r.pending.length + piece.length) then (.error .ENOMEM, fPos, r)
  else if env.CopyFails piece.length then (.error .EFAULT, fPos, r.forget)
  else
    let n := if newline ∈ piece then r.pending.length + piece.length else piece.length
    (.ok n, fPos + n, r.feed newline piece)

/-- A read delivers what is left, from the position on, of the one record that the position is
in.
Source: `main.c`, `aesd_read`
Kind: D -/
def read (env : ReadEnv) (count : ℕ) (fPos : ℤ) (r : Records UInt8) :
    Except Errno (List UInt8) × ℤ :=
  if env.interrupted then (.error .ERESTARTSYS, fPos)
  else match locate ((kept r).map List.length) (sizeOfLoff fPos) with
    | none => (.ok [], fPos)
    | some (k, b) =>
        let bytes := (((kept r)[k]?.getD []).drop b).take count
        if notCopied env.uncopied bytes.length ≠ 0 then (.error .EFAULT, fPos)
        else (.ok bytes, fPos + bytes.length)

/-- A seek moves the position behind the records with smaller numbers, and on by the offset.
Source: `main.c`, `aesd_ioctl`
Kind: D -/
def seek (seekto : AesdSeekto) (fPos : ℤ) (r : Records UInt8) : Except Errno Unit × ℤ :=
  if ∃ record ∈ (numbered r)[seekto.writeCmd.toNat]?, seekto.writeCmdOffset.toNat < record.length
  then (.ok (), (((numbered r).take seekto.writeCmd.toNat).flatten.length +
    seekto.writeCmdOffset.toNat : ℕ))
  else (.error .EINVAL, fPos)

/-- A seek on a journal, after the checks that do not look at it.
Source: `main.c`, `aesd_ioctl`
Kind: D -/
def ioctl (env : IoctlEnv) (cmd : UInt32) (fPos : ℤ) (r : Records UInt8) :
    Except Errno Unit × ℤ :=
  if iocType cmd ≠ aesdIocMagic ∨ iocNr cmd > aesdcharIocMaxnr ∨ cmd ≠ aesdcharIocseekto then
    (.error .ENOTTY, fPos)
  else match env.arg with
    | none => (.error .EFAULT, fPos)
    | some seekto => if env.interrupted then (.error .ERESTARTSYS, fPos) else seek seekto fPos r

/-- A reposition on a journal.
Source: `main.c`, `aesd_llseek`
Kind: D -/
def llseek (interrupted : Bool) (offset whence fPos : ℤ) (r : Records UInt8) :
    Except Errno ℤ × ℤ :=
  if interrupted then (.error .ERESTARTSYS, fPos)
  else fixedSizeLlseek offset whence (kept r).flatten.length fPos

/-- A call on an open file: the file and the journal after it.
Source: `main.c`, the file operations
Kind: D -/
def call (K : KernelLimits) (op : FileOp) (f : OpenFile) (r : Records UInt8) :
    OpenFile × Records UInt8 :=
  match op with
  | .openFile => (f.after 0 .opened, r)
  | .write env buf =>
      let w := write K env buf f.fPos r
      (f.after w.2.1 (.wrote w.1), w.2.2)
  | .read env count => (f.after (read env count f.fPos r).2 (.read (read env count f.fPos r).1), r)
  | .ioctl env cmd => (f.after (ioctl env cmd f.fPos r).2 (.sought (ioctl env cmd f.fPos r).1), r)
  | .llseek interrupted offset whence =>
      let m := llseek interrupted offset whence f.fPos r
      (f.after m.2 (.moved m.1), r)

end Journal

/-- The journal and the open files after calls, made one after another.
Source: `main.c`, the file operations
Kind: D -/
def journalRun (K : KernelLimits) (order : List (ℕ × FileOp)) : Records UInt8 × (ℕ → OpenFile) :=
  order.foldl (Threads.serially (Journal.call K)) (.start, fun _ => ⟨0, []⟩)

section journal

variable {K : KernelLimits} {dev : AesdDev}

/-- The kept records are the write commands of the device.
Source: `main.c`, the file operations
Kind: L -/
theorem Accounted.kept_eq (ha : Accounted K dev) : Journal.kept dev.records = dev.commands :=
  ha.commands_eq.symm

/-! ### `aesd_write` -/

/-- **A write to the device is a write to the journal.**
Source: `main.c`, `aesd_write`
Kind: P -/
theorem vfsWrite_journal (hrep : Represents K dev) (env : WriteEnv) (buf : List UInt8) (fPos : ℤ) :
    ((vfsWrite K env buf fPos dev).1, (vfsWrite K env buf fPos dev).2.1,
      (vfsWrite K env buf fPos dev).2.2.records) = Journal.write K env buf fPos dev.records := by
  have hbuf : (buf.take K.maxRwCount).length ≤ K.maxRwCount := by
    rw [List.length_take]
    omega
  have hsize : dev.records.pending.length = dev.currentWriteEntry.size := hrep.length_pending
  simp only [Journal.write, hsize]
  unfold vfsWrite aesdWrite
  generalize buf.take K.maxRwCount = piece at hbuf ⊢
  by_cases hlock : env.interrupted = true
  · simp only [if_pos hlock]
  simp only [if_neg hlock]
  have hgather : GatherOutcome K env piece dev
      (if dev.currentWriteEntry.buffptr = .null then aesdWriteFirst K env piece dev
        else aesdWriteGrow K env piece dev) := by
    split_ifs with hnull
    · exact aesdWriteFirst_outcome hrep hnull
    · exact aesdWriteGrow_outcome hrep hbuf
  generalize (if dev.currentWriteEntry.buffptr = .null then aesdWriteFirst K env piece dev
    else aesdWriteGrow K env piece dev) = gathered at hgather ⊢
  cases hgather with
  | refused halloc => simp only [if_pos halloc]
  | dropped halloc hcopy _ _ hrec => simp only [if_neg halloc, if_pos hcopy, hrec]
  | @gathered dev' halloc hcopy hacc hbuffer hadded hpending =>
      simp only [if_neg halloc, if_neg hcopy]
      by_cases hnl : newline ∈ piece
      · have hmem : newline ∈ dev'.pending := by
          rw [hpending]
          exact List.mem_append_right _ hnl
        obtain ⟨hret, -, hrec⟩ := hacc.commit hmem piece.length
        simp only [if_pos hnl]
        rw [hret, hrec, Records.feed_of_mem hnl, hadded, hpending, List.length_append, ← hsize]
        rfl
      · have hfree : newline ∉ dev'.pending := by
          rw [hpending, List.mem_append, not_or]
          exact ⟨hrep.pending_free, hnl⟩
        simp only [if_neg hnl]
        have hrec : dev'.records = ⟨dev.records.done, dev.records.pending ++ piece⟩ :=
          Records.ext hadded hpending
        rw [aesdWriteCommit_of_not_mem hfree, Records.feed_of_not_mem hnl, ← hrec]

/-! ### `aesd_read` -/

/-- **A read of the device is a read of the journal.**
Source: `main.c`, `aesd_read`
Kind: P -/
theorem aesdRead_journal (ha : Accounted K dev) (env : ReadEnv) (count : ℕ) (fPos : ℤ) :
    aesdRead env count fPos dev = Journal.read env count fPos dev.records := by
  obtain ⟨es, hlog, -⟩ := ha.log
  have hfind := hlog.find_eq_locate (sizeOfLoff_lt fPos) ha.sum_sizes_lt
  rw [ha.sizes_eq] at hfind
  unfold aesdRead Journal.read
  rw [ha.kept_eq, hfind]
  by_cases hlock : env.interrupted = true
  · rw [if_pos hlock, if_pos hlock]
  rw [if_neg hlock, if_neg hlock]
  cases hloc : locate (dev.commands.map List.length) (sizeOfLoff fPos) with
  | none => rfl
  | some kb =>
      obtain ⟨k, b⟩ := kb
      obtain ⟨bytes, hbytes, hb, -⟩ := drop_flatten_of_locate hloc
      have hheld := ha.holds_rotate hbytes
      have hlen : ((bytes.drop b).take count).length = min count (bytes.length - b) := by
        rw [List.length_take, List.length_drop]
      have htake : (bytes.drop b).take (min count (bytes.length - b)) =
          (bytes.drop b).take count := by
        rw [← List.length_drop, ← List.take_eq_take_min]
      simp only [Option.map_some, hheld.1, hheld.2, ge_iff_le, Nat.not_le.mpr hb, if_false,
        hbytes, Option.getD_some, hlen, htake]

/-! ### `aesd_ioctl` -/

/-- The record with the number `j` is the one in the slot `j`.
Source: `main.c`, the file operations
Kind: L -/
theorem Accounted.length_numbered (ha : Accounted K dev) {j : Fin 10}
    (hj : j.val < dev.commands.length) :
    ∃ record, (Journal.numbered dev.records)[j.val]? = some record ∧
      record.length = (dev.buffer.entry j).size := by
  obtain ⟨es, hlog, hlen⟩ := ha.log
  have hle := ha.length_commands_le
  have hout : dev.buffer.outOffs.val = (dev.added.length - 10) % 10 := by
    rw [hlog.outOffs_eq, hlen]
  have hadded : dev.commands.length = min 10 dev.added.length := by
    rw [ha.commands_eq, List.rtake_eq_reverse_take_reverse, List.length_reverse, List.length_take,
      List.length_reverse]
  -- the place of the slot in the order of reading
  have hplace : ∃ k, k < dev.commands.length ∧ rotate dev.buffer.outOffs k = j ∧
      (j.val + (dev.commands.length - (dev.added.length - 10) % 10)) % dev.commands.length = k := by
    refine ⟨_, Nat.mod_lt _ (by omega), ?_, rfl⟩
    apply Fin.ext
    rw [rotate_val, hout]
    change ((dev.added.length - 10) % 10 + _) % 10 = j.val
    rcases Nat.lt_or_ge dev.added.length 10 with hlt | hge
    · have hall : dev.commands.length = dev.added.length := by omega
      have hsmall : j.val % dev.added.length = j.val := Nat.mod_eq_of_lt (hall ▸ hj)
      rw [hall, Nat.sub_eq_zero_of_le hlt.le, Nat.zero_mod, Nat.sub_zero, Nat.zero_add,
        Nat.add_mod_right, hsmall, Nat.mod_eq_of_lt j.isLt]
    · have hten : dev.commands.length = 10 := by omega
      rw [hten]
      omega
  obtain ⟨k, hk, hrot, hmod⟩ := hplace
  refine ⟨dev.commands[k], ?_, ?_⟩
  · rw [Journal.numbered, ha.kept_eq, List.getElem?_rotate hj]
    change dev.commands[(j.val + (dev.commands.length - (dev.added.length - 10) % 10)) %
      dev.commands.length]? = _
    rw [hmod, List.getElem?_eq_getElem hk]
  · rw [ha.length_command (List.getElem?_eq_getElem hk), hrot]

/-- There are as many slots in use as write commands.
Source: `main.c`, the file operations
Kind: L -/
theorem Accounted.length_numbered_eq (ha : Accounted K dev) :
    (Journal.numbered dev.records).length = dev.commands.length := by
  rw [Journal.numbered, List.length_rotate, ha.kept_eq]

/-- The records with smaller numbers are those in the slots before.
Source: `main.c`, `aesd_ioctl`
Kind: L -/
theorem Accounted.bytesBefore_numbered (ha : Accounted K dev) {k : ℕ}
    (hk : k ≤ dev.commands.length) :
    dev.bytesBefore k = ((Journal.numbered dev.records).take k).flatten.length := by
  have hle := ha.length_commands_le
  have hlen := ha.length_numbered_eq
  rw [List.length_flatten, List.map_take]
  refine congrArg List.sum (List.ext_getElem ?_ fun i hi hi' => ?_)
  · simp only [List.length_map, List.length_take, List.length_finRange]
    omega
  · rw [List.length_take, List.length_map] at hi'
    have hlt : i < dev.commands.length := by omega
    obtain ⟨record, hrecord, hsize⟩ := ha.length_numbered (j := ⟨i, by omega⟩) hlt
    have hnum : i < (Journal.numbered dev.records).length := hlen ▸ hlt
    rw [List.getElem?_eq_getElem hnum, Option.some_inj] at hrecord
    simp only [List.getElem_map, List.getElem_take, List.getElem_finRange]
    rw [hrecord, hsize]
    rfl

/-- **A seek on the device is a seek in the journal.**
Source: `main.c`, `aesd_ioctl`
Kind: P -/
theorem aesdIoctlSeekto_journal (ha : Accounted K dev) (seekto : AesdSeekto) (fPos : ℤ) :
    aesdIoctlSeekto seekto fPos dev = Journal.seek seekto fPos dev.records := by
  have hle := ha.length_commands_le
  have hlen := ha.length_numbered_eq
  rw [← aesdIoctl_seekto, aesdIoctl_eq ha, Journal.seek]
  have hiff : (∃ j : Fin 10, j.val = seekto.writeCmd.toNat ∧ j.val < dev.commands.length ∧
      seekto.writeCmdOffset.toNat < (dev.buffer.entry j).size) ↔
      ∃ record ∈ (Journal.numbered dev.records)[seekto.writeCmd.toNat]?,
        seekto.writeCmdOffset.toNat < record.length := by
    constructor
    · rintro ⟨j, hj, huse, hin⟩
      obtain ⟨record, hrecord, hsize⟩ := ha.length_numbered huse
      rw [hj] at hrecord
      exact ⟨record, hrecord, hsize ▸ hin⟩
    · rintro ⟨record, hrecord, hin⟩
      obtain ⟨hlt, -⟩ := List.getElem?_eq_some_iff.mp hrecord
      have huse : seekto.writeCmd.toNat < dev.commands.length := hlen ▸ hlt
      refine ⟨⟨_, huse.trans_le hle⟩, rfl, huse, ?_⟩
      obtain ⟨record', hrecord', hsize⟩ := ha.length_numbered (j := ⟨_, huse.trans_le hle⟩) huse
      cases hrecord.symm.trans hrecord'
      exact hsize ▸ hin
  by_cases hin : ∃ record ∈ (Journal.numbered dev.records)[seekto.writeCmd.toNat]?,
      seekto.writeCmdOffset.toNat < record.length
  · obtain ⟨j, hj, huse, -⟩ := hiff.mpr hin
    rw [if_pos hin, if_pos (hiff.mpr hin), ha.bytesBefore_numbered (hj ▸ huse.le)]
  · rw [if_neg hin, if_neg (mt hiff.mp hin)]

/-- `aesd_ioctl` does to the position what the journal's does.
Source: `main.c`, `aesd_ioctl`
Kind: P -/
theorem aesdIoctl_journal (ha : Accounted K dev) (env : IoctlEnv) (cmd : UInt32) (fPos : ℤ) :
    aesdIoctl env cmd fPos dev = Journal.ioctl env cmd fPos dev.records := by
  unfold aesdIoctl Journal.ioctl
  by_cases hmagic : iocType cmd ≠ aesdIocMagic
  · rw [if_pos hmagic, if_pos (Or.inl hmagic)]
  by_cases hnr : iocNr cmd > aesdcharIocMaxnr
  · rw [if_neg hmagic, if_pos hnr, if_pos (Or.inr (Or.inl hnr))]
  by_cases hcmd : cmd = aesdcharIocseekto
  · rw [if_neg hmagic, if_neg hnr, if_pos hcmd, if_neg (by tauto)]
    cases env.arg with
    | none => rfl
    | some seekto =>
        change (if env.interrupted then _ else aesdIoctlSeekto seekto fPos dev) =
          if env.interrupted then _ else Journal.seek seekto fPos dev.records
        rw [aesdIoctlSeekto_journal ha]
  · rw [if_neg hmagic, if_neg hnr, if_neg hcmd, if_pos (Or.inr (Or.inr hcmd))]

/-! ### `aesd_llseek` -/

/-- `aesd_llseek` does to the position what the journal's does.
Source: `main.c`, `aesd_llseek` and `aesd_circular_buffer_size`
Kind: P -/
theorem aesdLlseek_journal (ha : Accounted K dev) (interrupted : Bool) (offset whence fPos : ℤ) :
    aesdLlseek interrupted offset whence fPos dev =
      Journal.llseek interrupted offset whence fPos dev.records := by
  rw [aesdLlseek, Journal.llseek, ha.size_eq, ha.kept_eq, AesdDev.content]

/-! ### The simulation -/

/-- **A call of the driver is a call of the journal.**
Source: `main.c`, the file operations
Kind: P -/
theorem wholeCall_journal (hrep : Represents K dev) (op : FileOp) (f : OpenFile) :
    ((wholeCall K op f dev).1, (wholeCall K op f dev).2.records) =
        Journal.call K op f dev.records ∧
      Represents K (wholeCall K op f dev).2 := by
  have ha := hrep.toAccounted
  refine ⟨?_, DriverState.exec_represents hrep (op.on 0)⟩
  cases op with
  | openFile => rfl
  | write env buf =>
      simp only [Journal.call, ← vfsWrite_journal hrep]
      rfl
  | read env count =>
      simp only [Journal.call, ← aesdRead_journal ha]
      rfl
  | ioctl env cmd =>
      simp only [Journal.call, ← aesdIoctl_journal ha]
      rfl
  | llseek interrupted offset whence =>
      simp only [Journal.call, ← aesdLlseek_journal ha]
      rfl

/-- Whole calls on the device simulate calls on the journal.
Source: `main.c`, the file operations
Kind: L -/
theorem foldl_serially_journal (order : List (ℕ × FileOp)) :
    let d := order.foldl (Threads.serially (wholeCall K)) (aesdInitModule, fun _ => ⟨0, []⟩)
    (d.1.records, d.2) = journalRun K order ∧ Represents K d.1 := by
  induction order using List.reverseRecOn with
  | nil => exact ⟨rfl, represents_init K⟩
  | append_singleton order c ih =>
      obtain ⟨hsame, hrep⟩ := ih
      simp only [journalRun, List.foldl_append, List.foldl_cons, List.foldl_nil] at hsame ⊢
      rw [← hsame]
      generalize order.foldl (Threads.serially (wholeCall K)) (aesdInitModule, fun _ => ⟨0, []⟩) = d
        at hrep ⊢
      obtain ⟨hcall, hrep'⟩ := wholeCall_journal hrep c.2 (d.2 c.1)
      refine ⟨?_, hrep'⟩
      simp only [Threads.serially, ← hcall]

/-- **The driver is a journal.** Any number of threads call the file operations, each on a file of
its own, and the scheduler may switch between any two accesses to the device. In every state, with
the calls in the order in which they got `dev->lock` (or returned without it): a thread that is not
in its critical section has got, from each of its calls, exactly what the same calls return when
they are made on a journal one after another, and its file is at the same position; and whenever the
lock is free the device holds the records of that journal.
Source: `main.c`, `aesd_open`, `aesd_read`, `aesd_write`, `aesd_ioctl`, `aesd_llseek`;
`aesd-circular-buffer.c`
Kind: P -/
theorem driver_refines_journal {programs : ℕ → List FileOp} {schedule : List ℕ}
    {s : Threads AesdDev (Heap UInt8) OpenFile FileOp}
    (hrun : concurrentRun K programs schedule = some s) :
    (∀ i, programs i = Threads.callsOf i s.order ++ (s.phase i).begun ++ s.todo i) ∧
    (∀ i, s.holder ≠ some i → s.own i = (journalRun K s.order).2 i) ∧
    (s.holder = none → s.shared.records = (journalRun K s.order).1 ∧
      s.shared.commands = Journal.kept (journalRun K s.order).1) := by
  have hs := serial_of_concurrentRun hrun
  obtain ⟨hsame, hrep⟩ := foldl_serially_journal (K := K) s.order
  refine ⟨hs.program, fun i hi => ?_, fun hfree => ?_⟩
  · rw [hs.own i fun body hbody => hi (hs.inside i body hbody).1, ← hsame]
  · rw [hs.free hfree, ← hsame]
    exact ⟨rfl, hrep.toAccounted.kept_eq.symm⟩

end journal

/-- The reader has asked for the lock before the writer, and gets it after it.
Source: `main.c`, the file operations
Kind: N+ -/
theorem driver_refines_journal_overlapping :
    ∃ s, concurrentRun .pages4K writerAndReader (1 :: List.replicate 16 0 ++ List.replicate 8 1) =
        some s ∧
      s.order.length = 2 ∧
      s.shared.commands = Journal.kept (journalRun .pages4K s.order).1 ∧
      s.own 1 = (journalRun .pages4K s.order).2 1 := by
  obtain ⟨s, hs, hvals⟩ := Option.map_eq_some_iff.mp (show (concurrentRun .pages4K writerAndReader
    (1 :: List.replicate 16 0 ++ List.replicate 8 1)).map (fun s => (s.order.length, s.holder)) =
      some (2, none) by decide +kernel)
  obtain ⟨hlen, hfree⟩ := Prod.mk.inj hvals
  obtain ⟨-, hown, hdev⟩ := driver_refines_journal hs
  have hout : s.holder ≠ some 1 := by
    rw [hfree]
    simp
  exact ⟨s, hs, hlen, (hdev hfree).2, hown 1 hout⟩

end Aesd.Driver
