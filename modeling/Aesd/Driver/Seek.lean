import Aesd.Driver.Reading

/-!
# Seeking to a write command

`aesd_ioctl` takes `write_cmd` as an index into the array of slots and adds up the sizes of the
slots before it in the order of the array. `aesd_read` counts from `out_offs`. The two agree as
long as the ring has not wrapped to a different arrangement of sizes:

* `aesdIoctl_eq` — the call as a function of the slots;
* `seek_addresses_iff` — in every reachable state, seeking addresses the write commands in the
  order in which they are read exactly when every slot has the size of the slot as many places
  after `out_offs`. In particular it does as long as `out_offs` is zero;
* `seek_answers_iff` — the same for the answer to one call.
-/

namespace Aesd.Driver

open Aesd.Lib

/-! ### The ioctl as a function of the slots -/

/-- The slots of the array, cut at one of them.
Source: none: infrastructure
Kind: L -/
theorem finRange_eq_append {n : ℕ} (j : Fin n) :
    List.finRange n =
      (List.finRange n).take j.val ++ j :: (List.finRange n).drop (j.val + 1) := by
  have hlt : j.val < (List.finRange n).length := by simp
  have hget : (List.finRange n)[j.val] = j := by simp
  conv_lhs => rw [← List.take_append_drop j.val (List.finRange n)]
  rw [List.drop_eq_getElem_cons hlt, hget]

/-- The slots before one have smaller indices.
Source: none: infrastructure
Kind: L -/
theorem lt_of_mem_take_finRange {n : ℕ} {i j : Fin n} (h : i ∈ (List.finRange n).take j.val) :
    i.val < j.val := by
  obtain ⟨k, hk, rfl⟩ := List.mem_iff_getElem.mp h
  rw [List.length_take] at hk
  simp only [List.getElem_take, List.getElem_finRange, Fin.val_cast]
  omega

/-- The loop adds the sizes of the slots before the one asked for.
Source: `main.c`, `aesd_ioctl`
Kind: L -/
theorem ioctlCharOffset_eq (buffer : AesdCircularBuffer) (seekto : AesdSeekto)
    (index : Fin aesdcharMaxWriteOperationsSupported) (hindex : index.val = seekto.writeCmd.toNat)
    (post : List (Fin aesdcharMaxWriteOperationsSupported)) :
    ∀ (pre : List (Fin aesdcharMaxWriteOperationsSupported)) (charOffset : ℕ),
      (∀ i ∈ pre, i.val ≠ seekto.writeCmd.toNat) →
      charOffset + (pre.map fun i => (buffer.entry i).size).sum + seekto.writeCmdOffset.toNat <
        SizeT.modulus →
      ioctlCharOffset buffer seekto (pre ++ index :: post) charOffset =
        charOffset + (pre.map fun i => (buffer.entry i).size).sum + seekto.writeCmdOffset.toNat
  | [], charOffset, _, hlt => by
      simp only [List.map_nil, List.sum_nil, Nat.add_zero] at hlt ⊢
      rw [List.nil_append, ioctlCharOffset, if_pos hindex, SizeT.add_of_lt hlt]
  | i :: pre, charOffset, hpre, hlt => by
      rw [List.forall_mem_cons] at hpre
      rw [List.map_cons, List.sum_cons] at hlt ⊢
      rw [List.cons_append, ioctlCharOffset, if_neg hpre.1, SizeT.add_of_lt (by omega),
        ioctlCharOffset_eq buffer seekto index hindex post pre _ hpre.2 (by omega)]
      omega

/-- With the argument copied in and the lock taken, the ioctl is its seek case.
Source: `main.c`, `aesd_ioctl`
Kind: L -/
theorem aesdIoctl_seekto (seekto : AesdSeekto) (fPos : ℤ) (dev : AesdDev) :
    aesdIoctl ⟨some seekto, false⟩ aesdcharIocseekto fPos dev = aesdIoctlSeekto seekto fPos dev := by
  unfold aesdIoctl
  rw [if_neg (by decide), if_neg (by decide), if_pos rfl]
  rfl

section slots

variable {K : KernelLimits} {dev : AesdDev}

/-- The slots hold, in their own order, as many bytes as the content.
Source: `main.c`, `aesd_ioctl`
Kind: L -/
theorem Accounted.sum_slot_sizes (ha : Accounted K dev) :
    ((List.finRange 10).map fun i => (dev.buffer.entry i).size).sum = dev.content.length := by
  obtain ⟨es, hlog, -⟩ := ha.log
  obtain ⟨zs, hz, hperm⟩ := hlog.slots_perm
  have hzero : (zs.map AesdBufferEntry.size).sum = 0 := by
    apply List.sum_eq_zero
    intro n hn
    obtain ⟨e, he, rfl⟩ := List.mem_map.mp hn
    rw [hz e he]
    rfl
  have hsum := (hperm.map AesdBufferEntry.size).sum_eq
  rw [List.map_map, List.map_append, List.sum_append, hzero, Nat.add_zero, ha.sizes_eq,
    ← List.length_flatten] at hsum
  exact hsum

/-- There are as many write commands as slots in use.
Source: `main.c`, `aesd_ioctl`
Kind: L -/
theorem length_commands (dev : AesdDev) : dev.commands.length = dev.buffer.occupiedCount := by
  rw [AesdDev.commands, List.length_map, AesdCircularBuffer.retained, walk_length]

/-- Until the ring is full the walk starts at slot zero.
Source: `main.c`, `aesd_ioctl`
Kind: L -/
theorem Accounted.rotate_eq_self (ha : Accounted K dev) (hlt : dev.commands.length < 10)
    (j : Fin 10) : rotate dev.buffer.outOffs j.val = j := by
  obtain ⟨es, hlog, -⟩ := ha.log
  rw [length_commands, hlog.occupiedCount_eq] at hlt
  have hes : es.length < 10 := by omega
  apply Fin.ext
  rw [rotate_val, RingLog.outOffs_of_lt hlog hes, Nat.zero_add, Nat.mod_eq_of_lt j.isLt]

/-- The slots in use are the first ones of the array.
Source: `main.c`, `aesd_ioctl`
Kind: L -/
theorem Accounted.occupied_iff (ha : Accounted K dev) (j : Fin 10) :
    dev.buffer.Occupied j ↔ j.val < dev.commands.length := by
  have hle := ha.length_commands_le
  rcases Nat.lt_or_ge dev.commands.length 10 with hlt | hge
  · constructor
    · rintro ⟨i, hi, rfl⟩
      rw [← length_commands] at hi
      rw [ha.rotate_eq_self hlt ⟨i, hi.trans hlt⟩]
      exact hi
    · intro hj
      exact ⟨j.val, length_commands dev ▸ hj, ha.rotate_eq_self hlt j⟩
  · have hten : dev.commands.length = 10 := Nat.le_antisymm hle hge
    obtain ⟨k, hk, hrot⟩ := exists_rotate_eq dev.buffer.outOffs j
    rw [hten]
    exact ⟨fun _ => j.isLt, fun _ => ⟨k, by rw [← length_commands, hten]; exact hk, hrot⟩⟩

/-- A slot has a buffer exactly when it is in use.
Source: `main.c`, `aesd_ioctl`
Kind: L -/
theorem Accounted.slot_ne_null_iff (ha : Accounted K dev) (j : Fin 10) :
    (dev.buffer.entry j).buffptr ≠ .null ↔ j.val < dev.commands.length := by
  obtain ⟨es, hlog, -⟩ := ha.log
  rw [← ha.occupied_iff]
  constructor
  · intro hne
    by_contra hfree
    exact hne (congrArg AesdBufferEntry.buffptr (hlog.zeroed_of_not_occupied hfree))
  · rintro ⟨k, hk, rfl⟩
    refine ha.ne_null_of_mem (List.mem_map.mpr ⟨k, List.mem_range.mpr hk, rfl⟩)

/-- The number of bytes in the slots before slot `k`, in the order of the array.
Source: `main.c`, `aesd_ioctl`
Kind: D -/
def AesdDev.bytesBefore (dev : AesdDev) (k : ℕ) : ℕ :=
  (((List.finRange 10).take k).map fun i => (dev.buffer.entry i).size).sum

/-- A slot ends within the content.
Source: `main.c`, `aesd_ioctl`
Kind: L -/
theorem bytesBefore_add_size_le (ha : Accounted K dev) (j : Fin 10) :
    dev.bytesBefore j.val + (dev.buffer.entry j).size ≤ dev.content.length := by
  have htotal := ha.sum_slot_sizes
  rw [finRange_eq_append j, List.map_append, List.sum_append, List.map_cons, List.sum_cons,
    ← Nat.add_assoc] at htotal
  exact le_of_le_of_eq (Nat.le_add_right _ _) htotal

/-- The position the ioctl computes for an offset inside the slot `j`.
Source: `main.c`, `aesd_ioctl`
Kind: L -/
theorem ioctlCharOffset_foreach (ha : Accounted K dev) (seekto : AesdSeekto) (j : Fin 10)
    (hj : j.val = seekto.writeCmd.toNat)
    (hoff : seekto.writeCmdOffset.toNat < (dev.buffer.entry j).size) :
    ioctlCharOffset dev.buffer seekto aesdCircularBufferForeach 0 =
      dev.bytesBefore j.val + seekto.writeCmdOffset.toNat := by
  have hle := bytesBefore_add_size_le ha j
  have hsmall := ha.length_content_lt
  have hlt : 0 + dev.bytesBefore j.val + seekto.writeCmdOffset.toNat < SizeT.modulus := by
    unfold SizeT.modulus
    omega
  have hpre : ∀ i ∈ (List.finRange 10).take j.val, i.val ≠ seekto.writeCmd.toNat :=
    fun i hi => hj ▸ (lt_of_mem_take_finRange hi).ne
  unfold aesdCircularBufferForeach
  rw [finRange_eq_append j, ioctlCharOffset_eq dev.buffer seekto j hj _ _ 0 hpre hlt,
    Nat.zero_add]
  rfl

/-- A size below the bound of `loff_t` is itself as a position.
Source: none: infrastructure
Kind: L -/
theorem loffOfSize_of_lt {n : ℕ} (h : n < 2 ^ 63) : loffOfSize n = n := by
  unfold loffOfSize
  exact Int.bmod_eq_of_le (by omega) (by omega)

/-- **The ioctl as a function of the slots.** It succeeds exactly for a slot in use and an offset
inside it, and it moves the position to the bytes before the slot in the array plus the offset.
Source: `main.c`, `aesd_ioctl`
Kind: P -/
theorem aesdIoctl_eq (ha : Accounted K dev) (seekto : AesdSeekto) (fPos : ℤ) :
    aesdIoctl ⟨some seekto, false⟩ aesdcharIocseekto fPos dev =
      if ∃ j : Fin 10, j.val = seekto.writeCmd.toNat ∧ j.val < dev.commands.length ∧
          seekto.writeCmdOffset.toNat < (dev.buffer.entry j).size then
        ((Except.ok () : Except Errno Unit),
          ((dev.bytesBefore seekto.writeCmd.toNat + seekto.writeCmdOffset.toNat : ℕ) : ℤ))
      else (.error .EINVAL, fPos) := by
  rw [aesdIoctl_seekto]
  unfold aesdIoctlSeekto
  by_cases hcmd : seekto.writeCmd.toNat ≥ 10
  · rw [dif_pos hcmd, if_neg]
    rintro ⟨j, hj, -⟩
    exact absurd j.isLt (hj ▸ Nat.not_lt.mpr hcmd)
  · rw [dif_neg hcmd]
    obtain ⟨j, hj⟩ : ∃ j : Fin 10, j.val = seekto.writeCmd.toNat :=
      ⟨⟨_, Nat.lt_of_not_le hcmd⟩, rfl⟩
    have hslot : (⟨seekto.writeCmd.toNat, Nat.lt_of_not_le hcmd⟩ : Fin 10) = j := Fin.ext hj.symm
    have honly : ∀ i : Fin 10, i.val = seekto.writeCmd.toNat → i = j :=
      fun i hi => Fin.ext (hi.trans hj.symm)
    simp only [hslot]
    by_cases hnull : (dev.buffer.entry j).buffptr = .null
    · rw [if_pos hnull, if_neg]
      rintro ⟨i, hi, huse, -⟩
      rw [honly i hi] at huse
      exact (ha.slot_ne_null_iff j).mpr huse hnull
    · rw [if_neg hnull]
      by_cases hoff : seekto.writeCmdOffset.toNat ≥ (dev.buffer.entry j).size
      · rw [if_pos hoff, if_neg]
        rintro ⟨i, hi, -, hlt⟩
        rw [honly i hi] at hlt
        exact absurd hlt (Nat.not_lt.mpr hoff)
      · have hin := Nat.lt_of_not_le hoff
        have huse := (ha.slot_ne_null_iff j).mp hnull
        have hle := bytesBefore_add_size_le ha j
        have hsmall := ha.length_content_lt
        rw [if_neg hoff, if_pos ⟨j, hj, huse, hin⟩, ioctlCharOffset_foreach ha seekto j hj hin, hj,
          loffOfSize_of_lt]
        rw [← hj]
        omega

/-! ### The order of the array and the order of reading -/

/-- The size of the `k`-th oldest command is the size of the slot `k` places after `out_offs`.
Source: `main.c`, `aesd_ioctl`
Kind: L -/
theorem Accounted.length_command (ha : Accounted K dev) {k : ℕ} {cmd : List UInt8}
    (hk : dev.commands[k]? = some cmd) :
    cmd.length = (dev.buffer.entry (rotate dev.buffer.outOffs k)).size :=
  (ha.holds_rotate hk).2.symm

/-- No slot is larger than an allocation.
Source: `main.c`, `aesd_ioctl`
Kind: L -/
theorem Accounted.slot_size_lt (ha : Accounted K dev) (j : Fin 10) :
    (dev.buffer.entry j).size < 2 ^ 32 := by
  obtain ⟨es, hlog, -⟩ := ha.log
  have := K.kmallocMaxSize_lt
  have := K.maxRwCount_lt
  by_cases huse : dev.buffer.Occupied j
  · obtain ⟨k, hk, rfl⟩ := huse
    rw [← length_commands] at hk
    have hcmd := List.getElem?_eq_getElem hk
    have hle := ha.length_command_le (List.getElem_mem hk)
    rw [ha.length_command hcmd] at hle
    omega
  · rw [hlog.zeroed_of_not_occupied huse]
    exact Nat.two_pow_pos 32

/-- The slots agree with the order of reading: slot `j` has the size of the `j`-th oldest entry.
Source: `main.c`, `aesd_ioctl`
Kind: D -/
def AesdCircularBuffer.Aligned (buffer : AesdCircularBuffer) : Prop :=
  ∀ j : Fin 10, (buffer.entry j).size = (buffer.entry (rotate buffer.outOffs j.val)).size

/-- Until the eleventh entry the slots are in the order of reading.
Source: `main.c`, `aesd_ioctl`
Kind: L -/
theorem Accounted.aligned_of_length (ha : Accounted K dev) (hle : dev.added.length ≤ 10) :
    dev.buffer.Aligned := by
  obtain ⟨es, hlog, hlen⟩ := ha.log
  have hzero : dev.buffer.outOffs.val = 0 := by
    rw [hlog.outOffs_eq, hlen, Nat.sub_eq_zero_of_le hle, Nat.zero_mod]
  intro j
  have hsame : rotate dev.buffer.outOffs j.val = j := by
    apply Fin.ext
    rw [rotate_val, hzero, Nat.zero_add, Nat.mod_eq_of_lt j.isLt]
  rw [hsame]

/-- With the slots aligned, the bytes before slot `k` are those of the `k` oldest commands.
Source: `main.c`, `aesd_ioctl`
Kind: L -/
theorem Accounted.bytesBefore_eq (ha : Accounted K dev) (hal : dev.buffer.Aligned) {k : ℕ}
    (hk : k ≤ dev.commands.length) :
    dev.bytesBefore k = ((dev.commands.map List.length).take k).sum := by
  have hle := ha.length_commands_le
  refine congrArg List.sum (List.ext_getElem ?_ fun i hi hi' => ?_)
  · simp only [List.length_map, List.length_take, List.length_finRange]
    omega
  · rw [List.length_take, List.length_map] at hi'
    have hlt : i < dev.commands.length := by omega
    simp only [List.getElem_map, List.getElem_take, List.getElem_finRange,
      ha.length_command (List.getElem?_eq_getElem hlt)]
    exact hal ⟨i, by omega⟩

/-- A seek succeeds exactly for an offset inside the `k`-th oldest command.
Source: `main.c`, `aesd_ioctl`
Kind: D -/
def AddressesInOrder (s : DriverState) : Prop :=
  ∀ (file : ℕ) (seekto : AesdSeekto),
    (aesdIoctl ⟨some seekto, false⟩ aesdcharIocseekto (s.fPos file) s.dev).1 = .ok () ↔
      ∃ cmd, s.dev.commands[seekto.writeCmd.toNat]? = some cmd ∧
        seekto.writeCmdOffset.toNat < cmd.length

/-- A seek succeeds exactly for a slot in use and an offset inside it.
Source: `main.c`, `aesd_ioctl`
Kind: L -/
theorem aesdIoctl_ok_iff (ha : Accounted K dev) (seekto : AesdSeekto) (fPos : ℤ) :
    (aesdIoctl ⟨some seekto, false⟩ aesdcharIocseekto fPos dev).1 = .ok () ↔
      ∃ j : Fin 10, j.val = seekto.writeCmd.toNat ∧ j.val < dev.commands.length ∧
        seekto.writeCmdOffset.toNat < (dev.buffer.entry j).size := by
  rw [aesdIoctl_eq ha]
  split_ifs with h
  · exact iff_of_true rfl h
  · exact iff_of_false (by simp) h

/-- Two numbers below `2 ^ 32` with the same 32-bit numbers below them are equal.
Source: none: infrastructure
Kind: L -/
theorem eq_of_forall_uint32_lt_iff {a b : ℕ} (ha : a < 2 ^ 32) (hb : b < 2 ^ 32)
    (h : ∀ o : UInt32, o.toNat < a ↔ o.toNat < b) : a = b := by
  have hat := h (UInt32.ofNat a)
  have hbt := h (UInt32.ofNat b)
  rw [UInt32.toNat_ofNat_of_lt' ha] at hat
  rw [UInt32.toNat_ofNat_of_lt' hb] at hbt
  omega

/-- The byte asked for exists exactly when the slot that many places after `out_offs` has it.
Source: `main.c`, `aesd_ioctl`
Kind: L -/
theorem Accounted.exists_command_iff (ha : Accounted K dev) (k n : ℕ) :
    (∃ cmd, dev.commands[k]? = some cmd ∧ n < cmd.length) ↔
      k < dev.commands.length ∧ n < (dev.buffer.entry (rotate dev.buffer.outOffs k)).size := by
  constructor
  · rintro ⟨cmd, hcmd, hn⟩
    rw [ha.length_command hcmd] at hn
    exact ⟨(List.getElem?_eq_some_iff.mp hcmd).1, hn⟩
  · rintro ⟨hk, hn⟩
    have hcmd := List.getElem?_eq_getElem hk
    rw [← ha.length_command hcmd] at hn
    exact ⟨_, hcmd, hn⟩

/-- The slots the ioctl accepts are those of the order of reading exactly when they are aligned.
Source: `main.c`, `aesd_ioctl`
Kind: L -/
theorem Accounted.addresses_iff (ha : Accounted K dev) (fPos : ℕ → ℤ) :
    AddressesInOrder ⟨dev, fPos⟩ ↔ dev.buffer.Aligned := by
  have hle := ha.length_commands_le
  constructor
  · intro haddr j
    by_cases huse : j.val < dev.commands.length
    · apply eq_of_forall_uint32_lt_iff (ha.slot_size_lt _) (ha.slot_size_lt _)
      intro o
      have hcmd : (UInt32.ofNat j.val).toNat = j.val :=
        UInt32.toNat_ofNat_of_lt' (j.isLt.trans (by decide))
      have h := haddr 0 ⟨UInt32.ofNat j.val, o⟩
      rw [aesdIoctl_ok_iff ha, ha.exists_command_iff, hcmd] at h
      constructor
      · intro ho
        exact (h.mp ⟨j, rfl, huse, ho⟩).2
      · intro ho
        obtain ⟨i, hi, -, hio⟩ := h.mpr ⟨huse, ho⟩
        rw [Fin.ext hi] at hio
        exact hio
    · rw [ha.rotate_eq_self (by have := j.isLt; omega)]
  · intro hal file seekto
    rw [aesdIoctl_ok_iff ha, ha.exists_command_iff]
    constructor
    · rintro ⟨j, hj, huse, ho⟩
      rw [hal j, hj] at ho
      exact ⟨hj ▸ huse, ho⟩
    · rintro ⟨hk, ho⟩
      exact ⟨⟨_, hk.trans_le hle⟩, rfl, hk, by rw [hal]; exact ho⟩

/-- With the slots aligned, a read at the position of a seek starts at the byte asked for.
Source: `main.c`, `aesd_ioctl`
Kind: L -/
theorem Accounted.read_after_seek (ha : Accounted K dev) (hal : dev.buffer.Aligned) {k n : ℕ}
    {cmd : List UInt8} (hcmd : dev.commands[k]? = some cmd) (hn : n < cmd.length) (count : ℕ) :
    (aesdRead .undisturbed count ((dev.bytesBefore k + n : ℕ) : ℤ) dev).1 =
      .ok ((cmd.drop n).take count) := by
  obtain ⟨hk, hget⟩ := List.getElem?_eq_some_iff.mp hcmd
  have hloc : locate (dev.commands.map List.length)
      (((dev.commands.map List.length).take k).sum + n) = some (k, n) := by
    refine locate_take_sum_add ?_ hn
    rw [List.getElem?_map, hcmd, Option.map_some]
  have hsmall := ha.length_content_lt
  have hpos : ((dev.commands.map List.length).take k).sum + n < 2 ^ 64 := by
    have hnone := (locate_eq_none_iff (dev.commands.map List.length)
      (((dev.commands.map List.length).take k).sum + n)).not.mp (by rw [hloc]; simp)
    rw [← List.length_flatten, ← AesdDev.content] at hnone
    omega
  rw [aesdRead_eq ha, ha.bytesBefore_eq hal hk.le, sizeOfLoff_of_nonneg hpos, hloc]
  simp only [hcmd, Option.getD_some]

end slots

/-! ### In every reachable state -/

/-- **When seeking addresses the right write command.** In every reachable state, whatever was
called before: `AESDCHAR_IOCSEEKTO` succeeds for exactly the offsets inside the `k`-th oldest
retained command, and the next read then starts at that byte of it, exactly when every slot of
the array has the size of the slot as many places after `out_offs`.
Source: `main.c`, `aesd_ioctl` and `aesd_read`
Kind: P -/
theorem seek_addresses_iff (K : KernelLimits) (ops : List DriverOp) :
    let s := driverRun K ops
    (∀ (file : ℕ) (seekto : AesdSeekto),
      let result := (aesdIoctl ⟨some seekto, false⟩ aesdcharIocseekto (s.fPos file) s.dev).1
      let s' := s.exec K (.ioctl file ⟨some seekto, false⟩ aesdcharIocseekto)
      (result = .ok () ↔ ∃ cmd, s.dev.commands[seekto.writeCmd.toNat]? = some cmd ∧
        seekto.writeCmdOffset.toNat < cmd.length) ∧
      (result = .ok () → ∀ count, 1 ≤ count →
        ∃ cmd, s.dev.commands[seekto.writeCmd.toNat]? = some cmd ∧
          (aesdRead .undisturbed count (s'.fPos file) s'.dev).1 =
            .ok ((cmd.drop seekto.writeCmdOffset.toNat).take count))) ↔
      ∀ j : Fin 10, (s.dev.buffer.entry j).size =
        (s.dev.buffer.entry (rotate s.dev.buffer.outOffs j.val)).size := by
  have ha := (represents_driverRun K ops).toAccounted
  generalize driverRun K ops = s at ha ⊢
  have hiff := ha.addresses_iff s.fPos
  constructor
  · intro h
    exact hiff.mp fun file seekto => (h file seekto).1
  · intro hal file seekto
    have haddr := hiff.mpr hal file seekto
    refine ⟨haddr, fun hok count _ => ?_⟩
    obtain ⟨cmd, hcmd, hn⟩ := haddr.mp hok
    refine ⟨cmd, hcmd, ?_⟩
    have hpos : (s.exec K (.ioctl file ⟨some seekto, false⟩ aesdcharIocseekto)).fPos file =
        ((s.dev.bytesBefore seekto.writeCmd.toNat + seekto.writeCmdOffset.toNat : ℕ) : ℤ) := by
      simp only [DriverState.exec, Function.update_self]
      rw [aesdIoctl_eq ha, if_pos ((aesdIoctl_ok_iff ha seekto (s.fPos file)).mp hok)]
    rw [hpos]
    exact ha.read_after_seek hal hcmd hn count

/-- **One seek.** In every reachable state a single call answers rightly, that is with success
exactly for an offset inside the `k`-th oldest retained command, exactly when the offset is inside
both or neither of the slot `k` and the slot `k` places after `out_offs`. So a `write_cmd` of ten or
more, which names no slot, is answered rightly in every state: with `EINVAL`, the position left.
Source: `main.c`, `aesd_ioctl`
Kind: C -/
theorem seek_answers_iff (K : KernelLimits) (ops : List DriverOp) (file : ℕ)
    (seekto : AesdSeekto) :
    let s := driverRun K ops
    let call := aesdIoctl ⟨some seekto, false⟩ aesdcharIocseekto (s.fPos file) s.dev
    ((call.1 = .ok () ↔ ∃ cmd, s.dev.commands[seekto.writeCmd.toNat]? = some cmd ∧
        seekto.writeCmdOffset.toNat < cmd.length) ↔
      ∀ j : Fin 10, j.val = seekto.writeCmd.toNat →
        (seekto.writeCmdOffset.toNat < (s.dev.buffer.entry j).size ↔
          seekto.writeCmdOffset.toNat <
            (s.dev.buffer.entry (rotate s.dev.buffer.outOffs j.val)).size)) ∧
    (10 ≤ seekto.writeCmd.toNat → call = (.error .EINVAL, s.fPos file) ∧
      s.dev.commands[seekto.writeCmd.toNat]? = none) := by
  have ha := (represents_driverRun K ops).toAccounted
  generalize driverRun K ops = s at ha ⊢
  have hle := ha.length_commands_le
  refine ⟨?_, fun hcmd => ⟨?_, List.getElem?_eq_none (by omega)⟩⟩
  · rw [aesdIoctl_ok_iff ha, ha.exists_command_iff]
    constructor
    · intro h j hj
      by_cases huse : j.val < s.dev.commands.length
      · constructor
        · intro ho
          rw [hj]
          exact (h.mp ⟨j, hj, huse, ho⟩).2
        · intro ho
          rw [hj] at huse ho
          obtain ⟨i, hi, -, hio⟩ := h.mpr ⟨huse, ho⟩
          rwa [Fin.ext (hj.trans hi.symm)]
      · rw [ha.rotate_eq_self (by have := j.isLt; omega)]
    · intro h
      constructor
      · rintro ⟨j, hj, huse, ho⟩
        rw [← hj]
        exact ⟨huse, (h j hj).mp ho⟩
      · rintro ⟨hk, ho⟩
        exact ⟨⟨_, hk.trans_le hle⟩, rfl, hk, (h ⟨_, hk.trans_le hle⟩ rfl).mpr ho⟩
  · rw [aesdIoctl_eq ha, if_neg]
    rintro ⟨j, hj, -⟩
    exact absurd j.isLt (by omega)

/-- Once the ring has wrapped, seeking goes by the slots of the array: ten commands `"\n"` and then
`"bb\n"`, which takes slot zero. The oldest command has one byte, and yet its byte two is sought
successfully.
Source: `main.c`, `aesd_ioctl`
Kind: N− -/
theorem seek_addresses_slots :
    ¬ ∀ (K : KernelLimits) (ops : List DriverOp) (file : ℕ) (seekto : AesdSeekto),
      (aesdIoctl ⟨some seekto, false⟩ aesdcharIocseekto ((driverRun K ops).fPos file)
          (driverRun K ops).dev).1 = .ok () ↔
        ∃ cmd, (driverRun K ops).dev.commands[seekto.writeCmd.toNat]? = some cmd ∧
          seekto.writeCmdOffset.toNat < cmd.length := by
  intro h
  have hseek := h .pages4K (List.replicate 10 (.write 0 .undisturbed [10]) ++
    [.write 0 .undisturbed [98, 98, 10]]) 0 ⟨0, 2⟩
  obtain ⟨cmd, hcmd, hlt⟩ := hseek.mp (by decide +kernel)
  have hold : (driverRun .pages4K (List.replicate 10 (.write 0 .undisturbed [10]) ++
    [.write 0 .undisturbed [98, 98, 10]])).dev.commands[0]? = some [10] := by decide +kernel
  rw [show ((⟨0, 2⟩ : AesdSeekto).writeCmd.toNat) = 0 from rfl, hold, Option.some.injEq] at hcmd
  rw [← hcmd] at hlt
  exact absurd hlt (by decide)

end Aesd.Driver
