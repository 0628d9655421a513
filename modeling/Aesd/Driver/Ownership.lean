import Aesd.Driver.Represent

/-!
# Who owns the buffers

The kernel heap is a ledger (`Aesd.Lib.Heap`): every allocation has an identifier of its own and
every release is recorded.

* `buffer_ownership` — in every reachable state the live buffers are exactly those of the entries
  in use and of the pending entry, each once. Nothing is released twice, nothing released is still
  pointed to by any slot, and nothing leaks while the module is loaded.
* `cleanup_releases_iff` — unloading releases everything exactly when no bytes are pending:
  `aesd_cleanup_module` walks the slots of the ring but not `current_write_entry`.
-/

namespace Aesd.Driver

open Aesd.Lib

/-- The pointers the device keeps: the pending entry's and those of the entries in use.
Source: `main.c`, `aesd_write` and `aesd_cleanup_module`
Kind: D -/
def AesdDev.pointers (dev : AesdDev) : List Ptr :=
  dev.currentWriteEntry.buffptr :: dev.buffer.retained.map AesdBufferEntry.buffptr

/-- The pointers in the slots of the array, in its order, whether in use or not.
Source: `main.c`, `aesd_write` and `aesd_cleanup_module`
Kind: D -/
def AesdDev.slotPointers (dev : AesdDev) : List Ptr :=
  (List.finRange 10).map fun j => (dev.buffer.entry j).buffptr

/-- Zeroed entries point to no block.
Source: `main.c`, `aesd_write` and `aesd_cleanup_module`
Kind: L -/
theorem ids_of_zeroed {zs : List AesdBufferEntry} (hz : ∀ e ∈ zs, e = .zeroed) :
    Ptr.ids (zs.map AesdBufferEntry.buffptr) = [] := by
  induction zs with
  | nil => rfl
  | cons e zs ih =>
      rw [List.forall_mem_cons] at hz
      rw [List.map_cons, hz.1]
      exact ih hz.2

/-- The slots name the same buffers as the entries in use.
Source: `aesd-circular-buffer.c`, `aesd_circular_buffer_add_entry`
Kind: L -/
theorem Accounted.ids_slotPointers {K : KernelLimits} {dev : AesdDev} (ha : Accounted K dev) :
    (Ptr.ids dev.slotPointers).Perm
      (Ptr.ids (dev.buffer.retained.map AesdBufferEntry.buffptr)) := by
  obtain ⟨es, hlog, -⟩ := ha.log
  obtain ⟨zs, hz, hperm⟩ := hlog.slots_perm
  have hslots : dev.slotPointers = ((List.finRange 10).map dev.buffer.entry).map
      AesdBufferEntry.buffptr := by
    rw [List.map_map]
    rfl
  have hids := Ptr.ids_perm (hperm.map AesdBufferEntry.buffptr)
  rw [List.map_append, Ptr.ids_append, ids_of_zeroed hz, List.append_nil] at hids
  rw [hslots]
  exact hids

/-- **Buffer ownership.** In every reachable state of the driver, under any failures: the live
buffers are exactly those of the entries in use and of the pending entry, no buffer occurring
twice among them; no buffer has been released twice; no slot of the array and no pending entry
points to a released buffer; and every buffer ever allocated has been released or is one of them.
Source: `main.c`, `aesd_write`; `aesd-circular-buffer.c`, `aesd_circular_buffer_add_entry`
Kind: P -/
theorem buffer_ownership (K : KernelLimits) (ops : List DriverOp) :
    let dev := (driverRun K ops).dev
    (∀ id, (dev.heap.block id).isSome = true ↔ id ∈ Ptr.ids dev.pointers) ∧
    (Ptr.ids dev.pointers).Nodup ∧
    (∀ id, dev.heap.freed.count id ≤ 1) ∧
    (∀ id ∈ dev.heap.freed, dev.currentWriteEntry.buffptr ≠ .block id ∧
      ∀ j, (dev.buffer.entry j).buffptr ≠ .block id) ∧
    ∀ id < dev.heap.next, id ∈ dev.heap.freed ∨ id ∈ Ptr.ids dev.pointers := by
  have hrep := represents_driverRun K ops
  have howned := hrep.owned
  refine ⟨howned.live_iff, howned.nodup, howned.count_freed_le_one, ?_,
    fun id hid => howned.freed_or_mem hid⟩
  intro id hfreed
  have hnot := howned.not_mem_of_freed hfreed
  refine ⟨fun heq => hnot (Ptr.mem_ids.mpr (heq ▸ List.mem_cons_self)), fun j heq => hnot ?_⟩
  have hslot : id ∈ Ptr.ids (driverRun K ops).dev.slotPointers := by
    refine Ptr.mem_ids.mpr (List.mem_map.mpr ⟨j, List.mem_finRange j, heq⟩)
  have hmem := Ptr.mem_ids.mp (hrep.ids_slotPointers.mem_iff.mp hslot)
  exact Ptr.mem_ids.mpr (List.mem_cons_of_mem _ hmem)

/-! ### Unloading -/

/-- Unloading releases the pointers in the slots, in the order of the array.
Source: `main.c`, `aesd_cleanup_module`
Kind: L -/
theorem aesdCleanupModule_eq (dev : AesdDev) :
    aesdCleanupModule dev = dev.slotPointers.foldl Heap.free dev.heap := by
  unfold aesdCleanupModule AesdDev.slotPointers aesdCircularBufferForeach
  rw [List.foldl_map]
  refine congrArg (fun f => List.foldl f dev.heap _) ?_
  funext h index
  by_cases hnull : (dev.buffer.entry index).buffptr = .null
  · simp [hnull]
  · simp [hnull]

/-- After unloading, only the pending entry's pointer is left to account for the heap.
Source: `main.c`, `aesd_cleanup_module`
Kind: L -/
theorem Accounted.owned_cleanup {K : KernelLimits} {dev : AesdDev} (ha : Accounted K dev) :
    (aesdCleanupModule dev).Owned [dev.currentWriteEntry.buffptr] := by
  rw [aesdCleanupModule_eq]
  apply Heap.Owned.freeAll
  have hids : (Ptr.ids dev.pointers).Perm
      (Ptr.ids (dev.slotPointers ++ [dev.currentWriteEntry.buffptr])) := by
    rw [Ptr.ids_append]
    have hcons : Ptr.ids dev.pointers = Ptr.ids [dev.currentWriteEntry.buffptr] ++
        Ptr.ids (dev.buffer.retained.map AesdBufferEntry.buffptr) :=
      Ptr.ids_append [dev.currentWriteEntry.buffptr] _
    rw [hcons]
    exact List.perm_append_comm.trans (ha.ids_slotPointers.symm.append_right _)
  exact ⟨ha.owned.lt_next, ha.owned.freed_count, hids.nodup_iff.mp ha.owned.nodup,
    fun id => (ha.owned.live_iff id).trans hids.mem_iff⟩

/-- **When unloading releases everything.** After any run and `aesd_cleanup_module`, every buffer
ever allocated has been released exactly once and none is live exactly when no bytes were pending.
Source: `main.c`, `aesd_cleanup_module`
Kind: P -/
theorem cleanup_releases_iff (K : KernelLimits) (ops : List DriverOp) :
    let dev := (driverRun K ops).dev
    let h := aesdCleanupModule dev
    ((∀ id < h.next, h.freed.count id = 1) ∧ ∀ id, h.block id = none) ↔
      dev.currentWriteEntry.size = 0 := by
  have hrep := represents_driverRun K ops
  generalize (driverRun K ops).dev = dev at hrep ⊢
  have howned := hrep.owned_cleanup
  constructor
  · rintro ⟨-, hdead⟩
    cases hptr : dev.currentWriteEntry.buffptr with
    | null => rw [← hrep.pending_length, hptr]; rfl
    | zeroSize => rw [← hrep.pending_length, hptr]; rfl
    | block id =>
        have hlive := howned.live_of_mem (i := id) (by simp [hptr])
        rw [hdead id] at hlive
        cases hlive
  · intro hsize
    have hnone : Ptr.ids [dev.currentWriteEntry.buffptr] = [] := by
      cases hptr : dev.currentWriteEntry.buffptr with
      | null => rfl
      | zeroSize => rfl
      | block id => exact absurd (hrep.pending_pos id hptr) (by omega)
    have hdead : ∀ id, (aesdCleanupModule dev).block id = none := by
      intro id
      have hiff := howned.live_iff id
      rw [hnone] at hiff
      simpa using hiff
    refine ⟨fun id hid => ?_, hdead⟩
    rw [howned.freed_count id, if_pos ⟨hid, by simp [hdead id]⟩]

/-- Unloading does not release everything in general: one byte is written without a newline, and
its buffer is still live after the module is gone.
Source: `main.c`, `aesd_cleanup_module`
Kind: N− -/
theorem cleanup_leaks_pending :
    ¬ ∀ (K : KernelLimits) (ops : List DriverOp),
      (∀ id < (aesdCleanupModule (driverRun K ops).dev).next,
        (aesdCleanupModule (driverRun K ops).dev).freed.count id = 1) ∧
      ∀ id, (aesdCleanupModule (driverRun K ops).dev).block id = none := by
  intro h
  have hdead := (h .pages4K [.write 0 .undisturbed [97]]).2 0
  exact absurd hdead (by decide)

end Aesd.Driver
