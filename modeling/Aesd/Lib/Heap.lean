import Mathlib.Data.List.Count
import Mathlib.Data.List.Nodup
import Mathlib.Logic.Function.Basic
import Mathlib.Tactic.Common

/-!
# A heap with a ledger

A heap of blocks of values of type `β`, kept as an explicit ledger: every allocation gets an
identifier of its own (`next` counts them), `block` maps the identifiers that are live to their
contents, and `freed` lists every release ever made, so that a block released twice would stand in
it twice. A pointer is null, the distinguished address handed out for an empty request, or a block.

`Owned h ps` says that the pointers `ps` account for the heap: they name every live block, each
one once, and the ledger is balanced (a block that is not live has been released exactly once).
The rules below say how the primitive operations keep it:

* `Owned.fresh`, `Owned.free`, `Owned.put` — a new block is one more pointer to account for, a
  released one is one less, writing to a block changes neither;
* `load_fresh_of_mem`, `load_free_of_mem`, `load_put_of_mem` — the frame rules: what the *other*
  owned pointers hold is untouched.
-/

namespace Aesd.Lib

/-- A pointer: null, the address of an empty request (never dereferenced), or a block.
Source: none: infrastructure
Kind: D -/
inductive Ptr where
  | null
  | zeroSize
  | block (id : ℕ)
  deriving DecidableEq, Repr

/-- The identifiers of the blocks a list of pointers names, in order.
Source: none: infrastructure
Kind: D -/
def Ptr.ids (ps : List Ptr) : List ℕ :=
  ps.filterMap fun
    | .block id => some id
    | _ => none

namespace Ptr

/-- No pointers, no blocks.
Source: none: infrastructure
Kind: L -/
@[simp] theorem ids_nil : ids [] = [] := rfl

/-- A pointer to a block counts with its number.
Source: none: infrastructure
Kind: L -/
@[simp] theorem ids_cons_block (id : ℕ) (ps : List Ptr) : ids (block id :: ps) = id :: ids ps := rfl

/-- The blocks of two lists of pointers.
Source: none: infrastructure
Kind: L -/
theorem ids_append (ps qs : List Ptr) : ids (ps ++ qs) = ids ps ++ ids qs :=
  List.filterMap_append

/-- The order of the pointers is that of their blocks.
Source: none: infrastructure
Kind: L -/
theorem ids_perm {ps qs : List Ptr} (hp : ps.Perm qs) : (ids ps).Perm (ids qs) :=
  hp.filterMap _

/-- A block is pointed to by the pointer that names it.
Source: none: infrastructure
Kind: L -/
theorem mem_ids {id : ℕ} {ps : List Ptr} : id ∈ ids ps ↔ block id ∈ ps := by
  simp only [ids, List.mem_filterMap]
  constructor
  · rintro ⟨p, hp, heq⟩
    cases p with
    | null => cases heq
    | zeroSize => cases heq
    | block i =>
        obtain rfl : i = id := by simpa using heq
        exact hp
  · intro h
    exact ⟨block id, h, rfl⟩

end Ptr

/-- The heap and its ledger.
Source: none: infrastructure
Kind: D -/
structure Heap (β : Type*) where
  /-- The contents of the live blocks. -/
  block : ℕ → Option (List β)
  /-- The number of allocations made so far, which is the next identifier. -/
  next : ℕ
  /-- Every release made so far, latest first. -/
  freed : List ℕ

namespace Heap

variable {β : Type*}

/-- Nothing allocated yet.
Source: none: infrastructure
Kind: D -/
def empty : Heap β := ⟨fun _ => none, 0, []⟩

/-- The contents behind a pointer.
Source: none: infrastructure
Kind: D -/
def load (h : Heap β) : Ptr → List β
  | .block id => (h.block id).getD []
  | _ => []

/-- Allocate a block with the given contents; its pointer is `Ptr.block h.next`.
Source: none: infrastructure
Kind: D -/
def fresh (h : Heap β) (bytes : List β) : Heap β :=
  ⟨Function.update h.block h.next (some bytes), h.next + 1, h.freed⟩

/-- Release a block. Releasing null or the empty address does nothing.
Source: none: infrastructure
Kind: D -/
def free (h : Heap β) : Ptr → Heap β
  | .block id => ⟨Function.update h.block id none, h.next, id :: h.freed⟩
  | _ => h

/-- Overwrite the contents behind a pointer; a block that is not live stays so.
Source: none: infrastructure
Kind: D -/
def put (h : Heap β) (p : Ptr) (bytes : List β) : Heap β :=
  match p with
  | .block id => { h with block := Function.update h.block id ((h.block id).map fun _ => bytes) }
  | _ => h

/-- The pointer names a block that is live: it is not null, and was not released.
Source: none: infrastructure
Kind: D -/
def Live (h : Heap β) (p : Ptr) : Prop := ∃ id, p = .block id ∧ (h.block id).isSome = true

/-- Nothing stands behind `NULL`.
Source: none: infrastructure
Kind: L -/
@[simp] theorem load_null (h : Heap β) : h.load .null = [] := rfl

/-- Nothing stands behind the pointer to no bytes.
Source: none: infrastructure
Kind: L -/
@[simp] theorem load_zeroSize (h : Heap β) : h.load .zeroSize = [] := rfl

/-- Freeing `NULL` does nothing.
Source: none: infrastructure
Kind: L -/
@[simp] theorem free_null (h : Heap β) : h.free .null = h := rfl

/-- A new block holds what it was made with.
Source: none: infrastructure
Kind: L -/
@[simp] theorem load_fresh_self (h : Heap β) (bytes : List β) :
    (h.fresh bytes).load (.block h.next) = bytes := by simp [load, fresh]

/-- The pointers `ps` account for the heap.
Source: none: infrastructure
Kind: D -/
structure Owned (h : Heap β) (ps : List Ptr) : Prop where
  /-- Only what was allocated is live. -/
  lt_next : ∀ id, (h.block id).isSome = true → id < h.next
  /-- A block that was allocated and is not live has been released exactly once; nothing else has
  been released. -/
  freed_count : ∀ id, h.freed.count id = if id < h.next ∧ (h.block id).isNone = true then 1 else 0
  /-- No block is named twice. -/
  nodup : (Ptr.ids ps).Nodup
  /-- Exactly the named blocks are live. -/
  live_iff : ∀ id, (h.block id).isSome = true ↔ id ∈ Ptr.ids ps

namespace Owned

variable {h : Heap β} {p q : Ptr} {ps qs : List Ptr} {bytes : List β}

/-- Nothing is owned of the empty heap.
Source: none: infrastructure
Kind: L -/
theorem of_empty : Owned (empty : Heap β) [] where
  lt_next id hid := by simp [empty] at hid
  freed_count id := by simp [empty]
  nodup := by simp
  live_iff id := by simp [empty]

/-- The order in which the pointers are listed does not matter.
Source: none: infrastructure
Kind: L -/
theorem perm (ho : Owned h ps) (hp : ps.Perm qs) : Owned h qs where
  lt_next := ho.lt_next
  freed_count := ho.freed_count
  nodup := (Ptr.ids_perm hp).nodup_iff.mp ho.nodup
  live_iff id := (ho.live_iff id).trans (Ptr.ids_perm hp).mem_iff

/-- Pointers that name no block need no accounting.
Source: none: infrastructure
Kind: L -/
theorem of_ids_eq (ho : Owned h ps) (heq : Ptr.ids qs = Ptr.ids ps) : Owned h qs where
  lt_next := ho.lt_next
  freed_count := ho.freed_count
  nodup := heq ▸ ho.nodup
  live_iff id := heq ▸ ho.live_iff id

/-- What is owned is there.
Source: none: infrastructure
Kind: L -/
theorem live_of_mem {i : ℕ} (ho : Owned h ps) (hmem : Ptr.block i ∈ ps) :
    (h.block i).isSome = true := (ho.live_iff i).mpr (Ptr.mem_ids.mpr hmem)

/-- The next block is owned by nobody.
Source: none: infrastructure
Kind: L -/
theorem next_not_mem (ho : Owned h ps) : Ptr.block h.next ∉ ps := fun hmem =>
  Nat.lt_irrefl _ (ho.lt_next _ (ho.live_of_mem hmem))

/-- A fresh block is one more pointer to account for.
Source: none: infrastructure
Kind: L -/
theorem fresh (ho : Owned h ps) (bytes : List β) :
    Owned (h.fresh bytes) (.block h.next :: ps) := by
  refine ⟨?_, ?_, ?_, ?_⟩
  · intro id hid
    by_cases heq : id = h.next
    · simp [Heap.fresh, heq]
    · simp only [Heap.fresh, Function.update_of_ne heq] at hid
      exact Nat.lt_succ_of_lt (ho.lt_next id hid)
  · intro id
    by_cases heq : id = h.next
    · have hcount := ho.freed_count h.next
      simp only [Nat.lt_irrefl, false_and, if_false] at hcount
      simp [Heap.fresh, heq, hcount]
    · have hlt : id < h.next + 1 ↔ id < h.next := by omega
      simp only [Heap.fresh, Function.update_of_ne heq, hlt]
      exact ho.freed_count id
  · rw [Ptr.ids_cons_block, List.nodup_cons]
    exact ⟨fun hmem => ho.next_not_mem (Ptr.mem_ids.mp hmem), ho.nodup⟩
  · intro id
    by_cases heq : id = h.next
    · simp [Heap.fresh, heq]
    · simp only [Heap.fresh, Function.update_of_ne heq, Ptr.ids_cons_block, List.mem_cons, heq,
        false_or]
      exact ho.live_iff id

/-- A released pointer needs no accounting any more.
Source: none: infrastructure
Kind: L -/
theorem free (ho : Owned h (p :: ps)) : Owned (h.free p) ps := by
  cases p with
  | null => exact ho.of_ids_eq rfl
  | zeroSize => exact ho.of_ids_eq rfl
  | block i =>
      have hlive := ho.live_of_mem (i := i) List.mem_cons_self
      have hnd := ho.nodup
      rw [Ptr.ids_cons_block, List.nodup_cons] at hnd
      refine ⟨?_, ?_, hnd.2, ?_⟩
      · intro id hid
        by_cases heq : id = i
        · simp [Heap.free, heq] at hid
        · simp only [Heap.free, Function.update_of_ne heq] at hid
          exact ho.lt_next id hid
      · intro id
        by_cases heq : id = i
        · have hcount := ho.freed_count i
          rw [if_neg (by simp [Option.isSome_iff_ne_none.mp hlive])] at hcount
          subst heq
          simp [Heap.free, hcount, ho.lt_next id hlive]
        · simp only [Heap.free, Function.update_of_ne heq, List.count_cons_of_ne (Ne.symm heq)]
          exact ho.freed_count id
      · intro id
        by_cases heq : id = i
        · subst heq
          simp [Heap.free, hnd.1]
        · have hiff := ho.live_iff id
          rw [Ptr.ids_cons_block, List.mem_cons] at hiff
          simp only [Heap.free, Function.update_of_ne heq]
          rw [hiff]
          exact or_iff_right heq

/-- Releasing pointers one after another.
Source: none: infrastructure
Kind: L -/
theorem freeAll (ho : Owned h (ps ++ qs)) : Owned (ps.foldl Heap.free h) qs := by
  induction ps generalizing h with
  | nil => exact ho
  | cons p ps ih =>
      rw [List.foldl_cons]
      exact ih ho.free

/-- Writing to a block keeps what is owned.
Source: none: infrastructure
Kind: L -/
theorem put (ho : Owned h ps) (p : Ptr) (bytes : List β) : Owned (h.put p bytes) ps := by
  cases p with
  | null => exact ho
  | zeroSize => exact ho
  | block i =>
      have hsome : ∀ id, ((h.put (.block i) bytes).block id).isSome = (h.block id).isSome := by
        intro id
        by_cases heq : id = i
        · simp [Heap.put, heq]
        · simp [Heap.put, Function.update_of_ne heq]
      refine ⟨?_, ?_, ho.nodup, ?_⟩
      · intro id hid
        exact ho.lt_next id (hsome id ▸ hid)
      · intro id
        have hnone : ((h.put (.block i) bytes).block id).isNone = (h.block id).isNone := by
          rw [← Option.not_isSome, ← Option.not_isSome, hsome]
        rw [hnone]
        exact ho.freed_count id
      · intro id
        rw [hsome]
        exact ho.live_iff id

/-! ### Frame rules -/

/-- A new block leaves the owned ones alone.
Source: none: infrastructure
Kind: L -/
theorem load_fresh_of_mem (ho : Owned h ps) (hq : q ∈ ps) : (h.fresh bytes).load q = h.load q := by
  cases q with
  | null => rfl
  | zeroSize => rfl
  | block i =>
      have hne : i ≠ h.next := fun heq => ho.next_not_mem (heq ▸ hq)
      simp [Heap.load, Heap.fresh, Function.update_of_ne hne]

/-- Two owned blocks are different.
Source: none: infrastructure
Kind: L -/
theorem ne_of_mem {i j : ℕ} (ho : Owned h (.block i :: ps)) (hq : Ptr.block j ∈ ps) : j ≠ i := by
  have hnd := ho.nodup
  rw [Ptr.ids_cons_block, List.nodup_cons] at hnd
  exact fun heq => hnd.1 (heq ▸ Ptr.mem_ids.mpr hq)

/-- Freeing one owned block leaves the others alone.
Source: none: infrastructure
Kind: L -/
theorem load_free_of_mem (ho : Owned h (p :: ps)) (hq : q ∈ ps) : (h.free p).load q = h.load q := by
  cases p with
  | null => rfl
  | zeroSize => rfl
  | block i =>
      cases q with
      | null => rfl
      | zeroSize => rfl
      | block j => simp [Heap.load, Heap.free, Function.update_of_ne (ho.ne_of_mem hq)]

/-- Writing to one owned block leaves the others alone.
Source: none: infrastructure
Kind: L -/
theorem load_put_of_mem (ho : Owned h (p :: ps)) (hq : q ∈ ps) :
    (h.put p bytes).load q = h.load q := by
  cases p with
  | null => rfl
  | zeroSize => rfl
  | block i =>
      cases q with
      | null => rfl
      | zeroSize => rfl
      | block j => simp [Heap.load, Heap.put, Function.update_of_ne (ho.ne_of_mem hq)]

/-- An owned block holds what was written to it.
Source: none: infrastructure
Kind: L -/
theorem load_put_self {i : ℕ} (ho : Owned h (.block i :: ps)) :
    (h.put (.block i) bytes).load (.block i) = bytes := by
  have hlive := ho.live_of_mem (i := i) List.mem_cons_self
  obtain ⟨old, hold⟩ := Option.isSome_iff_exists.mp hlive
  simp [Heap.load, Heap.put, hold]

/-! ### What the ledger says -/

/-- No block is freed twice.
Source: none: infrastructure
Kind: L -/
theorem count_freed_le_one (ho : Owned h ps) (id : ℕ) : h.freed.count id ≤ 1 := by
  rw [ho.freed_count]
  split_ifs <;> omega

/-- What has been released is not named any more.
Source: none: infrastructure
Kind: L -/
theorem not_mem_of_freed {id : ℕ} (ho : Owned h ps) (hf : id ∈ h.freed) : id ∉ Ptr.ids ps := by
  intro hmem
  have hlive := (ho.live_iff id).mpr hmem
  have hpos := List.count_pos_iff.mpr hf
  rw [ho.freed_count, if_neg (by simp [Option.isSome_iff_ne_none.mp hlive])] at hpos
  exact absurd hpos (Nat.lt_irrefl 0)

/-- Everything ever allocated has been released or is still named: nothing leaks.
Source: none: infrastructure
Kind: L -/
theorem freed_or_mem {id : ℕ} (ho : Owned h ps) (hid : id < h.next) :
    id ∈ h.freed ∨ id ∈ Ptr.ids ps := by
  by_cases hlive : (h.block id).isSome = true
  · exact Or.inr ((ho.live_iff id).mp hlive)
  · refine Or.inl (List.count_pos_iff.mp ?_)
    rw [ho.freed_count, if_pos ⟨hid, by simpa using hlive⟩]
    exact Nat.one_pos

end Owned

end Heap

end Aesd.Lib
