import Aesd.Lib.Concat
import Aesd.Lib.Heap
import Aesd.Lib.Rotation

/-!
# The circular buffer of write commands (`aesd-circular-buffer.c`)

The ring of ten `aesd_buffer_entry` slots, with its three operations as the source has them:
`aesdCircularBufferInit`, `aesdCircularBufferAddEntry` and
`aesdCircularBufferFindEntryOffsetForFpos`. An index that only ever takes values below the
capacity (`in_offs`, `out_offs`, the local `index`) is a `Fin`; a `size_t` is a natural number
with explicit wrap-around (`SizeT.add`, `SizeT.sub`, `SizeT.mul`).

* `BufferLog b es` instantiates the rotating-log relation of `Aesd.Lib.Rotation` at the buffer:
  `b` is what adding `es` one by one leaves. `bufferLog_addEntries` is its run lemma.
* `addEntries_bounded_fifo` — the buffer is a bounded FIFO: contents, indices, flag, untouched
  slots and every returned pointer, after any sequence of additions.
* `find_eq_locate` — the offset lookup of a buffer in use is the lookup in the concatenation of
  the retained entries, oldest first; `find_exact` says it for every buffer that additions lead to,
  with the result parameter.
-/

namespace Aesd.Driver

open Aesd.Lib

/-! ### `size_t` -/

namespace SizeT

/-- The number of values of a `size_t`.
Source: `aesd-circular-buffer.c`
Kind: D -/
def modulus : ℕ := 2 ^ 64

/-- `size_t` addition.
Source: `aesd-circular-buffer.c`
Kind: D -/
def add (a b : ℕ) : ℕ := (a + b) % modulus

/-- `size_t` subtraction.
Source: `aesd-circular-buffer.c`
Kind: D -/
def sub (a b : ℕ) : ℕ := (a + (modulus - b % modulus)) % modulus

/-- `size_t` multiplication.
Source: `aesd-circular-buffer.c`
Kind: D -/
def mul (a b : ℕ) : ℕ := a * b % modulus

/-- A sum that fits does not wrap.
Source: none: infrastructure
Kind: L -/
theorem add_of_lt {a b : ℕ} (h : a + b < modulus) : add a b = a + b := Nat.mod_eq_of_lt h

/-- A product that fits does not wrap.
Source: none: infrastructure
Kind: L -/
theorem mul_of_lt {a b : ℕ} (h : a * b < modulus) : mul a b = a * b := Nat.mod_eq_of_lt h

/-- A difference that is none below zero does not wrap.
Source: none: infrastructure
Kind: L -/
theorem sub_of_le {a b : ℕ} (hab : b ≤ a) (ha : a < modulus) : sub a b = a - b := by
  rw [sub, Nat.mod_eq_of_lt (hab.trans_lt ha),
    show a + (modulus - b) = (a - b) + modulus by omega, Nat.add_mod_right,
    Nat.mod_eq_of_lt (by omega)]

end SizeT

/-! ### The data -/

/-- `AESDCHAR_MAX_WRITE_OPERATIONS_SUPPORTED`.
Source: `aesd-circular-buffer.h`
Kind: D -/
abbrev aesdcharMaxWriteOperationsSupported : ℕ := 10

/-- A write command: where its bytes are and how many there are.
Source: `aesd-circular-buffer.h`, `struct aesd_buffer_entry`
Kind: D -/
structure AesdBufferEntry where
  buffptr : Ptr
  size : ℕ
  deriving DecidableEq, Repr

/-- An entry of zero bytes, as `memset` leaves it.
Source: `aesd-circular-buffer.c`, `aesd_circular_buffer_init`
Kind: D -/
def AesdBufferEntry.zeroed : AesdBufferEntry := ⟨.null, 0⟩

/-- The ring of write commands.
Source: `aesd-circular-buffer.h`, `struct aesd_circular_buffer`
Kind: D -/
structure AesdCircularBuffer where
  /-- The most recent write operations. -/
  entry : Fin aesdcharMaxWriteOperationsSupported → AesdBufferEntry
  /-- Where the next write is stored. -/
  inOffs : Fin aesdcharMaxWriteOperationsSupported
  /-- The first location to read from. -/
  outOffs : Fin aesdcharMaxWriteOperationsSupported
  /-- Set once every location is in use. -/
  full : Bool

/-! ### The operations -/

/-- All slots zeroed, both offsets at the first, not full.
Source: `aesd-circular-buffer.c`, `aesd_circular_buffer_init`
Kind: D -/
def aesdCircularBufferInit : AesdCircularBuffer := ⟨fun _ => .zeroed, 0, 0, false⟩

/-- The returned pointer is the overwritten entry's, read at `in_offs` before the store.
Source: `aesd-circular-buffer.c`, `aesd_circular_buffer_add_entry`
Kind: D -/
def aesdCircularBufferAddEntry (buffer : AesdCircularBuffer) (addEntry : AesdBufferEntry) :
    Ptr × AesdCircularBuffer :=
  let removed := if buffer.full then (buffer.entry buffer.inOffs).buffptr else .null
  let outOffs := if buffer.full then rotate buffer.outOffs 1 else buffer.outOffs
  let inOffs := rotate buffer.inOffs 1
  (removed,
    { entry := Function.update buffer.entry buffer.inOffs addEntry
      inOffs := inOffs
      outOffs := outOffs
      full := if inOffs = outOffs then true else buffer.full })

/-- The `do … while` of the lookup. One unit of fuel is one execution of the body; `none` is a
loop that is still running, `some none` is the final `return NULL`.
Source: `aesd-circular-buffer.c`, `aesd_circular_buffer_find_entry_offset_for_fpos`
Kind: D -/
def findLoop (buffer : AesdCircularBuffer) (charOffset : ℕ) :
    ℕ → ℕ → Fin aesdcharMaxWriteOperationsSupported →
      Option (Option (Fin aesdcharMaxWriteOperationsSupported × ℕ))
  | 0, _, _ => none
  | fuel + 1, runningSize, index =>
      if charOffset < SizeT.add runningSize (buffer.entry index).size then
        some (some (index, SizeT.sub charOffset runningSize))
      else
        let runningSize := SizeT.add runningSize (buffer.entry index).size
        let index := rotate index 1
        if (index ≠ buffer.inOffs ∨ buffer.full = true) ∧ index ≠ buffer.outOffs then
          findLoop buffer charOffset fuel runningSize index
        else
          some none

/-- One execution of the loop body.
Source: none: infrastructure
Kind: L -/
theorem findLoop_succ (buffer : AesdCircularBuffer) (charOffset fuel runningSize : ℕ)
    (index : Fin aesdcharMaxWriteOperationsSupported) :
    findLoop buffer charOffset (fuel + 1) runningSize index =
      if charOffset < SizeT.add runningSize (buffer.entry index).size then
        some (some (index, SizeT.sub charOffset runningSize))
      else if (rotate index 1 ≠ buffer.inOffs ∨ buffer.full = true) ∧
          rotate index 1 ≠ buffer.outOffs then
        findLoop buffer charOffset fuel (SizeT.add runningSize (buffer.entry index).size)
          (rotate index 1)
      else some none := rfl

/-- The loop comes back to `out_offs`, where it stops, within one turn.
Source: none: infrastructure
Kind: L -/
theorem findLoop_isSome (buffer : AesdCircularBuffer) (charOffset : ℕ) :
    ∀ (m k runningSize : ℕ), k + (m + 1) = aesdcharMaxWriteOperationsSupported →
      (findLoop buffer charOffset (m + 1) runningSize (rotate buffer.outOffs k)).isSome = true
  | 0, k, runningSize, hk => by
      have hturn : rotate (rotate buffer.outOffs k) 1 = buffer.outOffs := by
        rw [rotate_rotate, hk, rotate_self]
      rw [findLoop_succ, hturn]
      simp only [ne_eq, not_true, and_false, if_false]
      split_ifs <;> rfl
  | m + 1, k, runningSize, hk => by
      have ih := findLoop_isSome buffer charOffset m (k + 1)
        (SizeT.add runningSize (buffer.entry (rotate buffer.outOffs k)).size) (by omega)
      rw [← rotate_rotate] at ih
      rw [findLoop_succ]
      split_ifs
      · rfl
      · exact ih
      · rfl

/-- The entry that holds byte `charOffset` of the retained data, by its slot, with the offset in
it; `none` is `NULL`, in which case `*entry_offset_byte_rtn` is not written.
Source: `aesd-circular-buffer.c`, `aesd_circular_buffer_find_entry_offset_for_fpos`
Kind: D -/
def aesdCircularBufferFindEntryOffsetForFpos (buffer : AesdCircularBuffer) (charOffset : ℕ) :
    Option (Fin aesdcharMaxWriteOperationsSupported × ℕ) :=
  (findLoop buffer charOffset aesdcharMaxWriteOperationsSupported 0 buffer.outOffs).get
    (rotate_zero buffer.outOffs ▸ findLoop_isSome buffer charOffset 9 0 0 rfl)

/-! ### The ring as it is read -/

/-- The number of slots in use: all of them when full, otherwise those from `out_offs` up to
`in_offs`.
Source: `aesd-circular-buffer.c`, `aesd_circular_buffer_add_entry`
Kind: D -/
def AesdCircularBuffer.occupiedCount (buffer : AesdCircularBuffer) : ℕ :=
  if buffer.full then aesdcharMaxWriteOperationsSupported
  else (buffer.inOffs.val + (aesdcharMaxWriteOperationsSupported - buffer.outOffs.val)) %
    aesdcharMaxWriteOperationsSupported

/-- The entries in use, walking the ring from `out_offs`.
Source: `aesd-circular-buffer.c`, `aesd_circular_buffer_add_entry`
Kind: D -/
def AesdCircularBuffer.retained (buffer : AesdCircularBuffer) : List AesdBufferEntry :=
  walk buffer.entry buffer.outOffs buffer.occupiedCount

/-- The walk from `out_offs` meets slot `j`.
Source: `aesd-circular-buffer.c`, `aesd_circular_buffer_add_entry`
Kind: D -/
def AesdCircularBuffer.Occupied (buffer : AesdCircularBuffer)
    (j : Fin aesdcharMaxWriteOperationsSupported) : Prop :=
  ∃ k < buffer.occupiedCount, rotate buffer.outOffs k = j

/-- Add the entries one by one; the pointers returned, in order, and the buffer left.
Source: `aesd-circular-buffer.c`, `aesd_circular_buffer_add_entry`
Kind: D -/
def addEntries (buffer : AesdCircularBuffer) : List AesdBufferEntry → List Ptr × AesdCircularBuffer
  | [] => ([], buffer)
  | e :: es =>
      let (removed, buffer') := aesdCircularBufferAddEntry buffer e
      let (rest, final) := addEntries buffer' es
      (removed :: rest, final)

/-- The buffer is the one that adding `es` to a freshly initialised buffer leaves.
Source: `aesd-circular-buffer.c`, `aesd_circular_buffer_add_entry`
Kind: D -/
def BufferLog (buffer : AesdCircularBuffer) (es : List AesdBufferEntry) : Prop :=
  RingLog AesdBufferEntry.zeroed buffer.entry buffer.inOffs buffer.outOffs buffer.full es

/-- The initialised buffer is the log of no entries.
Source: `aesd-circular-buffer.c`, `aesd_circular_buffer_init`
Kind: L -/
theorem bufferLog_init : BufferLog aesdCircularBufferInit [] := RingLog.init 0 rfl

namespace BufferLog

variable {buffer : AesdCircularBuffer} {es : List AesdBufferEntry}

/-- Adding one entry adds it to the log.
Source: `aesd-circular-buffer.c`, `aesd_circular_buffer_add_entry`
Kind: L -/
theorem addEntry (h : BufferLog buffer es) (e : AesdBufferEntry) :
    BufferLog (aesdCircularBufferAddEntry buffer e).2 (es ++ [e]) := by
  refine RingLog.push h e rfl ?_
  simp only [aesdCircularBufferAddEntry]
  split_ifs <;> simp_all

/-- The pointer returned is the one of the oldest retained entry, when the ring was full.
Source: `aesd-circular-buffer.c`, `aesd_circular_buffer_add_entry`
Kind: L -/
theorem removed_eq (h : BufferLog buffer es) (e : AesdBufferEntry) :
    (aesdCircularBufferAddEntry buffer e).1 =
      if hn : 10 ≤ es.length then
        (es.get ⟨es.length - 10, by omega⟩).buffptr
      else .null := by
  simp only [aesdCircularBufferAddEntry]
  by_cases hn : 10 ≤ es.length
  · rw [if_pos (h.full_iff.mpr hn), dif_pos hn,
      h.oldest hn (show es.length - 10 < es.length by omega)]
    rfl
  · rw [if_neg (mt h.full_iff.mp hn), dif_neg hn]

/-- As many slots are in use as entries are kept.
Source: `aesd-circular-buffer.c`, `aesd_circular_buffer_add_entry`
Kind: L -/
theorem occupiedCount_eq (h : BufferLog buffer es) :
    buffer.occupiedCount = min es.length 10 := by
  unfold AesdCircularBuffer.occupiedCount
  by_cases hn : 10 ≤ es.length
  · rw [if_pos (h.full_iff.mpr hn), Nat.min_eq_right hn]
  · have hlt : es.length < 10 := Nat.lt_of_not_le hn
    rw [if_neg (mt h.full_iff.mp hn), h.outOffs_of_lt hlt, h.inOffs_eq, Nat.sub_zero,
      Nat.add_mod_right, Nat.mod_mod, Nat.mod_eq_of_lt hlt, Nat.min_eq_left hlt.le]

/-- The retained entries are the last ten.
Source: `aesd-circular-buffer.c`, `aesd_circular_buffer_add_entry`
Kind: L -/
theorem retained_eq (h : BufferLog buffer es) :
    buffer.retained = es.drop (es.length - 10) := by
  unfold AesdCircularBuffer.retained
  rw [h.occupiedCount_eq]
  exact RingLog.walk_eq h

/-- What one addition does to the entries in use: it appends the entry, and drops the oldest one,
whose pointer it returns, when the ring was full.
Source: `aesd-circular-buffer.c`, `aesd_circular_buffer_add_entry`
Kind: L -/
theorem retained_addEntry (h : BufferLog buffer es) (e : AesdBufferEntry) :
    (es.length < 10 ∧ (aesdCircularBufferAddEntry buffer e).1 = .null ∧
      (aesdCircularBufferAddEntry buffer e).2.retained = buffer.retained ++ [e]) ∨
    (10 ≤ es.length ∧ ∃ oldest rest, buffer.retained = oldest :: rest ∧
      (aesdCircularBufferAddEntry buffer e).1 = oldest.buffptr ∧
      (aesdCircularBufferAddEntry buffer e).2.retained = rest ++ [e]) := by
  have hnew : (aesdCircularBufferAddEntry buffer e).2.retained = es.rtake 9 ++ [e] := by
    rw [← List.rtake_concat_succ]
    exact (h.addEntry e).retained_eq
  have hold : buffer.retained = es.rtake 10 := h.retained_eq
  rcases Nat.lt_or_ge es.length 10 with hlt | hge
  · left
    refine ⟨hlt, ?_, ?_⟩
    · rw [h.removed_eq, dif_neg (by omega)]
    · rw [hnew, hold, rtake_succ_of_le (show es.length ≤ 9 by omega)]
  · right
    obtain ⟨oldest, hcons⟩ := rtake_succ_of_lt (l := es) (n := 9) (by omega)
    refine ⟨hge, oldest, es.rtake 9, hold.trans hcons, ?_, hnew⟩
    have hfirst : es[es.length - 10]? = some oldest := by
      have hhead := congrArg List.head? hcons
      rwa [List.rtake, List.head?_drop] at hhead
    rw [h.removed_eq, dif_pos hge, List.get_eq_getElem,
      (List.getElem?_eq_some_iff.mp hfirst).2]

/-- A slot that is not in use is zeroed.
Source: `aesd-circular-buffer.c`, `aesd_circular_buffer_add_entry`
Kind: L -/
theorem zeroed_of_not_occupied (h : BufferLog buffer es)
    {j : Fin 10} (hj : ¬ buffer.Occupied j) :
    buffer.entry j = .zeroed := by
  refine h.untouched j (Nat.le_of_not_lt fun hlt => hj ?_)
  obtain ⟨k, hk, hrot⟩ := exists_rotate_eq buffer.outOffs j
  refine ⟨k, ?_, hrot⟩
  rw [h.occupiedCount_eq]
  rcases Nat.lt_or_ge es.length 10 with hn | hn
  · -- before the first turn the walk starts at slot zero, so `k` is the slot itself
    have hkj : k = j.val := by
      rw [← hrot, rotate_val, h.outOffs_of_lt hn, Nat.zero_add, Nat.mod_eq_of_lt hk]
    rw [Nat.min_eq_left hn.le, hkj]
    exact hlt
  · rw [Nat.min_eq_right hn]
    exact hk

/-- The slots in the order of the array are the entries in use and zeroed ones.
Source: `aesd-circular-buffer.c`, `aesd_circular_buffer_add_entry`
Kind: L -/
theorem slots_perm (h : BufferLog buffer es) :
    ∃ zs, (∀ e ∈ zs, e = .zeroed) ∧
      ((List.finRange 10).map buffer.entry).Perm (buffer.retained ++ zs) := by
  have hcount : buffer.occupiedCount ≤ 10 := by
    rw [h.occupiedCount_eq]
    exact Nat.min_le_right _ _
  refine ⟨walk buffer.entry (rotate buffer.outOffs buffer.occupiedCount)
    (10 - buffer.occupiedCount), ?_, ?_⟩
  · intro e he
    obtain ⟨k, hk, rfl⟩ := List.mem_map.mp he
    rw [List.mem_range] at hk
    apply h.zeroed_of_not_occupied
    rintro ⟨k', hk', heq⟩
    rw [rotate_rotate] at heq
    exact rotate_ne_rotate buffer.outOffs (show k' < buffer.occupiedCount + k by omega)
      (show buffer.occupiedCount + k < k' + 10 by omega) heq
  · rw [AesdCircularBuffer.retained, ← walk_add, Nat.add_sub_cancel' hcount]
    exact (walk_turn_perm buffer.entry buffer.outOffs).symm

end BufferLog

/-- Adding entries to a buffer adds them to its log; the pointers returned are those of the
entries ten additions back.
Source: none: infrastructure
Kind: P -/
theorem bufferLog_addEntries : ∀ (new : List AesdBufferEntry) {buffer : AesdCircularBuffer}
    {es : List AesdBufferEntry}, BufferLog buffer es →
      BufferLog (addEntries buffer new).2 (es ++ new) ∧
      (addEntries buffer new).1.length = new.length ∧
      ∀ i (hi : i < (addEntries buffer new).1.length),
        (addEntries buffer new).1[i] =
          if 10 ≤ es.length + i then
            (((es ++ new)[es.length + i - 10]?).map
              AesdBufferEntry.buffptr).getD .null
          else .null
  | [], buffer, es, h => by simpa [addEntries] using h
  | e :: new, buffer, es, h => by
      obtain ⟨hlog, hlen, hret⟩ := bufferLog_addEntries new (h.addEntry e)
      rw [List.append_assoc, List.singleton_append] at hlog hret
      refine ⟨hlog, by simp [addEntries, hlen], ?_⟩
      intro i hi
      cases i with
      | zero =>
          simp only [addEntries, List.getElem_cons_zero, Nat.add_zero, h.removed_eq e]
          split_ifs with hn
          · rw [List.getElem?_append_left (by omega), List.getElem?_eq_getElem (by omega)]
            rfl
          · rfl
      | succ i =>
          simp only [addEntries, List.getElem_cons_succ]
          rw [hret i (by simpa [addEntries] using hi)]
          simp only [List.length_append, List.length_singleton, Nat.add_assoc, Nat.add_comm 1 i]

/-- **The buffer is a bounded FIFO.** After any sequence of additions to a freshly initialised
buffer: the walk from `out_offs` reads exactly the last `min n 10` added entries in the order they
were added, the flag and the two indices are those of the count, every slot not in use is still
zeroed, and the call made after `i` earlier additions returned the pointer of the oldest entry
retained then when `i ≥ 10`, and `NULL` otherwise.
Source: `aesd-circular-buffer.c`, `aesd_circular_buffer_add_entry`, `aesd_circular_buffer_init`
Kind: P -/
theorem addEntries_bounded_fifo (es : List AesdBufferEntry) :
    let (returned, buffer) := addEntries aesdCircularBufferInit es
    buffer.retained = es.drop (es.length - 10) ∧
    buffer.retained.length = min es.length 10 ∧
    (buffer.full = true ↔ 10 ≤ es.length) ∧
    buffer.inOffs.val = es.length % 10 ∧
    buffer.outOffs.val = (es.length - 10) % 10 ∧
    (∀ j, ¬ buffer.Occupied j → (buffer.entry j).buffptr = .null ∧ (buffer.entry j).size = 0) ∧
    returned.length = es.length ∧
    ∀ i (hi : i < returned.length) (hi' : i < es.length), returned[i] =
      if 10 ≤ i then (es.get ⟨i - 10, by omega⟩).buffptr else .null := by
  obtain ⟨hlog, hlen, hret⟩ := bufferLog_addEntries es bufferLog_init
  simp only [List.nil_append, List.length_nil, Nat.zero_add] at hlog hret
  refine ⟨hlog.retained_eq, ?_, hlog.full_iff, hlog.inOffs_eq, hlog.outOffs_eq, ?_, hlen, ?_⟩
  · rw [hlog.retained_eq, List.length_drop]
    omega
  · intro j hj
    rw [hlog.zeroed_of_not_occupied hj]
    exact ⟨rfl, rfl⟩
  · intro i hi hi'
    rw [hret i hi]
    split_ifs with hn
    · rw [List.getElem?_eq_getElem (by omega)]
      rfl
    · rfl

/-! ### The offset lookup -/

/-- The lookup is the walk of the slots from `out_offs` until the loop's condition first fails,
as long as the sizes met do not wrap.
Source: none: infrastructure
Kind: P -/
theorem findLoop_eq_locate (buffer : AesdCircularBuffer) (charOffset stop : ℕ)
    (hmore : ∀ j, 0 < j → j < stop →
      (rotate buffer.outOffs j ≠ buffer.inOffs ∨ buffer.full = true) ∧
        rotate buffer.outOffs j ≠ buffer.outOffs)
    (hstop : ¬ ((rotate buffer.outOffs stop ≠ buffer.inOffs ∨ buffer.full = true) ∧
      rotate buffer.outOffs stop ≠ buffer.outOffs))
    (hoff : charOffset < SizeT.modulus) :
    ∀ (m k fuel runningSize : ℕ), k + (m + 1) = stop → m + 1 ≤ fuel →
      runningSize + ((walk buffer.entry (rotate buffer.outOffs k) (m + 1)).map
        AesdBufferEntry.size).sum < SizeT.modulus →
      runningSize ≤ charOffset →
      findLoop buffer charOffset fuel runningSize (rotate buffer.outOffs k) =
        some ((locate ((walk buffer.entry (rotate buffer.outOffs k) (m + 1)).map
          AesdBufferEntry.size) (charOffset - runningSize)).map
            fun kb => (rotate buffer.outOffs (k + kb.1), kb.2)) := by
  intro m
  induction m with
  | zero =>
      intro k fuel runningSize hk hfuel hsum hle
      obtain ⟨fuel, rfl⟩ : ∃ f, fuel = f + 1 := ⟨fuel - 1, by omega⟩
      rw [walk_succ, List.map_cons, List.sum_cons] at hsum
      rw [findLoop_succ, walk_succ, List.map_cons, SizeT.add_of_lt (by omega), rotate_rotate, hk,
        if_neg hstop]
      rcases Nat.lt_or_ge (charOffset - runningSize)
        (buffer.entry (rotate buffer.outOffs k)).size with hlt | hge
      · rw [if_pos (by omega), locate_cons_of_lt hlt, SizeT.sub_of_le hle hoff]
        rfl
      · rw [if_neg (by omega), locate_cons_of_le hge]
        rfl
  | succ m ih =>
      intro k fuel runningSize hk hfuel hsum hle
      obtain ⟨fuel, rfl⟩ : ∃ f, fuel = f + 1 := ⟨fuel - 1, by omega⟩
      rw [walk_succ, List.map_cons, List.sum_cons, rotate_rotate] at hsum
      rw [findLoop_succ, walk_succ, List.map_cons, SizeT.add_of_lt (by omega), rotate_rotate,
        if_pos (hmore (k + 1) (by omega) (by omega))]
      rcases Nat.lt_or_ge (charOffset - runningSize)
        (buffer.entry (rotate buffer.outOffs k)).size with hlt | hge
      · rw [if_pos (by omega), locate_cons_of_lt hlt, SizeT.sub_of_le hle hoff]
        rfl
      · rw [if_neg (by omega), locate_cons_of_le hge,
          ih (k + 1) fuel _ (by omega) (by omega) (by omega) (by omega), Nat.sub_sub,
          Option.map_map]
        refine congrArg some (congrArg (fun f => Option.map f _) (funext fun kb => ?_))
        simp only [Function.comp_apply, Nat.add_assoc, Nat.add_comm 1 kb.1]

namespace BufferLog

variable {buffer : AesdCircularBuffer} {es : List AesdBufferEntry}

/-- Within a turn the walk does not come back to `out_offs`.
Source: `aesd-circular-buffer.c`
Kind: L -/
theorem rotate_ne_outOffs {j : ℕ} (hpos : 0 < j) (hj : j < 10) :
    rotate buffer.outOffs j ≠ buffer.outOffs := fun heq =>
  rotate_ne_rotate buffer.outOffs hpos (by omega) ((rotate_zero _).trans heq.symm)

/-- An empty ring is scanned over all ten slots, all of size zero.
Source: `aesd-circular-buffer.c`, `aesd_circular_buffer_find_entry_offset_for_fpos`
Kind: L -/
theorem findLoop_nil (h : BufferLog buffer []) (charOffset : ℕ)
    (hoff : charOffset < SizeT.modulus) :
    findLoop buffer charOffset 10 0 buffer.outOffs = some none := by
  have hin : buffer.inOffs = buffer.outOffs := by simpa using RingLog.inOffs_eq_rotate h
  have hzero : ((walk buffer.entry (rotate buffer.outOffs 0) (9 + 1)).map
      AesdBufferEntry.size).sum = 0 := by
    apply List.sum_eq_zero
    intro n hn
    obtain ⟨e, he, rfl⟩ := List.mem_map.mp hn
    obtain ⟨k, -, rfl⟩ := List.mem_map.mp he
    rw [h.untouched _ (Nat.zero_le _)]
    rfl
  have hloop := findLoop_eq_locate buffer charOffset 10
    (fun j hpos hj => ⟨Or.inl fun heq => rotate_ne_outOffs hpos hj (heq.trans hin),
      rotate_ne_outOffs hpos hj⟩)
    (fun hmore => hmore.2 (rotate_self _)) hoff 9 0 10 0 rfl le_rfl
    (by rw [hzero]; decide) (Nat.zero_le _)
  rw [(locate_eq_none_iff _ _).mpr (hzero.trans_le (Nat.zero_le _)), rotate_zero] at hloop
  exact hloop

/-- The lookup in a ring in use walks the occupied slots.
Source: `aesd-circular-buffer.c`, `aesd_circular_buffer_find_entry_offset_for_fpos`
Kind: L -/
theorem findLoop_of_ne_nil (h : BufferLog buffer es) (hne : es ≠ []) {charOffset : ℕ}
    (hoff : charOffset < SizeT.modulus)
    (hsum : (buffer.retained.map AesdBufferEntry.size).sum < SizeT.modulus) :
    findLoop buffer charOffset 10 0 buffer.outOffs =
      some ((locate (buffer.retained.map AesdBufferEntry.size) charOffset).map
        fun kb => (rotate buffer.outOffs kb.1, kb.2)) := by
  have hpos : 0 < es.length := List.length_pos_iff.mpr hne
  obtain ⟨m, hm⟩ : ∃ m, min es.length 10 = m + 1 := ⟨min es.length 10 - 1, by omega⟩
  have hin : buffer.inOffs = rotate buffer.outOffs (m + 1) := hm ▸ RingLog.inOffs_eq_rotate h
  have hretained : buffer.retained = walk buffer.entry (rotate buffer.outOffs 0) (m + 1) := by
    rw [AesdCircularBuffer.retained, h.occupiedCount_eq, hm, rotate_zero]
  rw [hretained] at hsum ⊢
  have hloop := findLoop_eq_locate buffer charOffset (m + 1)
    (fun j hj hlt => ⟨Or.inl fun heq =>
        rotate_ne_rotate buffer.outOffs hlt (show m + 1 < j + 10 by omega) (heq.trans hin),
      rotate_ne_outOffs hj (by omega)⟩)
    (by
      rintro ⟨hin' | hfull, hout⟩
      · exact hin' hin.symm
      · have hge := h.full_iff.mp hfull
        rw [← hm, Nat.min_eq_right hge, rotate_self] at hout
        exact hout rfl)
    hoff m 0 10 0 (Nat.zero_add _) (by omega) (by omega) (Nat.zero_le _)
  simpa using hloop

/-- **The lookup in the ring is the lookup in the concatenation of the retained entries**, oldest
first, whatever the fill level and the wrap position.
Source: `aesd-circular-buffer.c`, `aesd_circular_buffer_find_entry_offset_for_fpos`
Kind: P -/
theorem find_eq_locate (h : BufferLog buffer es) {charOffset : ℕ}
    (hoff : charOffset < SizeT.modulus)
    (hsum : (buffer.retained.map AesdBufferEntry.size).sum < SizeT.modulus) :
    aesdCircularBufferFindEntryOffsetForFpos buffer charOffset =
      (locate (buffer.retained.map AesdBufferEntry.size) charOffset).map
        fun kb => (rotate buffer.outOffs kb.1, kb.2) := by
  apply Option.some_injective
  rw [aesdCircularBufferFindEntryOffsetForFpos, Option.some_get]
  rcases eq_or_ne es [] with rfl | hne
  · have hnil : buffer.retained = [] := by simpa using h.retained_eq
    rw [hnil]
    exact h.findLoop_nil charOffset hoff
  · exact h.findLoop_of_ne_nil hne hoff hsum

end BufferLog

/-- A call with the location that `entry_offset_byte_rtn` points to: the slot of the entry
returned, and what the location holds afterwards.
Source: `aesd-circular-buffer.c`, `aesd_circular_buffer_find_entry_offset_for_fpos`
Kind: D -/
def findEntryInto (buffer : AesdCircularBuffer) (charOffset entryOffsetByteRtn : ℕ) :
    Option (Fin aesdcharMaxWriteOperationsSupported) × ℕ :=
  match aesdCircularBufferFindEntryOffsetForFpos buffer charOffset with
  | none => (none, entryOffsetByteRtn)
  | some (index, entryOffsetByte) => (some index, entryOffsetByte)

/-- When nothing is found, the caller's variable is left as it was.
Source: `aesd-circular-buffer.c`, `aesd_circular_buffer_find_entry_offset_for_fpos`
Kind: L -/
theorem findEntryInto_of_none {buffer : AesdCircularBuffer} {charOffset : ℕ}
    (h : aesdCircularBufferFindEntryOffsetForFpos buffer charOffset = none)
    (entryOffsetByteRtn : ℕ) :
    findEntryInto buffer charOffset entryOffsetByteRtn = (none, entryOffsetByteRtn) := by
  rw [findEntryInto, h]

/-- When an entry is found, the caller's variable is set.
Source: `aesd-circular-buffer.c`, `aesd_circular_buffer_find_entry_offset_for_fpos`
Kind: L -/
theorem findEntryInto_of_some {buffer : AesdCircularBuffer} {charOffset : ℕ}
    {index : Fin aesdcharMaxWriteOperationsSupported} {b : ℕ}
    (h : aesdCircularBufferFindEntryOffsetForFpos buffer charOffset = some (index, b))
    (entryOffsetByteRtn : ℕ) :
    findEntryInto buffer charOffset entryOffsetByteRtn = (some index, b) := by
  rw [findEntryInto, h]

/-- The loop has come to its end after one turn, with the result of the call.
Source: `aesd-circular-buffer.c`, `aesd_circular_buffer_find_entry_offset_for_fpos`
Kind: L -/
theorem findLoop_eq_some (buffer : AesdCircularBuffer) (charOffset : ℕ) :
    findLoop buffer charOffset 10 0 buffer.outOffs =
      some (aesdCircularBufferFindEntryOffsetForFpos buffer charOffset) := by
  rw [aesdCircularBufferFindEntryOffsetForFpos, Option.some_get]

/-- What the lookup finds at position `p` of the retained entries, oldest first: the slot of the
`k`-th oldest entry, with `p` the sizes of the older ones plus the offset.
Source: `aesd-circular-buffer.c`, `aesd_circular_buffer_add_entry`
Kind: L -/
theorem BufferLog.find_eq_some_iff {buffer : AesdCircularBuffer} {es : List AesdBufferEntry}
    (h : BufferLog buffer es) {charOffset : ℕ} (hoff : charOffset < SizeT.modulus)
    (hsum : (buffer.retained.map AesdBufferEntry.size).sum < SizeT.modulus)
    (index : Fin aesdcharMaxWriteOperationsSupported) (b : ℕ) :
    aesdCircularBufferFindEntryOffsetForFpos buffer charOffset = some (index, b) ↔
      ∃ k e, buffer.retained[k]? = some e ∧ index = rotate buffer.outOffs k ∧ b < e.size ∧
        charOffset = ((buffer.retained.take k).map AesdBufferEntry.size).sum + b := by
  rw [h.find_eq_locate hoff hsum, Option.map_eq_some_iff]
  constructor
  · rintro ⟨⟨k, b'⟩, hloc, heq⟩
    rw [Prod.mk.injEq] at heq
    obtain ⟨rfl, rfl⟩ := heq
    obtain ⟨s, hs, hb, hp⟩ := (locate_eq_some_iff _ _ _ _).mp hloc
    rw [List.getElem?_map, Option.map_eq_some_iff] at hs
    obtain ⟨e, he, rfl⟩ := hs
    rw [← List.map_take] at hp
    exact ⟨k, e, he, rfl, hb, hp⟩
  · rintro ⟨k, e, he, rfl, hb, hp⟩
    refine ⟨(k, b), (locate_eq_some_iff _ _ _ _).mpr ⟨e.size, ?_, hb, ?_⟩, rfl⟩
    · rw [List.getElem?_map, he, Option.map_some]
    · rw [← List.map_take, hp]

/-- The slot `k` places after `out_offs` holds the `k`-th oldest entry.
Source: `aesd-circular-buffer.c`, `aesd_circular_buffer_add_entry`
Kind: L -/
theorem AesdCircularBuffer.entry_rotate {buffer : AesdCircularBuffer} {k : ℕ} {e : AesdBufferEntry}
    (he : buffer.retained[k]? = some e) : buffer.entry (rotate buffer.outOffs k) = e := by
  obtain ⟨hk, hget⟩ := List.getElem?_eq_some_iff.mp he
  rw [← hget]
  exact (walk_getElem _ _ _ _ hk).symm

/-- **The lookup is exact.** In every buffer that additions to a freshly initialised one lead to,
with entries of any sizes whose retained total is a `size_t`, and for every `size_t` offset: the
loop ends; a slot is returned exactly when the offset is below the total; the slot returned is that
of a retained entry, the offset stored is inside it, and it and the sizes of the older entries add
up to the offset asked for, so that it is the same byte of the concatenation; and when `NULL` is
returned, nothing is stored.
Source: `aesd-circular-buffer.c`, `aesd_circular_buffer_find_entry_offset_for_fpos`
Kind: P -/
theorem find_exact (es : List AesdBufferEntry) (charOffset : UInt64) (entryOffsetByteRtn : ℕ)
    (hsum : ((addEntries aesdCircularBufferInit es).2.retained.map AesdBufferEntry.size).sum <
      2 ^ 64) :
    let buffer := (addEntries aesdCircularBufferInit es).2
    let r := findEntryInto buffer charOffset.toNat entryOffsetByteRtn
    (∃ fuel result, findLoop buffer charOffset.toNat fuel 0 buffer.outOffs = some result ∧
      result.map Prod.fst = r.1) ∧
    (r.1.isSome = true ↔ charOffset.toNat < (buffer.retained.map AesdBufferEntry.size).sum) ∧
    (∀ index, r.1 = some index → ∃ k e, buffer.retained[k]? = some e ∧ buffer.entry index = e ∧
      r.2 < e.size ∧
      charOffset.toNat = ((buffer.retained.take k).map AesdBufferEntry.size).sum + r.2 ∧
      ∀ bytes : AesdBufferEntry → List UInt8, (∀ e ∈ buffer.retained, (bytes e).length = e.size) →
        (buffer.retained.map bytes).flatten[charOffset.toNat]? = (bytes e)[r.2]?) ∧
    (r.1 = none → r.2 = entryOffsetByteRtn) := by
  intro buffer r
  obtain ⟨hlog, -, -⟩ := bufferLog_addEntries es bufferLog_init
  have hoff : charOffset.toNat < SizeT.modulus := charOffset.toNat_lt
  have hfind := hlog.find_eq_locate hoff hsum
  have hnone := locate_eq_none_iff (buffer.retained.map AesdBufferEntry.size) charOffset.toNat
  have hloop := findLoop_eq_some buffer charOffset.toNat
  cases hres : aesdCircularBufferFindEntryOffsetForFpos buffer charOffset.toNat with
  | none =>
      have hr : r = (none, entryOffsetByteRtn) := findEntryInto_of_none hres _
      rw [hres] at hfind hloop
      have hle := hnone.mp (Option.map_eq_none_iff.mp hfind.symm)
      rw [hr]
      refine ⟨⟨10, none, hloop, rfl⟩, ?_, ?_, fun _ => rfl⟩
      · exact iff_of_false (by simp) (Nat.not_lt.mpr hle)
      · intro index hindex
        cases hindex
  | some found =>
      obtain ⟨index, b⟩ := found
      have hr : r = (some index, b) := findEntryInto_of_some hres _
      obtain ⟨k, e, he, hindex, hb, hp⟩ := (hlog.find_eq_some_iff hoff hsum index b).mp hres
      rw [hres] at hfind hloop
      rw [hr]
      refine ⟨⟨10, _, hloop, rfl⟩, iff_of_true rfl ?_, ?_, fun h => by cases h⟩
      · by_contra hge
        rw [hnone.mpr (Nat.le_of_not_lt hge)] at hfind
        cases hfind
      · rintro i ⟨rfl⟩
        refine ⟨k, e, he, hindex ▸ AesdCircularBuffer.entry_rotate he, hb, hp, ?_⟩
        intro bytes hlen
        have hsizes : (buffer.retained.map bytes).map List.length =
            buffer.retained.map AesdBufferEntry.size := by
          rw [List.map_map]
          exact List.map_congr_left hlen
        refine getElem?_flatten_of_locate (k := k) ?_ (by rw [List.getElem?_map, he, Option.map_some])
        rw [hsizes, hp, List.map_take]
        exact locate_take_sum_add (by rw [List.getElem?_map, he, Option.map_some]) hb

/-- Ten entries of one byte and then one of three, which takes the first slot: byte ten is found.
Source: `aesd-circular-buffer.c`, `aesd_circular_buffer_find_entry_offset_for_fpos`
Kind: N+ -/
theorem find_exact_wrapped :
    (findEntryInto (addEntries aesdCircularBufferInit
      (List.replicate 10 ⟨.block 0, 1⟩ ++ [⟨.block 1, 3⟩])).2 10 77).1.isSome = true :=
  (find_exact (List.replicate 10 ⟨.block 0, 1⟩ ++ [⟨.block 1, 3⟩]) 10 77
    (by decide +kernel)).2.1.mpr (by decide +kernel)

end Aesd.Driver
