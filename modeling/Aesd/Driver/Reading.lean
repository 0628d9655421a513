import Aesd.Driver.Represent
import Mathlib.Algebra.Order.Group.Nat

/-!
# What a read delivers

`aesd_read` looks its position up in the ring and copies from one entry. For a device that
represents (`Represents`), that is a lookup in the content of the device, the concatenation of the
retained entries, oldest first:

* `aesdRead_eq` — the call as a function of the retained entries and the position;
* `aesdRead_content` — what it delivers is a prefix of what is left of the content at the
  position, not empty unless the position is at or past the end, and the position moves on by its
  length;
* `reads_to_eof` — reads that follow one another, with any counts, deliver the content from the
  position on, each from one entry, and come to its end.
-/

namespace Aesd.Driver

open Aesd.Lib

variable {K : KernelLimits} {dev : AesdDev}

/-- Entries have the sizes of the bytes they hold.
Source: `main.c`, `aesd_read`
Kind: L -/
theorem map_size_of_holds {h : Heap UInt8} {es : List AesdBufferEntry} {L : List (List UInt8)}
    (hall : List.Forall₂ (Holds h) es L) : es.map AesdBufferEntry.size = L.map List.length := by
  induction hall with
  | nil => rfl
  | cons he _ ih => rw [List.map_cons, List.map_cons, ih, he.2]

namespace Accounted

/-- The entries in use hold the retained commands.
Source: `main.c`, `aesd_read`
Kind: L -/
theorem holds_commands (ha : Accounted K dev) :
    List.Forall₂ (Holds dev.heap) dev.buffer.retained dev.commands :=
  ha.commands_eq ▸ ha.holds

/-- The retained entries have the sizes of the write commands.
Source: `main.c`, `aesd_read`
Kind: L -/
theorem sizes_eq (ha : Accounted K dev) :
    dev.buffer.retained.map AesdBufferEntry.size = dev.commands.map List.length :=
  map_size_of_holds ha.holds_commands

/-- There are at most ten write commands.
Source: `main.c`, `aesd_read`
Kind: L -/
theorem length_commands_le (ha : Accounted K dev) : dev.commands.length ≤ 10 := by
  rw [ha.commands_eq, List.rtake, List.length_drop]
  omega

/-- A write command fits an allocation.
Source: `main.c`, `aesd_read`
Kind: L -/
theorem length_command_le (ha : Accounted K dev) {bytes : List UInt8} (h : bytes ∈ dev.commands) :
    bytes.length ≤ K.kmallocMaxSize := by
  rw [ha.commands_eq] at h
  exact ha.bounded bytes (List.mem_of_mem_drop h)

/-- The content fits in a `loff_t` with room to spare: ten allocations.
Source: `main.c`, `aesd_read`
Kind: L -/
theorem length_content_lt (ha : Accounted K dev) : dev.content.length < 2 ^ 35 := by
  have hsum : (dev.commands.map List.length).sum ≤
      (dev.commands.map List.length).length * K.kmallocMaxSize := by
    apply List.sum_le_card_nsmul
    intro n hn
    obtain ⟨bytes, hbytes, rfl⟩ := List.mem_map.mp hn
    exact ha.length_command_le hbytes
  have hlen := ha.length_commands_le
  have hmul : dev.commands.length * K.kmallocMaxSize ≤ 10 * K.kmallocMaxSize :=
    Nat.mul_le_mul_right _ hlen
  have := K.kmallocMaxSize_lt
  have := K.maxRwCount_lt
  rw [List.length_map] at hsum
  rw [AesdDev.content, List.length_flatten]
  omega

/-- The sizes of the retained entries add up without wrapping.
Source: `main.c`, `aesd_read`
Kind: L -/
theorem sum_sizes_lt (ha : Accounted K dev) :
    (dev.buffer.retained.map AesdBufferEntry.size).sum < SizeT.modulus := by
  have hlt := ha.length_content_lt
  rw [AesdDev.content, List.length_flatten] at hlt
  rw [ha.sizes_eq]
  unfold SizeT.modulus
  omega

/-- The retained command `k` is held by the slot `k` places after `out_offs`.
Source: `main.c`, `aesd_read`
Kind: L -/
theorem holds_rotate (ha : Accounted K dev) {k : ℕ} {bytes : List UInt8}
    (hk : dev.commands[k]? = some bytes) :
    Holds dev.heap (dev.buffer.entry (rotate dev.buffer.outOffs k)) bytes := by
  obtain ⟨hlt, rfl⟩ := List.getElem?_eq_some_iff.mp hk
  have hlt' : k < dev.buffer.retained.length := ha.holds_commands.length_eq ▸ hlt
  have hheld := ha.holds_commands.get hlt' hlt
  simp only [List.get_eq_getElem, AesdCircularBuffer.retained, walk_getElem] at hheld
  exact hheld

end Accounted

/-- A position as a `size_t` is below its bound.
Source: none: infrastructure
Kind: L -/
theorem sizeOfLoff_lt (pos : ℤ) : sizeOfLoff pos < SizeT.modulus := by
  unfold sizeOfLoff SizeT.modulus
  omega

/-- A position that is not negative is itself as a `size_t`.
Source: none: infrastructure
Kind: L -/
theorem sizeOfLoff_of_nonneg {n : ℕ} (h : n < 2 ^ 64) : sizeOfLoff (n : ℤ) = n := by
  unfold sizeOfLoff
  omega

/-- **An undisturbed read is a lookup in the retained commands.**
Source: `main.c`, `aesd_read`
Kind: P -/
theorem aesdRead_eq (ha : Accounted K dev) (count : ℕ) (fPos : ℤ) :
    aesdRead .undisturbed count fPos dev =
      match locate (dev.commands.map List.length) (sizeOfLoff fPos) with
      | none => (.ok [], fPos)
      | some (k, b) =>
          (.ok (((dev.commands[k]?.getD []).drop b).take count),
            fPos + (((dev.commands[k]?.getD []).drop b).take count).length) := by
  obtain ⟨es, hlog, -⟩ := ha.log
  have hfind := hlog.find_eq_locate (sizeOfLoff_lt fPos) ha.sum_sizes_lt
  rw [ha.sizes_eq] at hfind
  unfold aesdRead
  rw [if_neg (by simp [ReadEnv.undisturbed]), hfind]
  cases hloc : locate (dev.commands.map List.length) (sizeOfLoff fPos) with
  | none => rfl
  | some kb =>
      obtain ⟨k, b⟩ := kb
      obtain ⟨bytes, hbytes, hb, -⟩ := drop_flatten_of_locate hloc
      have hheld := ha.holds_rotate hbytes
      simp only [Option.map_some, hheld.1, hheld.2, ge_iff_le, Nat.not_le.mpr hb, if_false,
        hbytes, Option.getD_some]
      have hcopy : notCopied ReadEnv.undisturbed.uncopied (min count (bytes.length - b)) = 0 := by
        simp [notCopied, ReadEnv.undisturbed]
      simp only [hcopy, ne_eq, not_true, if_false, List.length_take, List.length_drop]
      refine congrArg (fun l => (Except.ok l, _)) ?_
      rw [← List.length_drop, ← List.take_eq_take_min]

/-- **What an undisturbed read delivers.** A prefix of what is left of the content at the
position, at most `count` bytes of it, empty exactly when nothing was asked for or nothing is
left; the position moves on by its length.
Source: `main.c`, `aesd_read`
Kind: P -/
theorem aesdRead_content (ha : Accounted K dev) (count : ℕ) (fPos : ℤ) :
    ∃ bytes, aesdRead .undisturbed count fPos dev = (.ok bytes, fPos + bytes.length) ∧
      bytes <+: dev.content.drop (sizeOfLoff fPos) ∧ bytes.length ≤ count ∧
      (bytes = [] ↔ count = 0 ∨ dev.content.length ≤ sizeOfLoff fPos) := by
  rw [aesdRead_eq ha]
  have hnone := locate_eq_none_iff (dev.commands.map List.length) (sizeOfLoff fPos)
  rw [← List.length_flatten, ← AesdDev.content] at hnone
  cases hloc : locate (dev.commands.map List.length) (sizeOfLoff fPos) with
  | none =>
      refine ⟨[], by simp, List.nil_prefix, Nat.zero_le _, ?_⟩
      simp only [true_iff]
      exact Or.inr (hnone.mp hloc)
  | some kb =>
      obtain ⟨k, b⟩ := kb
      obtain ⟨piece, hpiece, hb, hdrop⟩ := drop_flatten_of_locate hloc
      rw [← AesdDev.content] at hdrop
      simp only [hpiece, Option.getD_some]
      refine ⟨_, rfl, ?_, List.length_take_le _ _, ?_⟩
      · rw [hdrop]
        exact (List.take_prefix _ _).trans (List.prefix_append _ _)
      · have hlt : ¬ dev.content.length ≤ sizeOfLoff fPos := by
          rw [← hnone, hloc]
          exact Option.some_ne_none _
        rw [List.take_eq_nil_iff, List.drop_eq_nil_iff, or_iff_left hlt,
          or_iff_left (Nat.not_le.mpr hb)]

/-- A position moves on as a `size_t` as long as that does not wrap.
Source: none: infrastructure
Kind: L -/
theorem sizeOfLoff_add {pos : ℤ} {n : ℕ} (h : sizeOfLoff pos + n < 2 ^ 64) :
    sizeOfLoff (pos + n) = sizeOfLoff pos + n := by
  unfold sizeOfLoff at h ⊢
  omega

/-- A read that does not fail is not disturbed.
Source: `main.c`, `aesd_read`
Kind: L -/
theorem aesdRead_of_ok {env : ReadEnv} {count : ℕ} {fPos : ℤ} {bytes : List UInt8}
    (hok : (aesdRead env count fPos dev).1 = .ok bytes) :
    aesdRead env count fPos dev = aesdRead .undisturbed count fPos dev := by
  have hcalm : ∀ n, notCopied ReadEnv.undisturbed.uncopied n = 0 := fun n => by
    simp [notCopied, ReadEnv.undisturbed]
  unfold aesdRead at hok ⊢
  by_cases hint : env.interrupted = true
  · rw [if_pos hint] at hok
    cases hok
  · rw [if_neg hint] at hok ⊢
    rw [if_neg (by simp [ReadEnv.undisturbed])]
    cases hfind : aesdCircularBufferFindEntryOffsetForFpos dev.buffer (sizeOfLoff fPos) with
    | none => rfl
    | some found =>
        obtain ⟨index, entryOffsetByte⟩ := found
        simp only [hfind] at hok ⊢
        split_ifs at hok ⊢ with hpast hcopy hcopy'
        · rfl
        · exact absurd (hcalm _) hcopy'
        · rfl

/-- A read that fails leaves the position.
Source: `main.c`, `aesd_read`
Kind: L -/
theorem aesdRead_of_error {env : ReadEnv} {count : ℕ} {fPos : ℤ} {e : Errno}
    (herr : (aesdRead env count fPos dev).1 = .error e) : (aesdRead env count fPos dev).2 = fPos := by
  unfold aesdRead at herr ⊢
  split_ifs at herr ⊢ with hint
  · rfl
  · cases hfind : aesdCircularBufferFindEntryOffsetForFpos dev.buffer (sizeOfLoff fPos) with
    | none => rfl
    | some found =>
        obtain ⟨index, entryOffsetByte⟩ := found
        simp only [hfind] at herr ⊢
        split_ifs at herr ⊢
        rfl

/-- **What a read does to a reader**, whatever the kernel's part in it: a read that fails or
delivers nothing leaves the position; what a read delivers is the content from the position on,
and the position moves to its end.
Source: `main.c`, `aesd_read`
Kind: P -/
theorem aesdRead_moves (ha : Accounted K dev) {env : ReadEnv} {count : ℕ} {fPos : ℤ}
    {result : Option (List UInt8)} (hres : result = (aesdRead env count fPos dev).1.toOption) :
    (result.getD [] <+: dev.content.drop (sizeOfLoff fPos)) ∧
      sizeOfLoff (aesdRead env count fPos dev).2 = sizeOfLoff fPos + (result.getD []).length ∧
      (aesdRead env count fPos dev).2 = fPos + (result.getD []).length ∧
      (result = some [] → count = 0 ∨ dev.content.length ≤ sizeOfLoff fPos) := by
  have hsmall := ha.length_content_lt
  cases hr : (aesdRead env count fPos dev).1 with
  | error e =>
      rw [hr] at hres
      have hpos := aesdRead_of_error hr
      rw [hres, hpos]
      simp [Except.toOption]
  | ok delivered =>
      rw [hr] at hres
      obtain ⟨bytes, hread, hpiece, -, hempty⟩ := aesdRead_content ha count fPos
      have hsame := aesdRead_of_ok hr
      rw [hread] at hsame
      have hbytes : delivered = bytes := by
        rw [hsame] at hr
        cases hr
        rfl
      have hres' : result = some bytes := by
        rw [hres, hbytes]
        rfl
      rw [hres', hsame, Option.getD_some]
      refine ⟨hpiece, ?_, rfl, fun hnil => hempty.mp (Option.some.inj hnil)⟩
      have hlen := hpiece.length_le
      rw [List.length_drop] at hlen
      by_cases hnil : bytes = []
      · rw [hnil, List.length_nil, Nat.cast_zero, add_zero, Nat.add_zero]
      · have hlt := mt hempty.mpr hnil
        rw [not_or, Nat.not_le] at hlt
        exact sizeOfLoff_add (by omega)

/-! ### Reading to the end -/

/-- Below the end of the content a read delivers the part of one entry that starts there.
Source: `main.c`, `aesd_read`
Kind: L -/
theorem aesdRead_entry (ha : Accounted K dev) (count : ℕ) {fPos : ℤ}
    (hlt : sizeOfLoff fPos < dev.content.length) :
    ∃ k b cmd, dev.commands[k]? = some cmd ∧ b < cmd.length ∧
      sizeOfLoff fPos = ((dev.commands.take k).map List.length).sum + b ∧
      aesdRead .undisturbed count fPos dev =
        (.ok ((cmd.drop b).take count), fPos + ((cmd.drop b).take count).length) := by
  rw [aesdRead_eq ha]
  cases hloc : locate (dev.commands.map List.length) (sizeOfLoff fPos) with
  | none =>
      have hge := (locate_eq_none_iff _ _).mp hloc
      rw [← List.length_flatten, ← AesdDev.content] at hge
      exact absurd hlt (Nat.not_lt.mpr hge)
  | some kb =>
      obtain ⟨k, b⟩ := kb
      obtain ⟨n, hn, hb, hp⟩ := (locate_eq_some_iff _ _ _ _).mp hloc
      rw [List.getElem?_map, Option.map_eq_some_iff] at hn
      obtain ⟨cmd, hcmd, rfl⟩ := hn
      rw [← List.map_take] at hp
      refine ⟨k, b, cmd, hcmd, hb, hp, ?_⟩
      simp only [hcmd, Option.getD_some]

/-- The driver after the first `n` of a sequence of undisturbed reads on a file.
Source: `main.c`, `aesd_read`
Kind: D -/
def readStates (K : KernelLimits) (s : DriverState) (file : ℕ) (counts : ℕ → ℕ) : ℕ → DriverState
  | 0 => s
  | n + 1 => (readStates K s file counts n).exec K (.read file .undisturbed (counts n))

/-- What the next read of the sequence delivers.
Source: `main.c`, `aesd_read`
Kind: D -/
def readResult (K : KernelLimits) (s : DriverState) (file : ℕ) (counts : ℕ → ℕ) (n : ℕ) :
    Except Errno (List UInt8) :=
  let t := readStates K s file counts n
  (aesdRead .undisturbed (counts n) (t.fPos file) t.dev).1

/-- What the first `n` reads of the sequence have delivered.
Source: `main.c`, `aesd_read`
Kind: D -/
def delivered (K : KernelLimits) (s : DriverState) (file : ℕ) (counts : ℕ → ℕ) (n : ℕ) :
    List UInt8 :=
  ((List.range n).map fun i => (readResult K s file counts i).toOption.getD []).flatten

section reads

variable {s : DriverState} (file : ℕ) (counts : ℕ → ℕ)

/-- What one more read delivers.
Source: `main.c`, `aesd_read`
Kind: L -/
theorem delivered_succ (n : ℕ) : delivered K s file counts (n + 1) =
    delivered K s file counts n ++ (readResult K s file counts n).toOption.getD [] := by
  simp [delivered, List.range_succ]

/-- Reads leave the device alone.
Source: `main.c`, `aesd_read`
Kind: L -/
theorem readStates_dev (n : ℕ) : (readStates K s file counts n).dev = s.dev := by
  induction n with
  | zero => rfl
  | succ n ih => exact ih

/-- The position after one more read.
Source: `main.c`, `aesd_read`
Kind: L -/
theorem readStates_fPos_succ (n : ℕ) : (readStates K s file counts (n + 1)).fPos file =
    (aesdRead .undisturbed (counts n) ((readStates K s file counts n).fPos file) s.dev).2 := by
  have hdev : (readStates K s file counts n).dev = s.dev := readStates_dev file counts n
  simp only [readStates, DriverState.exec, Function.update_self, hdev]

/-- One read of the sequence.
Source: `main.c`, `aesd_read`
Kind: L -/
theorem readResult_ok (ha : Accounted K s.dev) (n : ℕ) :
    ∃ bytes, readResult K s file counts n = .ok bytes ∧
      (readStates K s file counts (n + 1)).fPos file =
        (readStates K s file counts n).fPos file + bytes.length ∧
      bytes <+: s.dev.content.drop (sizeOfLoff ((readStates K s file counts n).fPos file)) ∧
      bytes.length ≤ counts n ∧
      (bytes = [] ↔ counts n = 0 ∨
        s.dev.content.length ≤ sizeOfLoff ((readStates K s file counts n).fPos file)) := by
  obtain ⟨bytes, hread, hpiece, hle, hempty⟩ :=
    aesdRead_content ha (counts n) ((readStates K s file counts n).fPos file)
  have hdev : (readStates K s file counts n).dev = s.dev := readStates_dev file counts n
  refine ⟨bytes, ?_, ?_, hpiece, hle, hempty⟩
  · rw [readResult, hdev, hread]
  · rw [readStates_fPos_succ, hread]

/-- Where the reader is after `n` reads, and what it has been given.
Source: `main.c`, `aesd_read`
Kind: D -/
structure ReadTo (dev : AesdDev) (start pos : ℤ) (got : List UInt8) : Prop where
  nonneg : 0 ≤ pos
  small : pos < 2 ^ 63
  got_eq : got ++ dev.content.drop pos.toNat = dev.content.drop start.toNat

/-- Reads deliver the content from their start up to the position.
Source: `main.c`, `aesd_read`
Kind: L -/
theorem readTo_of_reads (ha : Accounted K s.dev) (hnonneg : 0 ≤ s.fPos file)
    (hsmall : s.fPos file < 2 ^ 63) (n : ℕ) :
    ReadTo s.dev (s.fPos file) ((readStates K s file counts n).fPos file)
      (delivered K s file counts n) := by
  induction n with
  | zero => exact ⟨hnonneg, hsmall, rfl⟩
  | succ n ih =>
      obtain ⟨bytes, hres, hmove, hpiece, -, hempty⟩ := readResult_ok file counts ha n
      have hcontent := ha.length_content_lt
      have hlen := hpiece.length_le
      have := ih.nonneg
      have := ih.small
      have hpos : sizeOfLoff ((readStates K s file counts n).fPos file) =
          ((readStates K s file counts n).fPos file).toNat := by
        unfold sizeOfLoff
        omega
      rw [hpos] at hpiece hlen
      rw [List.length_drop] at hlen
      rw [delivered_succ, hres, hmove]
      refine ⟨by omega, by omega, ?_⟩
      obtain ⟨rest, hrest⟩ := hpiece
      have hnat : ((readStates K s file counts n).fPos file + (bytes.length : ℤ)).toNat =
          ((readStates K s file counts n).fPos file).toNat + bytes.length := by omega
      rw [hnat, ← List.drop_drop, ← hrest, List.drop_left, List.append_assoc]
      change _ ++ (bytes ++ rest) = _
      rw [hrest, ih.got_eq]

/-- The position of a reader is the `size_t` it is converted to.
Source: `main.c`, `aesd_read`
Kind: L -/
theorem ReadTo.sizeOfLoff_eq {start pos : ℤ} {got : List UInt8} (hr : ReadTo dev start pos got) :
    (sizeOfLoff pos : ℤ) = pos := by
  have := hr.nonneg
  have := hr.small
  unfold sizeOfLoff
  omega

/-- As long as no read comes back empty the position is at least the number of reads.
Source: `main.c`, `aesd_read`
Kind: L -/
theorem le_fPos_of_reads (ha : Accounted K s.dev) (hnonneg : 0 ≤ s.fPos file) (n : ℕ)
    (hsome : ∀ i < n, readResult K s file counts i ≠ .ok []) :
    (n : ℤ) ≤ (readStates K s file counts n).fPos file := by
  induction n with
  | zero => exact hnonneg
  | succ n ih =>
      obtain ⟨bytes, hres, hmove, -, -, -⟩ := readResult_ok file counts ha n
      have hne : bytes ≠ [] := by
        rintro rfl
        exact hsome n (Nat.lt_succ_self n) hres
      have hpos := List.length_pos_of_ne_nil hne
      have hle := ih fun i hi => hsome i (Nat.lt_succ_of_lt hi)
      rw [hmove]
      omega

/-- Some read comes back empty: the position cannot stay below the end for ever.
Source: `main.c`, `aesd_read`
Kind: L -/
theorem exists_empty_read (ha : Accounted K s.dev) (hnonneg : 0 ≤ s.fPos file)
    (hsmall : s.fPos file < 2 ^ 63) : ∃ n, readResult K s file counts n = .ok [] := by
  by_contra hnone
  rw [not_exists] at hnone
  have hle := le_fPos_of_reads file counts ha hnonneg s.dev.content.length fun i _ => hnone i
  have hpos := (readTo_of_reads file counts ha hnonneg hsmall s.dev.content.length).sizeOfLoff_eq
  obtain ⟨bytes, hres, -, -, -, hempty⟩ := readResult_ok file counts ha s.dev.content.length
  have hnil : bytes = [] := hempty.mpr (Or.inr (by omega))
  rw [hnil] at hres
  exact hnone _ hres

end reads

/-- A read that fails leaves the driver as it was.
Source: `main.c`, `aesd_read`
Kind: L -/
theorem exec_read_of_error {s : DriverState} {file : ℕ} {env : ReadEnv} {count : ℕ} {e : Errno}
    (herr : (aesdRead env count (s.fPos file) s.dev).1 = .error e) :
    s.exec K (.read file env count) = s := by
  have hsame := aesdRead_of_error herr
  simp only [DriverState.exec, hsame, Function.update_eq_self]

/-- **Reading to the end delivers the content.** In every reachable state, from every position and
with any positive counts, when nothing else happens in between: a read below the end of the content
delivers between one and `count` bytes, all of one entry and from the position on, and moves the
position by their number; a read delivers nothing, and leaves the position, exactly at and past the
end; some read does, and what the reads before the first such one have delivered is the content from
the first position on. A read that fails leaves the driver as it was.
Source: `main.c`, `aesd_read`
Kind: P -/
theorem reads_to_eof (K : KernelLimits) (ops : List DriverOp) (fPos : ℕ → ℤ) (file : ℕ)
    (counts : ℕ → ℕ) (hcounts : ∀ n, 1 ≤ counts n) (hnonneg : 0 ≤ fPos file)
    (hloff : fPos file < 2 ^ 63) :
    let dev := (driverRun K ops).dev
    let s := readStates K ⟨dev, fPos⟩ file counts
    let result := readResult K ⟨dev, fPos⟩ file counts
    (∀ n, (s n).dev = dev) ∧
    (∀ n, (s n).fPos file < dev.content.length → ∃ k b cmd, dev.commands[k]? = some cmd ∧
      (s n).fPos file = ((((dev.commands.take k).map List.length).sum + b : ℕ) : ℤ) ∧
      result n = .ok ((cmd.drop b).take (counts n)) ∧
      1 ≤ ((cmd.drop b).take (counts n)).length ∧
      ((cmd.drop b).take (counts n)).length ≤ counts n ∧
      (s (n + 1)).fPos file = (s n).fPos file + ((cmd.drop b).take (counts n)).length) ∧
    (∀ n, (result n = .ok [] ∧ (s (n + 1)).fPos file = (s n).fPos file) ↔
      (dev.content.length : ℤ) ≤ (s n).fPos file) ∧
    (∃ n, result n = .ok [] ∧ (∀ i < n, result i ≠ .ok []) ∧
      delivered K ⟨dev, fPos⟩ file counts n = dev.content.drop (fPos file).toNat) ∧
    ∀ env count e, (aesdRead env count (fPos file) dev).1 = .error e →
      DriverState.exec K ⟨dev, fPos⟩ (.read file env count) = ⟨dev, fPos⟩ := by
  intro dev s result
  have ha : Accounted K dev := (represents_driverRun K ops).toAccounted
  have hto : ∀ n, ReadTo dev (fPos file) ((s n).fPos file) (delivered K ⟨dev, fPos⟩ file counts n) :=
    readTo_of_reads (s := ⟨dev, fPos⟩) file counts ha hnonneg hloff
  have hdev : ∀ n, (s n).dev = dev := readStates_dev file counts
  have hend : ∀ n, (result n = .ok [] ∧ (s (n + 1)).fPos file = (s n).fPos file) ↔
      (dev.content.length : ℤ) ≤ (s n).fPos file := by
    intro n
    obtain ⟨bytes, hres, hmove, -, -, hempty⟩ :=
      readResult_ok (s := ⟨dev, fPos⟩) file counts ha n
    have hpos := (hto n).sizeOfLoff_eq
    have hcount := hcounts n
    constructor
    · rintro ⟨hnil, -⟩
      have hbytes : bytes = [] := Except.ok.inj (hres.symm.trans hnil)
      have hpast := (hempty.mp hbytes).resolve_left (by omega)
      change dev.content.length ≤ sizeOfLoff ((s n).fPos file) at hpast
      omega
    · intro hpast
      have hbytes : bytes = [] := by
        refine hempty.mpr (Or.inr ?_)
        change dev.content.length ≤ sizeOfLoff ((s n).fPos file)
        omega
      rw [hbytes] at hres hmove
      refine ⟨hres, hmove.trans ?_⟩
      rw [List.length_nil, Nat.cast_zero, add_zero]
  refine ⟨hdev, ?_, hend, ?_, fun env count e herr => exec_read_of_error herr⟩
  · intro n hlt
    have hpos := (hto n).sizeOfLoff_eq
    have hin : sizeOfLoff ((s n).fPos file) < dev.content.length := by omega
    obtain ⟨k, b, cmd, hcmd, hb, hp, hread⟩ := aesdRead_entry ha (counts n) hin
    have hcount := hcounts n
    have hlen : ((cmd.drop b).take (counts n)).length = min (counts n) (cmd.length - b) := by
      rw [List.length_take, List.length_drop]
    refine ⟨k, b, cmd, hcmd, by omega, ?_, by omega, by omega, ?_⟩
    · change (aesdRead .undisturbed (counts n) ((s n).fPos file) (s n).dev).1 = _
      rw [hdev n, hread]
    · change (readStates K ⟨dev, fPos⟩ file counts (n + 1)).fPos file = _
      rw [readStates_fPos_succ]
      exact congrArg Prod.snd hread
  · classical
    have hex : ∃ n, result n = .ok [] :=
      exists_empty_read (s := ⟨dev, fPos⟩) file counts ha hnonneg hloff
    refine ⟨Nat.find hex, Nat.find_spec hex, fun i hi => Nat.find_min hex hi, ?_⟩
    -- the first empty read is at or past the end, so that nothing is left
    obtain ⟨bytes, hres, hmove, -, -, -⟩ :=
      readResult_ok (s := ⟨dev, fPos⟩) file counts ha (Nat.find hex)
    have hbytes : bytes = [] := Except.ok.inj (hres.symm.trans (Nat.find_spec hex))
    rw [hbytes, List.length_nil, Nat.cast_zero, add_zero] at hmove
    have hpast := (hend (Nat.find hex)).mp ⟨Nat.find_spec hex, hmove⟩
    have hgot := (hto (Nat.find hex)).got_eq
    rw [List.drop_of_length_le (by omega), List.append_nil] at hgot
    exact hgot

/-- Two entries read in pieces of two bytes, from the second byte on.
Source: `main.c`, `aesd_read`
Kind: N+ -/
theorem reads_to_eof_two_entries :
    ∃ n, delivered .pages4K ⟨(driverRun .pages4K [.write 0 .undisturbed [97, 98, 10],
      .write 0 .undisturbed [99, 10]]).dev, fun _ => 1⟩ 0 (fun _ => 2) n = [98, 10, 99, 10] := by
  obtain ⟨n, -, -, hgot⟩ := (reads_to_eof .pages4K [.write 0 .undisturbed [97, 98, 10],
    .write 0 .undisturbed [99, 10]] (fun _ => 1) 0 (fun _ => 2) (fun _ => by decide) (by decide)
    (by decide)).2.2.2.1
  exact ⟨n, hgot⟩

end Aesd.Driver
