import Aesd.Driver.CharDevice
import Aesd.Lib.Records

/-!
# What the device represents, and what a write does to it

The device is an assembler of newline-terminated records that keeps the last ten: its abstract
state is `AesdDev.records`, the `Records` of `Aesd.Lib.Records`. `Represents K dev` ties the code's
state to it: the ring holds the last ten completed records, the pending entry holds what is being
gathered, which has no newline, and the pointers of the two account for the whole heap.

* `WriteOutcome` — everything one `aesd_write` can do, as three cases: the call is refused and
  changes nothing, the call fails and drops the pending bytes, or the call feeds its bytes to the
  assembler. `aesdWrite_outcome` is the one place where the code of `aesd_write` is analysed.
* `represents_driverRun` — every state of the driver represents, whatever was called.
-/

namespace Aesd.Driver

open Aesd.Lib

/-! ### What the kernel services do to the ledger -/

/-- The pointer `p` has been added to the ones that account for the heap, it holds `bytes`, and
what the others hold is untouched.
Source: `main.c`, `aesd_write`
Kind: D -/
structure Granted (h h' : Heap UInt8) (p : Ptr) (bytes : List UInt8) (ps : List Ptr) : Prop where
  owned : h'.Owned (p :: ps)
  load_eq : h'.load p = bytes
  frame : ∀ q ∈ ps, h'.load q = h.load q
  ne_null : p ≠ .null
  /-- A block is never empty: an empty request is answered without one. -/
  block_pos : ∀ id, p = .block id → 0 < bytes.length

/-- `kzalloc` gives out a zeroed block when it does not refuse.
Source: `main.c`, `aesd_write`
Kind: L -/
theorem kzalloc_granted {K : KernelLimits} {answer : AllocAnswer} {n : ℕ} {h : Heap UInt8}
    {ps : List Ptr} (ho : h.Owned ps) (hn : n = 0 ∨ ¬ answer.Refuses K n) :
    Granted h (kzalloc K answer n h).2 (kzalloc K answer n h).1 (List.replicate n 0) ps := by
  unfold kzalloc
  by_cases hzero : n = 0
  · rw [if_pos hzero]
    subst hzero
    exact ⟨ho.of_ids_eq rfl, rfl, fun _ _ => rfl, by simp, by simp⟩
  · rw [if_neg hzero, if_neg (hn.resolve_left hzero)]
    refine ⟨ho.fresh _, Heap.load_fresh_self _ _, fun q hq => ho.load_fresh_of_mem hq, by simp, ?_⟩
    intro id _
    rw [List.length_replicate]
    exact Nat.pos_of_ne_zero hzero

/-- A refused `kzalloc` changes nothing.
Source: `main.c`, `aesd_write`
Kind: L -/
theorem kzalloc_refused {K : KernelLimits} {answer : AllocAnswer} {n : ℕ} {h : Heap UInt8}
    (hzero : n ≠ 0) (href : answer.Refuses K n) : kzalloc K answer n h = (.null, h) := by
  unfold kzalloc
  rw [if_neg hzero, if_pos href]

/-- A resized block has the new size.
Source: none: infrastructure
Kind: L -/
theorem resize_length (old : List UInt8) (n : ℕ) (junk : ℕ → UInt8) :
    (resize old n junk).length = n := by
  simp only [resize, List.length_append, List.length_take, List.length_map, List.length_range]
  omega

/-- A block that grows keeps its contents.
Source: none: infrastructure
Kind: L -/
theorem take_resize {old : List UInt8} {n : ℕ} (h : old.length ≤ n) (junk : ℕ → UInt8) :
    (resize old n junk).take old.length = old := by
  have hold : old.take n = old := List.take_of_length_le h
  rw [resize, hold, List.take_left]

/-- A block is resized in place or moved, and the other ones are left alone.
Source: `main.c`, `aesd_write`
Kind: L -/
theorem regrow_granted (answer : AllocAnswer) (junk : ℕ → UInt8) {p : Ptr} {n : ℕ}
    {h : Heap UInt8} {ps : List Ptr} (ho : h.Owned (p :: ps)) (hzero : n ≠ 0) :
    Granted h (regrow answer junk p n h).2 (regrow answer junk p n h).1
      (resize (h.load p) n junk) ps := by
  have hpos : 0 < (resize (h.load p) n junk).length := by
    rw [resize_length]
    exact Nat.pos_of_ne_zero hzero
  -- a new block is allocated before the old one is released
  have hmoved : Granted h ((h.fresh (resize (h.load p) n junk)).free p) (.block h.next)
      (resize (h.load p) n junk) ps := by
    have hfresh : (h.fresh (resize (h.load p) n junk)).Owned (p :: .block h.next :: ps) :=
      (ho.fresh _).perm (List.Perm.swap _ _ _)
    refine ⟨hfresh.free, ?_, ?_, by simp, fun _ _ => hpos⟩
    · rw [hfresh.load_free_of_mem List.mem_cons_self, Heap.load_fresh_self]
    · intro q hq
      rw [hfresh.load_free_of_mem (List.mem_cons_of_mem _ hq),
        ho.load_fresh_of_mem (List.mem_cons_of_mem _ hq)]
  cases p with
  | null => exact hmoved
  | zeroSize => exact hmoved
  | block id =>
      cases answer with
      | fail => exact hmoved
      | moved => exact hmoved
      | inPlace =>
          change Granted h (h.put (.block id) (resize (h.load (.block id)) n junk)) (.block id)
            (resize (h.load (.block id)) n junk) ps
          exact ⟨ho.put _ _, ho.load_put_self, fun q hq => ho.load_put_of_mem hq, by simp,
            fun _ _ => hpos⟩

/-- `krealloc` gives out a block with the old bytes in front when it does not refuse.
Source: `main.c`, `aesd_write`
Kind: L -/
theorem krealloc_granted {K : KernelLimits} {answer : AllocAnswer} (junk : ℕ → UInt8) {p : Ptr}
    {n : ℕ} {h : Heap UInt8} {ps : List Ptr} (ho : h.Owned (p :: ps))
    (hn : n = 0 ∨ ¬ answer.Refuses K n) :
    Granted h (krealloc K answer junk p n h).2 (krealloc K answer junk p n h).1
      (resize (h.load p) n junk) ps := by
  unfold krealloc
  by_cases hzero : n = 0
  · rw [if_pos hzero]
    subst hzero
    refine ⟨ho.free.of_ids_eq rfl, ?_, fun q hq => ho.load_free_of_mem hq, by simp, by simp⟩
    simp [resize]
  · rw [if_neg hzero, if_neg (hn.resolve_left hzero)]
    exact regrow_granted answer junk ho hzero

/-- A refused `krealloc` changes nothing.
Source: `main.c`, `aesd_write`
Kind: L -/
theorem krealloc_refused {K : KernelLimits} {answer : AllocAnswer} {junk : ℕ → UInt8} {p : Ptr}
    {n : ℕ} {h : Heap UInt8} (hzero : n ≠ 0) (href : answer.Refuses K n) :
    krealloc K answer junk p n h = (.null, h) := by
  unfold krealloc
  rw [if_neg hzero, if_pos href]

/-- Bytes are replaced inside of a block.
Source: none: infrastructure
Kind: L -/
theorem patch_length {old data : List UInt8} {offset : ℕ} (h : old.length = offset + data.length) :
    (patch old offset data).length = old.length := by
  simp only [patch, List.length_append, List.length_take, List.length_drop]
  omega

/-- Bytes at the end of a block are replaced.
Source: none: infrastructure
Kind: L -/
theorem patch_of_length {old data : List UInt8} {offset : ℕ}
    (h : old.length = offset + data.length) : patch old offset data = old.take offset ++ data := by
  unfold patch
  rw [List.drop_of_length_le h.le, List.append_nil]

/-- The bytes a user copy leaves in the destination are as many as were asked for.
Source: `main.c`, `aesd_write`
Kind: L -/
theorem copied_length (src : List UInt8) (uncopied : ℕ) :
    (src.take (src.length - notCopied uncopied src.length) ++
      List.replicate (notCopied uncopied src.length) (0 : UInt8)).length = src.length := by
  simp only [notCopied, List.length_append, List.length_take, List.length_replicate]
  omega

/-- `copy_from_user` fills the block from an offset on, unless it fails.
Source: `main.c`, `aesd_write`
Kind: L -/
theorem copyFromUser_granted {h h' : Heap UInt8} {p : Ptr} {bytes : List UInt8} {ps : List Ptr}
    (hg : Granted h h' p bytes ps) (uncopied : ℕ) {offset : ℕ} {src : List UInt8}
    (hlen : bytes.length = offset + src.length) :
    ∃ bytes', Granted h (copyFromUser p offset src uncopied h').2 p bytes' ps ∧
      bytes'.length = bytes.length ∧
      ((copyFromUser p offset src uncopied h').1 = 0 → bytes' = bytes.take offset ++ src) := by
  have hlen' : bytes.length = offset + (src.take (src.length - notCopied uncopied src.length) ++
      List.replicate (notCopied uncopied src.length) (0 : UInt8)).length := by
    rw [copied_length, hlen]
  refine ⟨_, ⟨hg.owned.put p _, ?_, ?_, hg.ne_null, ?_⟩, patch_length hlen', ?_⟩
  · cases p with
    | null => exact absurd rfl hg.ne_null
    | zeroSize =>
        -- nothing is behind the empty address, and nothing was asked for
        have hempty : bytes = [] := hg.load_eq.symm
        rw [hempty, List.length_nil] at hlen
        have hsrc : src = [] := List.length_eq_zero_iff.mp (by omega)
        simp [hempty, hsrc, patch, notCopied, Heap.load]
    | block id =>
        unfold copyFromUser
        rw [hg.owned.load_put_self, hg.load_eq]
  · intro q hq
    rw [← hg.frame q hq]
    exact hg.owned.load_put_of_mem hq
  · intro id hid
    rw [patch_length hlen']
    exact hg.block_pos id hid
  · intro hleft
    have hzero : notCopied uncopied src.length = 0 := hleft
    rw [patch_of_length hlen', hzero]
    simp

/-! ### The representation -/

/-- The abstract state of the device.
Source: `main.c`, `aesd_write`
Kind: D -/
def AesdDev.records (dev : AesdDev) : Records UInt8 := ⟨dev.added, dev.pending⟩

/-- The entry's block holds the bytes, all of them counted.
Source: `main.c`, `aesd_write`
Kind: D -/
def Holds (h : Heap UInt8) (e : AesdBufferEntry) (bytes : List UInt8) : Prop :=
  h.load e.buffptr = bytes ∧ e.size = bytes.length

/-- Entries hold the same bytes in a heap that agrees on their blocks.
Source: `main.c`, `aesd_write`
Kind: L -/
theorem holds_congr {h h' : Heap UInt8} {es : List AesdBufferEntry} {L : List (List UInt8)}
    (hall : List.Forall₂ (Holds h) es L) :
    (∀ q ∈ es.map AesdBufferEntry.buffptr, h'.load q = h.load q) →
      List.Forall₂ (Holds h') es L := by
  induction hall with
  | nil => exact fun _ => List.Forall₂.nil
  | cons he _ ih =>
      intro hframe
      rw [List.map_cons, List.forall_mem_cons] at hframe
      exact List.Forall₂.cons ⟨hframe.1.trans he.1, he.2⟩ (ih hframe.2)

/-- An entry of a list holds one of the bytes.
Source: `main.c`, `aesd_write`
Kind: L -/
theorem exists_held {h : Heap UInt8} {es : List AesdBufferEntry} {L : List (List UInt8)}
    (hall : List.Forall₂ (Holds h) es L) {e : AesdBufferEntry} (he : e ∈ es) :
    ∃ bytes ∈ L, Holds h e bytes := by
  induction hall with
  | nil => exact absurd he List.not_mem_nil
  | cons hhead _ ih =>
      rcases List.mem_cons.mp he with rfl | htail
      · exact ⟨_, List.mem_cons_self, hhead⟩
      · obtain ⟨bytes, hmem, hheld⟩ := ih htail
        exact ⟨bytes, List.mem_cons_of_mem _ hmem, hheld⟩

/-- The ring and the pending entry account for the heap and hold what was added to the ring and
what is being gathered.
Source: `main.c`, `aesd_write`
Kind: D -/
structure Accounted (K : KernelLimits) (dev : AesdDev) : Prop where
  /-- The ring is the one that adding that many entries leaves. -/
  log : ∃ es, BufferLog dev.buffer es ∧ es.length = dev.added.length
  /-- The entries in use hold the last ten records. -/
  holds : List.Forall₂ (Holds dev.heap) dev.buffer.retained (dev.added.rtake 10)
  /-- A record holds a newline, -/
  terminated : ∀ bytes ∈ dev.added, newline ∈ bytes
  /-- and it was once allocated. -/
  bounded : ∀ bytes ∈ dev.added, bytes.length ≤ K.kmallocMaxSize
  pending_length : (dev.heap.load dev.currentWriteEntry.buffptr).length = dev.currentWriteEntry.size
  pending_bounded : dev.currentWriteEntry.size ≤ K.kmallocMaxSize
  pending_pos : ∀ id, dev.currentWriteEntry.buffptr = .block id → 0 < dev.currentWriteEntry.size
  /-- The pointers of the pending entry and of the entries in use account for the heap. -/
  owned : dev.heap.Owned
    (dev.currentWriteEntry.buffptr :: dev.buffer.retained.map AesdBufferEntry.buffptr)

/-- Between calls what is being gathered has no newline.
Source: `main.c`, `aesd_write`
Kind: D -/
structure Represents (K : KernelLimits) (dev : AesdDev) : Prop extends Accounted K dev where
  pending_free : newline ∉ dev.pending

namespace Accounted

variable {K : KernelLimits} {dev : AesdDev}

/-- The pending bytes are all that the pending block holds.
Source: `main.c`, `aesd_write`
Kind: L -/
theorem pending_eq (h : Accounted K dev) :
    dev.pending = dev.heap.load dev.currentWriteEntry.buffptr := by
  unfold AesdDev.pending
  rw [← h.pending_length, List.take_length]

/-- The pending bytes are as many as the size of the pending entry.
Source: `main.c`, `aesd_write`
Kind: L -/
theorem length_pending (h : Accounted K dev) : dev.pending.length = dev.currentWriteEntry.size := by
  rw [h.pending_eq, h.pending_length]

/-- The ring keeps the last ten records.
Source: `main.c`, `aesd_write`
Kind: L -/
theorem commands_eq (h : Accounted K dev) : dev.commands = dev.added.rtake 10 := by
  have key : ∀ {es : List AesdBufferEntry} {L : List (List UInt8)},
      List.Forall₂ (Holds dev.heap) es L → es.map dev.bytesOf = L := by
    intro es L hall
    induction hall with
    | nil => rfl
    | cons he _ ih =>
        rw [List.map_cons, ih]
        refine congrArg (· :: _) ?_
        unfold AesdDev.bytesOf
        rw [he.1, he.2, List.take_length]
  exact key h.holds

end Accounted

/-- The initialised device represents the empty records.
Source: `main.c`, `aesd_init_module`
Kind: L -/
theorem represents_init (K : KernelLimits) : Represents K aesdInitModule where
  log := ⟨[], bufferLog_init, rfl⟩
  holds := by
    have hnil : aesdInitModule.buffer.retained = [] := bufferLog_init.retained_eq
    rw [hnil]
    exact List.Forall₂.nil
  terminated := by simp [aesdInitModule]
  bounded := by simp [aesdInitModule]
  pending_length := rfl
  pending_bounded := Nat.zero_le _
  pending_pos := by simp [aesdInitModule, AesdBufferEntry.zeroed]
  owned := by
    have hnil : aesdInitModule.buffer.retained = [] := bufferLog_init.retained_eq
    rw [hnil]
    exact Heap.Owned.of_empty.of_ids_eq rfl
  pending_free := by simp [aesdInitModule, AesdDev.pending, AesdBufferEntry.zeroed]

/-! ### Gathering the bytes of a write -/

/-- The allocation a write needs for `n` bytes fails; an empty request never does.
Source: `main.c`, `aesd_write`
Kind: D -/
def WriteEnv.AllocFails (env : WriteEnv) (K : KernelLimits) (n : ℕ) : Prop :=
  n ≠ 0 ∧ env.alloc.Refuses K n

/-- Whether an allocation fails is decided by its size and the answer.
Source: none: infrastructure
Kind: D -/
instance (env : WriteEnv) (K : KernelLimits) (n : ℕ) : Decidable (env.AllocFails K n) :=
  inferInstanceAs (Decidable (_ ∧ _))

/-- The user copy of `n` bytes fails.
Source: `main.c`, `aesd_write`
Kind: D -/
def WriteEnv.CopyFails (env : WriteEnv) (n : ℕ) : Prop := notCopied env.uncopied n ≠ 0

/-- Whether a user copy fails is decided by its answer.
Source: none: infrastructure
Kind: D -/
instance (env : WriteEnv) (n : ℕ) : Decidable (env.CopyFails n) :=
  inferInstanceAs (Decidable (_ ≠ _))

section gather

variable {K : KernelLimits} {dev : AesdDev} {h : Heap UInt8} {p : Ptr} {bytes : List UInt8}

/-- A granted pointer becomes the pending entry.
Source: `aesd-circular-buffer.c`, `aesd_circular_buffer_add_entry`
Kind: L -/
theorem Accounted.setPending (ha : Accounted K dev)
    (hg : Granted dev.heap h p bytes (dev.buffer.retained.map AesdBufferEntry.buffptr))
    (hle : bytes.length ≤ K.kmallocMaxSize) :
    Accounted K { dev with currentWriteEntry := ⟨p, bytes.length⟩, heap := h } where
  log := ha.log
  holds := holds_congr ha.holds hg.frame
  terminated := ha.terminated
  bounded := ha.bounded
  pending_length := congrArg List.length hg.load_eq
  pending_bounded := hle
  pending_pos := hg.block_pos
  owned := hg.owned

/-- A granted pointer that is released again leaves no pending entry.
Source: `aesd-circular-buffer.c`, `aesd_circular_buffer_add_entry`
Kind: L -/
theorem Accounted.dropPending (ha : Accounted K dev)
    (hg : Granted dev.heap h p bytes (dev.buffer.retained.map AesdBufferEntry.buffptr)) :
    Represents K { dev with currentWriteEntry := ⟨.null, 0⟩, heap := h.free p } where
  log := ha.log
  holds := holds_congr ha.holds fun q hq =>
    (hg.owned.load_free_of_mem hq).trans (hg.frame q hq)
  terminated := ha.terminated
  bounded := ha.bounded
  pending_length := rfl
  pending_bounded := Nat.zero_le _
  pending_pos := by simp
  owned := hg.owned.free.of_ids_eq rfl
  pending_free := by simp [AesdDev.pending]

/-- What the two branches of `aesd_write` that gather the user's bytes can do.
Source: `main.c`, `aesd_write`
Kind: D -/
inductive GatherOutcome (K : KernelLimits) (env : WriteEnv) (buf : List UInt8) (dev : AesdDev) :
    Except Errno Unit × AesdDev → Prop where
  /-- The allocation failed and nothing changed. -/
  | refused (halloc : env.AllocFails K (dev.currentWriteEntry.size + buf.length)) :
      GatherOutcome K env buf dev (.error .ENOMEM, dev)
  /-- The copy failed and the pending block is gone. -/
  | dropped {dev' : AesdDev} (halloc : ¬ env.AllocFails K (dev.currentWriteEntry.size + buf.length))
      (hcopy : env.CopyFails buf.length) (hrep : Represents K dev')
      (hbuffer : dev'.buffer = dev.buffer) (hrec : dev'.records = dev.records.forget) :
      GatherOutcome K env buf dev (.error .EFAULT, dev')
  /-- The bytes were added to the pending ones. -/
  | gathered {dev' : AesdDev}
      (halloc : ¬ env.AllocFails K (dev.currentWriteEntry.size + buf.length))
      (hcopy : ¬ env.CopyFails buf.length) (hacc : Accounted K dev')
      (hbuffer : dev'.buffer = dev.buffer) (hadded : dev'.added = dev.added)
      (hpending : dev'.pending = dev.pending ++ buf) :
      GatherOutcome K env buf dev (.ok (), dev')

/-- The end the two branches share: the copy into a granted pointer.
Source: `main.c`, `aesd_write`
Kind: L -/
theorem gather_copy {env : WriteEnv} {buf : List UInt8} (hrep : Represents K dev)
    (hg : Granted dev.heap h p bytes (dev.buffer.retained.map AesdBufferEntry.buffptr))
    (halloc : ¬ env.AllocFails K (dev.currentWriteEntry.size + buf.length))
    (hlen : bytes.length = dev.currentWriteEntry.size + buf.length)
    (htake : bytes.take dev.currentWriteEntry.size = dev.pending) :
    GatherOutcome K env buf dev
      (if (copyFromUser p dev.currentWriteEntry.size buf env.uncopied h).1 ≠ 0 then
        (.error .EFAULT, { dev with
          currentWriteEntry := ⟨.null, 0⟩
          heap := (copyFromUser p dev.currentWriteEntry.size buf env.uncopied h).2.free p })
      else
        (.ok (), { dev with
          currentWriteEntry := ⟨p, dev.currentWriteEntry.size + buf.length⟩
          heap := (copyFromUser p dev.currentWriteEntry.size buf env.uncopied h).2 })) := by
  obtain ⟨bytes', hg', hlen', hcopied⟩ := copyFromUser_granted hg env.uncopied hlen
  have hleft : (copyFromUser p dev.currentWriteEntry.size buf env.uncopied h).1 =
      notCopied env.uncopied buf.length := rfl
  by_cases hcopy : env.CopyFails buf.length
  · rw [if_pos (hleft ▸ hcopy)]
    refine .dropped halloc hcopy (hrep.toAccounted.dropPending hg') rfl ?_
    simp [AesdDev.records, AesdDev.pending, Records.forget]
  · rw [if_neg (hleft ▸ hcopy)]
    have hsize : dev.currentWriteEntry.size + buf.length = bytes'.length := by rw [hlen', hlen]
    have hle : bytes'.length ≤ K.kmallocMaxSize := by
      rw [← hsize]
      by_contra hgt
      exact halloc ⟨by omega, Or.inl (by omega)⟩
    have hacc := hrep.toAccounted.setPending hg' hle
    rw [hsize]
    refine .gathered halloc hcopy hacc rfl rfl ?_
    rw [hacc.pending_eq, hg'.load_eq, hcopied (not_not.mp hcopy), htake]

end gather

section write

variable {K : KernelLimits} {env : WriteEnv} {buf : List UInt8} {dev : AesdDev}

/-- What the branch with no pending entry does.
Source: `main.c`, `aesd_write`
Kind: L -/
theorem aesdWriteFirst_outcome (hrep : Represents K dev)
    (hnull : dev.currentWriteEntry.buffptr = .null) :
    GatherOutcome K env buf dev (aesdWriteFirst K env buf dev) := by
  have hsize : dev.currentWriteEntry.size = 0 := by
    rw [← hrep.pending_length, hnull]
    rfl
  have hpending : dev.pending = [] := by
    rw [hrep.pending_eq, hnull]
    rfl
  have howned : dev.heap.Owned (dev.buffer.retained.map AesdBufferEntry.buffptr) := by
    have ho := hrep.owned
    rw [hnull] at ho
    exact ho.of_ids_eq rfl
  unfold aesdWriteFirst
  by_cases halloc : env.AllocFails K (dev.currentWriteEntry.size + buf.length)
  · have h := halloc
    rw [hsize, Nat.zero_add] at h
    rw [kzalloc_refused h.1 h.2]
    simp only [if_true]
    have hsame : ({ dev.currentWriteEntry with buffptr := .null } : AesdBufferEntry) =
        dev.currentWriteEntry := by rw [← hnull]
    rw [hsame]
    exact .refused halloc
  · have hok : buf.length = 0 ∨ ¬ env.alloc.Refuses K buf.length := by
      have h := halloc
      rw [hsize, Nat.zero_add, WriteEnv.AllocFails, not_and_or, not_not] at h
      exact h
    have hg := kzalloc_granted howned hok
    have hout := gather_copy hrep hg halloc (by simp [hsize]) (by simp [hsize, hpending])
    rw [hsize, Nat.zero_add] at hout
    simpa only [if_neg hg.ne_null] using hout

/-- What the branch with a pending entry does.
Source: `main.c`, `aesd_write`
Kind: L -/
theorem aesdWriteGrow_outcome (hrep : Represents K dev) (hbuf : buf.length ≤ K.maxRwCount) :
    GatherOutcome K env buf dev (aesdWriteGrow K env buf dev) := by
  have hadd : SizeT.add dev.currentWriteEntry.size buf.length =
      dev.currentWriteEntry.size + buf.length := by
    apply SizeT.add_of_lt
    have := hrep.pending_bounded
    have := K.kmallocMaxSize_lt
    have := K.maxRwCount_lt
    unfold SizeT.modulus
    omega
  unfold aesdWriteGrow
  by_cases halloc : env.AllocFails K (dev.currentWriteEntry.size + buf.length)
  · rw [hadd, krealloc_refused halloc.1 halloc.2]
    exact .refused halloc
  · have hok : dev.currentWriteEntry.size + buf.length = 0 ∨
        ¬ env.alloc.Refuses K (dev.currentWriteEntry.size + buf.length) := by
      have h := halloc
      rw [WriteEnv.AllocFails, not_and_or, not_not] at h
      exact h
    have hg := krealloc_granted env.junk hrep.owned hok
    have htake : (resize (dev.heap.load dev.currentWriteEntry.buffptr)
        (dev.currentWriteEntry.size + buf.length) env.junk).take dev.currentWriteEntry.size =
        dev.pending := by
      have hle : (dev.heap.load dev.currentWriteEntry.buffptr).length ≤
          dev.currentWriteEntry.size + buf.length := by
        rw [hrep.pending_length]
        exact Nat.le_add_right _ _
      have hkeep := take_resize hle env.junk
      rw [hrep.pending_length] at hkeep
      rw [hkeep, hrep.pending_eq]
    have hout := gather_copy hrep hg halloc (resize_length _ _ _) htake
    rw [← hadd] at hout
    simpa only [hadd, if_neg hg.ne_null] using hout

/-! ### Committing what was gathered -/

/-- Without a newline nothing is added.
Source: `main.c`, `aesd_write`
Kind: L -/
theorem aesdWriteCommit_of_not_mem (hfree : newline ∉ dev.pending) (count : ℕ) :
    aesdWriteCommit count dev = (count, dev) := by
  unfold aesdWriteCommit
  rw [if_neg hfree]

/-- An entry in use points to a block: it holds a record, which is not empty.
Source: `aesd-circular-buffer.c`, `aesd_circular_buffer_add_entry`
Kind: L -/
theorem Accounted.ne_null_of_mem (ha : Accounted K dev) {e : AesdBufferEntry}
    (he : e ∈ dev.buffer.retained) : e.buffptr ≠ .null := by
  obtain ⟨bytes, hmem, hheld⟩ := exists_held ha.holds he
  have hnl := ha.terminated bytes (List.mem_of_mem_drop hmem)
  intro hnull
  rw [← hheld.1, hnull, Heap.load_null] at hnl
  exact List.not_mem_nil hnl

/-- The pending entry is moved into the ring: once the overwritten entry is released, the ring
holds the last ten records and its pointers account for the heap.
Source: `aesd-circular-buffer.c`, `aesd_circular_buffer_add_entry`
Kind: L -/
theorem Accounted.moveToRing (ha : Accounted K dev) :
    List.Forall₂
      (Holds (dev.heap.free (aesdCircularBufferAddEntry dev.buffer dev.currentWriteEntry).1))
      (aesdCircularBufferAddEntry dev.buffer dev.currentWriteEntry).2.retained
      ((dev.added ++ [dev.pending]).rtake 10) ∧
    (dev.heap.free (aesdCircularBufferAddEntry dev.buffer dev.currentWriteEntry).1).Owned
      ((aesdCircularBufferAddEntry dev.buffer dev.currentWriteEntry).2.retained.map
        AesdBufferEntry.buffptr) := by
  obtain ⟨es, hlog, hlen⟩ := ha.log
  set e := dev.currentWriteEntry with he
  have hheld : Holds dev.heap e dev.pending := ⟨ha.pending_eq.symm, ha.length_pending.symm⟩
  have howned := ha.owned
  have hholds := ha.holds
  rw [List.rtake_concat_succ]
  rcases hlog.retained_addEntry e with
    ⟨hlt, hremoved, hretained⟩ | ⟨hge, oldest, rest, hcons, hremoved, hretained⟩
  · rw [hremoved, hretained, Heap.free_null, List.map_append]
    refine ⟨?_, howned.perm (List.perm_append_singleton _ _).symm⟩
    rw [← rtake_succ_of_le (show dev.added.length ≤ 9 by omega)]
    exact List.rel_append hholds (List.Forall₂.cons hheld List.Forall₂.nil)
  · obtain ⟨first, hfirst⟩ := rtake_succ_of_lt (l := dev.added) (n := 9) (by omega)
    rw [hcons, hfirst, List.forall₂_cons] at hholds
    -- the pointer to be released comes first
    have hswap : dev.heap.Owned (oldest.buffptr :: e.buffptr ::
        rest.map AesdBufferEntry.buffptr) := by
      rw [← he, hcons, List.map_cons] at howned
      exact howned.perm (List.Perm.swap _ _ _)
    have hall : List.Forall₂ (Holds dev.heap) (rest ++ [e]) (dev.added.rtake 9 ++ [dev.pending]) :=
      List.rel_append hholds.2 (List.Forall₂.cons hheld List.Forall₂.nil)
    have hperm : (e.buffptr :: rest.map AesdBufferEntry.buffptr).Perm
        ((rest ++ [e]).map AesdBufferEntry.buffptr) := by
      rw [List.map_append]
      exact (List.perm_append_singleton _ _).symm
    rw [hremoved, hretained]
    refine ⟨holds_congr hall fun q hq => ?_, hswap.free.perm hperm⟩
    exact hswap.load_free_of_mem (hperm.mem_iff.mpr hq)

/-- The end of a write whose bytes complete a record.
Source: `main.c`, `aesd_write`
Kind: L -/
theorem Accounted.commit (ha : Accounted K dev) (hnl : newline ∈ dev.pending) (count : ℕ) :
    (aesdWriteCommit count dev).1 = dev.pending.length ∧
    Represents K (aesdWriteCommit count dev).2 ∧
    (aesdWriteCommit count dev).2.records = ⟨dev.added ++ [dev.pending], []⟩ := by
  obtain ⟨es, hlog, hlen⟩ := ha.log
  obtain ⟨hholds, howned⟩ := ha.moveToRing
  have hcommit : aesdWriteCommit count dev = (dev.currentWriteEntry.size,
      { buffer := (aesdCircularBufferAddEntry dev.buffer dev.currentWriteEntry).2
        currentWriteEntry := ⟨.null, 0⟩
        heap := dev.heap.free (aesdCircularBufferAddEntry dev.buffer dev.currentWriteEntry).1
        added := dev.added ++ [dev.pending] }) := by
    unfold aesdWriteCommit
    rw [if_pos hnl]
    by_cases hnull : (aesdCircularBufferAddEntry dev.buffer dev.currentWriteEntry).1 = .null
    · simp [hnull]
    · simp [hnull]
  rw [hcommit]
  refine ⟨ha.length_pending.symm, ?_, by simp [AesdDev.records, AesdDev.pending]⟩
  refine ⟨⟨⟨_, hlog.addEntry _, by simp [hlen]⟩, hholds, ?_, ?_, rfl, Nat.zero_le _, by simp,
    howned.of_ids_eq rfl⟩, by simp [AesdDev.pending]⟩
  · intro bytes hmem
    rcases List.mem_append.mp hmem with hold | hnew
    · exact ha.terminated bytes hold
    · rw [List.mem_singleton.mp hnew]
      exact hnl
  · intro bytes hmem
    rcases List.mem_append.mp hmem with hold | hnew
    · exact ha.bounded bytes hold
    · rw [List.mem_singleton.mp hnew, ha.length_pending]
      exact ha.pending_bounded

/-! ### Everything a write can do -/

/-- Everything one `aesd_write` can do.
Source: `main.c`, `aesd_write`
Kind: D -/
inductive WriteOutcome (K : KernelLimits) (env : WriteEnv) (buf : List UInt8) (fPos : ℤ)
    (dev : AesdDev) : Except Errno ℕ × ℤ × AesdDev → Prop where
  /-- The call fails and changes nothing: the lock or the memory was not to be had, or the copy
  failed with nothing pending. -/
  | refused {e : Errno} {dev' : AesdDev}
      (hcause : env.interrupted = true ∨
        env.AllocFails K (dev.currentWriteEntry.size + buf.length) ∨ dev.pending = [])
      (hrep : Represents K dev') (hbuffer : dev'.buffer = dev.buffer)
      (hrec : dev'.records = dev.records) :
      WriteOutcome K env buf fPos dev (.error e, fPos, dev')
  /-- The copy fails after the pending block has grown, and the pending bytes are dropped. -/
  | dropped {dev' : AesdDev} (hlock : env.interrupted = false)
      (halloc : ¬ env.AllocFails K (dev.currentWriteEntry.size + buf.length))
      (hcopy : env.CopyFails buf.length) (hne : dev.pending ≠ []) (hrep : Represents K dev')
      (hbuffer : dev'.buffer = dev.buffer) (hrec : dev'.records = dev.records.forget) :
      WriteOutcome K env buf fPos dev (.error .EFAULT, fPos, dev')
  /-- The bytes are fed to the assembler. -/
  | accepted {n : ℕ} {dev' : AesdDev} (hlock : env.interrupted = false)
      (halloc : ¬ env.AllocFails K (dev.currentWriteEntry.size + buf.length))
      (hcopy : ¬ env.CopyFails buf.length)
      (hn : n = if newline ∈ buf then dev.pending.length + buf.length else buf.length)
      (hrep : Represents K dev') (hrec : dev'.records = dev.records.feed newline buf) :
      WriteOutcome K env buf fPos dev (.ok n, fPos + n, dev')

/-- **The code of `aesd_write`, analysed once.**
Source: `main.c`, `aesd_write`
Kind: P -/
theorem aesdWrite_outcome (hrep : Represents K dev) (hbuf : buf.length ≤ K.maxRwCount) (fPos : ℤ) :
    WriteOutcome K env buf fPos dev (aesdWrite K env buf fPos dev) := by
  unfold aesdWrite
  by_cases hlock : env.interrupted = true
  · rw [if_pos hlock]
    exact .refused (Or.inl hlock) hrep rfl rfl
  · rw [if_neg hlock]
    rw [Bool.not_eq_true] at hlock
    have hgather : GatherOutcome K env buf dev
        (if dev.currentWriteEntry.buffptr = .null then aesdWriteFirst K env buf dev
          else aesdWriteGrow K env buf dev) := by
      split_ifs with hnull
      · exact aesdWriteFirst_outcome hrep hnull
      · exact aesdWriteGrow_outcome hrep hbuf
    generalize (if dev.currentWriteEntry.buffptr = .null then aesdWriteFirst K env buf dev
      else aesdWriteGrow K env buf dev) = gathered at hgather ⊢
    cases hgather with
    | refused halloc => exact .refused (Or.inr (Or.inl halloc)) hrep rfl rfl
    | @dropped dev' halloc hcopy hrep' hbuffer hrec =>
        by_cases hne : dev.pending = []
        · refine .refused (Or.inr (Or.inr hne)) hrep' hbuffer ?_
          rw [hrec]
          exact Records.ext rfl hne.symm
        · exact .dropped hlock halloc hcopy hne hrep' hbuffer hrec
    | @gathered dev' halloc hcopy hacc hbuffer hadded hpending =>
        change WriteOutcome K env buf fPos dev (.ok (aesdWriteCommit buf.length dev').1,
          fPos + (aesdWriteCommit buf.length dev').1, (aesdWriteCommit buf.length dev').2)
        by_cases hnl : newline ∈ buf
        · have hmem : newline ∈ dev'.pending := by
            rw [hpending]
            exact List.mem_append_right _ hnl
          obtain ⟨hret, hrep', hrec⟩ := hacc.commit hmem buf.length
          refine .accepted hlock halloc hcopy ?_ hrep' ?_
          · rw [hret, if_pos hnl, hpending, List.length_append]
          · rw [hrec, Records.feed_of_mem hnl, hadded, hpending]
            rfl
        · have hfree : newline ∉ dev'.pending := by
            rw [hpending, List.mem_append, not_or]
            exact ⟨hrep.pending_free, hnl⟩
          rw [aesdWriteCommit_of_not_mem hfree]
          refine .accepted hlock halloc hcopy (if_neg hnl).symm ⟨hacc, hfree⟩ ?_
          rw [Records.feed_of_not_mem hnl]
          exact Records.ext hadded hpending

/-- What the driver is handed of a `write` that the allocator could serve is all of it.
Source: `main.c`, `aesd_write`
Kind: L -/
theorem take_maxRwCount (halloc : ¬ env.AllocFails K
    (dev.currentWriteEntry.size + (buf.take K.maxRwCount).length)) :
    buf.take K.maxRwCount = buf := by
  refine List.take_of_length_le (Nat.le_of_not_lt fun hgt => halloc ?_)
  have hlen : (buf.take K.maxRwCount).length = K.maxRwCount := by
    rw [List.length_take]
    omega
  have := K.kmallocMaxSize_lt
  rw [hlen]
  exact ⟨by omega, Or.inl (by omega)⟩

/-- What one `write` system call on the device can do.
Source: `main.c`, `aesd_write`
Kind: P -/
theorem vfsWrite_outcome (hrep : Represents K dev) (env : WriteEnv) (buf : List UInt8) (fPos : ℤ) :
    WriteOutcome K env (buf.take K.maxRwCount) fPos dev (vfsWrite K env buf fPos dev) :=
  aesdWrite_outcome hrep (by rw [List.length_take]; omega) fPos

/-- A write through the kernel leaves a device that represents records.
Source: `main.c`, `aesd_write`
Kind: L -/
theorem vfsWrite_represents (hrep : Represents K dev) (fPos : ℤ) :
    Represents K (vfsWrite K env buf fPos dev).2.2 := by
  have hout := vfsWrite_outcome hrep env buf fPos
  generalize vfsWrite K env buf fPos dev = r at hout ⊢
  cases hout with
  | refused _ hrep' => exact hrep'
  | dropped _ _ _ _ hrep' => exact hrep'
  | accepted _ _ _ _ hrep' => exact hrep'

end write

/-! ### Every run -/

/-- One call keeps the representation.
Source: `main.c`, `aesd_write`
Kind: L -/
theorem DriverState.exec_represents {K : KernelLimits} {s : DriverState}
    (hrep : Represents K s.dev) (op : DriverOp) : Represents K (s.exec K op).dev := by
  cases op with
  | openFile file => exact hrep
  | write file env buf => exact vfsWrite_represents hrep _
  | read file env count => exact hrep
  | ioctl file env cmd => exact hrep
  | llseek file interrupted offset whence => exact hrep

/-- **Every reachable state of the driver represents**, whatever was called and however the kernel
answered.
Source: none: infrastructure
Kind: P -/
theorem represents_driverRun (K : KernelLimits) (ops : List DriverOp) :
    Represents K (driverRun K ops).dev := by
  induction ops using List.reverseRecOn with
  | nil => exact represents_init K
  | append_singleton ops op ih =>
      rw [driverRun_append_singleton]
      exact DriverState.exec_represents ih op

end Aesd.Driver
