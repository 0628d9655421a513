import Aesd.Server.Handler
import Aesd.Driver.Represent

/-!
# The receive buffer

`data_buffer` is a block of at least `BUFFER_SIZE` bytes that always has room for the terminator
behind the bytes stored, and the handler's heap holds no other block. This is an invariant of every
step, whatever the calls return (`Handler.step_sound`, `sound_of_run`); with it, storing a chunk is
appending it to the bytes stored (`Handler.data_store`), and the string functions see the bytes
stored and nothing else (`Handler.dispatch_eq`).
-/

namespace Aesd.Server

open Aesd.Lib Aesd.Driver

/-! ### The invariant -/

/-- The buffer is in use at these places.
Source: `handler.c`, `handle_connection` and `write_to_client`
Kind: D -/
def Pc.live : Pc → Bool
  | .openDevice | .recv | .grow _ | .ioctl _ | .lock | .append _ | .unlock _ | .reset _
  | .reply _ _ => true
  | _ => false

/-- At these places `data_buffer` is still to be freed, or null.
Source: `handler.c`, `handle_connection`
Kind: D -/
def Pc.owning : Pc → Bool
  | .closeDevice | .freeLast | .abortFree => true
  | .abortClose allocated => allocated
  | pc => pc.live

/-- The buffer is being replaced at these places.
Source: `handler.c`, `handle_connection`
Kind: D -/
def Pc.resizing : Pc → Bool
  | .grow _ | .remalloc _ => true
  | _ => false

/-- The code may go from one place to the other with the buffer left alone.
Source: `handler.c`, `handle_connection`
Kind: D -/
def Pc.passes (pc pc' : Pc) : Bool :=
  pc'.owning == pc.owning && (pc.live || !pc'.live) && !pc'.resizing

/-- The buffer has its minimal size, and room for the terminator behind the bytes stored.
Source: `handler.c`, `handle_connection`
Kind: D -/
structure Handler.Roomy (h : Handler) : Prop where
  size : 1024 ≤ h.memory.length
  room : h.dataLen < h.memory.length
  small : h.dataLen < 2 ^ 62

/-- The buffer is in order.
Source: `handler.c`, `handle_connection`
Kind: D -/
structure Handler.Sound (h : Handler) : Prop where
  /-- It is the one block of the heap. -/
  owned : h.heap.Owned (if h.pc.owning then [h.dataBuffer] else [])
  roomy : h.pc.live = true → h.Roomy
  /-- The buffer is made to grow for a chunk that fills it. -/
  growing : ∀ chunk, h.pc = .grow chunk →
    chunk ≠ [] ∧ chunk.length ≤ 1023 ∧ 1024 ≤ h.dataLen + chunk.length
  /-- A buffer that is being replaced stores nothing. -/
  emptied : ∀ site, h.pc = .remalloc site → h.dataLen = 0

section buffer

variable {build : Build} {h h' : Handler} {ev : Event} {chunk : List UInt8}

/-- The buffer is a block of its own.
Source: `handler.c`, `handle_connection`
Kind: L -/
theorem Handler.Roomy.exists_block (hr : h.Roomy) : ∃ id, h.dataBuffer = .block id := by
  have hpos : 0 < h.memory.length := lt_of_lt_of_le (by decide) hr.size
  unfold Handler.memory at hpos
  cases hp : h.dataBuffer with
  | block id => exact ⟨id, rfl⟩
  | null => rw [hp] at hpos; exact absurd hpos (Nat.lt_irrefl 0)
  | zeroSize => rw [hp] at hpos; exact absurd hpos (Nat.lt_irrefl 0)

/-- The data has the length that the code counts.
Source: `handler.c`, `handle_connection`
Kind: L -/
theorem Handler.Roomy.length_data (hr : h.Roomy) : h.data.length = h.dataLen := by
  rw [Handler.data, List.length_take]
  exact Nat.min_eq_left hr.room.le

/-- The length of the bytes stored does not wrap around.
Source: `handler.c`, `handle_connection`
Kind: L -/
theorem Handler.Roomy.add_length (hr : h.Roomy) (hle : chunk.length ≤ 1023) :
    SizeT.add h.dataLen chunk.length = h.dataLen + chunk.length := by
  apply SizeT.add_of_lt
  have := hr.small
  unfold SizeT.modulus
  omega

/-! ### Storing a chunk -/

/-- A chunk and its NUL are written behind the data.
Source: `handler.c`, `handle_connection`
Kind: L -/
theorem Handler.memory_store (ho : h.heap.Owned [h.dataBuffer]) (hr : h.Roomy)
    (chunk : List UInt8) :
    (h.store chunk).memory = patch h.memory h.dataLen (chunk ++ [0]) := by
  obtain ⟨id, hid⟩ := hr.exists_block
  change (h.heap.put h.dataBuffer _).load h.dataBuffer = _
  rw [hid] at ho ⊢
  exact ho.load_put_self

/-- The memory after a chunk was stored in room for it and the terminator.
Source: `handler.c`, `handle_connection`
Kind: L -/
theorem Handler.memory_store_eq (ho : h.heap.Owned [h.dataBuffer]) (hr : h.Roomy)
    (chunk : List UInt8) :
    (h.store chunk).memory =
      (h.data ++ chunk) ++ 0 :: h.memory.drop (h.dataLen + (chunk.length + 1)) := by
  rw [memory_store ho hr chunk, patch, List.length_append, List.length_singleton]
  simp [Handler.data]

/-- Storing a chunk appends it to the bytes stored.
Source: `handler.c`, `handle_connection`
Kind: L -/
theorem Handler.data_store (ho : h.heap.Owned [h.dataBuffer]) (hr : h.Roomy)
    (hle : chunk.length ≤ 1023) : (h.store chunk).data = h.data ++ chunk := by
  have hlen : (h.store chunk).dataLen = (h.data ++ chunk).length := by
    rw [List.length_append, hr.length_data]
    exact hr.add_length hle
  rw [Handler.data, hlen, memory_store_eq ho hr chunk, List.take_left]

/-- A chunk that fits leaves a buffer with its room.
Source: `handler.c`, `handle_connection`
Kind: L -/
theorem Handler.roomy_store (ho : h.heap.Owned [h.dataBuffer]) (hr : h.Roomy)
    (hle : chunk.length ≤ 1023) (hroom : h.dataLen + chunk.length < h.memory.length)
    (hsmall : h.dataLen + chunk.length < 2 ^ 62) : (h.store chunk).Roomy := by
  have hmem : (h.store chunk).memory.length = h.memory.length := by
    rw [memory_store_eq ho hr chunk]
    simp only [List.length_append, List.length_cons, List.length_drop, hr.length_data]
    omega
  have hlen : (h.store chunk).dataLen = h.dataLen + chunk.length := hr.add_length hle
  exact ⟨hmem ▸ hr.size, by rw [hlen, hmem]; exact hroom, by rw [hlen]; exact hsmall⟩

/-- What the bytes stored ask for: the string functions see all of them and nothing else.
Source: `handler.c`, `handle_connection`
Kind: L -/
theorem Handler.dispatch_eq {junk : List UInt8} (hmem : h.memory = h.data ++ 0 :: junk) :
    h.dispatch build =
      if seekto <+: h.data then seekBranch (seekRequest (h.data.drop 19))
      else if newline ∈ h.data then packetBranch build
      else .recv := by
  have hcompare := strncmpEq_iff_prefix junk seekto h.data zero_not_mem_seekto
  rw [← hmem] at hcompare
  unfold Handler.dispatch
  by_cases hseek : seekto <+: h.data
  · have hlen : seekto.length ≤ h.data.length := hseek.length_le
    have hargs : seekRequest (h.memory.drop seekto.length) = seekRequest (h.data.drop 19) := by
      rw [hmem, List.drop_append_of_le_length hlen]
      unfold seekRequest
      rw [cString_append_nul]
      rfl
    rw [if_pos (hcompare.mpr hseek), if_pos hseek, hargs]
  · rw [if_neg (mt hcompare.mp hseek), if_neg hseek]

/-- A stored chunk leads to a place with the buffer, and not to another growth.
Source: `handler.c`, `handle_connection`
Kind: L -/
theorem Handler.live_dispatch (h : Handler) (build : Build) :
    (h.dispatch build).live = true ∧ ∀ chunk, h.dispatch build ≠ .grow chunk := by
  rcases h.dispatch_cases build with ⟨request, hpc⟩ | hpc | ⟨-, hpc⟩ | hpc
  · simp [hpc, Pc.live]
  · simp [hpc, Pc.live]
  · cases build <;> simp [hpc, packetBranch, Pc.live]
  · simp [hpc, Pc.live]

/-! ### The allocator -/

/-- A `realloc` that succeeds was within the bound, and grants a block with the old contents.
Source: `handler.c`, `handle_connection`
Kind: L -/
theorem realloc_granted {answer : AllocAnswer} {junk : ℕ → UInt8} {p q : Ptr} {n : ℕ}
    {heap heap' : Heap UInt8} (ho : heap.Owned [p])
    (hre : realloc answer junk p n heap = some (q, heap')) (hq : q ≠ .null) :
    n ≤ ptrdiffMax ∧ Granted heap heap' q (resize (heap.load p) n junk) [] := by
  unfold realloc at hre
  by_cases hzero : n = 0
  · rw [if_pos hzero] at hre
    cases hre
    exact absurd rfl hq
  · rw [if_neg hzero] at hre
    by_cases hfail : answer = .fail
    · rw [if_pos hfail] at hre
      cases hre
      exact absurd rfl hq
    · rw [if_neg hfail, Option.ite_none_left_eq_some, Option.some.injEq] at hre
      have hg := regrow_granted answer junk ho hzero
      rw [hre.2] at hg
      exact ⟨Nat.le_of_not_lt hre.1, hg⟩

/-- Only a failed answer is null.
Source: `handler.c`, `handle_connection`
Kind: L -/
theorem realloc_ne_null {answer : AllocAnswer} {junk : ℕ → UInt8} {p q : Ptr} {n : ℕ}
    {heap heap' : Heap UInt8} (hn : n ≠ 0) (hok : answer ≠ .fail) (ho : heap.Owned [p])
    (hre : realloc answer junk p n heap = some (q, heap')) : q ≠ .null := by
  unfold realloc at hre
  rw [if_neg hn, if_neg hok, Option.ite_none_left_eq_some, Option.some.injEq] at hre
  have hg := regrow_granted answer junk ho hn
  rw [hre.2] at hg
  exact hg.ne_null

/-- A `realloc` that fails leaves the block.
Source: `handler.c`, `handle_connection`
Kind: L -/
theorem realloc_null {answer : AllocAnswer} {junk : ℕ → UInt8} {p : Ptr} {n : ℕ}
    {heap heap' : Heap UInt8} (hn : n ≠ 0) (ho : heap.Owned [p])
    (hre : realloc answer junk p n heap = some (.null, heap')) : heap' = heap := by
  by_cases hfail : answer = .fail
  · unfold realloc at hre
    rw [if_neg hn, if_pos hfail] at hre
    cases hre
    rfl
  · exact absurd rfl (realloc_ne_null hn hfail ho hre)

/-! ### Every step keeps the buffer in order -/

/-- Where the buffer is used, it is owned.
Source: `handler.c`, `handle_connection`
Kind: L -/
theorem Pc.owning_of_live {pc : Pc} (hlive : pc.live = true) : pc.owning = true := by
  cases pc <;> first | rfl | cases hlive

/-- Where the buffer is used, it is the only block of the handler.
Source: `handler.c`, `handle_connection`
Kind: L -/
theorem Handler.Sound.owned_of_live (hs : h.Sound) (hlive : h.pc.live = true) :
    h.heap.Owned [h.dataBuffer] := by
  have ho := hs.owned
  rw [if_pos (Pc.owning_of_live hlive)] at ho
  exact ho

/-- A step to another place with the buffer left alone.
Source: `handler.c`, `handle_connection`
Kind: L -/
theorem Handler.Sound.setPc (hs : h.Sound) {pc pc' : Pc} (hpc : h.pc = pc)
    (hpass : pc.passes pc' = true) : Handler.Sound { h with pc := pc' } := by
  subst hpc
  simp only [Pc.passes, Bool.and_eq_true, beq_iff_eq, Bool.or_eq_true, Bool.not_eq_true'] at hpass
  obtain ⟨⟨hown, hlive⟩, hsize⟩ := hpass
  refine ⟨?_, ?_, ?_, ?_⟩
  · rw [hown]
    exact hs.owned
  · intro hl
    have hr := hs.roomy (hlive.resolve_right fun hdead => by rw [hdead] at hl; cases hl)
    exact ⟨hr.size, hr.room, hr.small⟩
  · rintro chunk rfl
    cases hsize
  · rintro site rfl
    cases hsize

/-- A freed buffer that is not replaced.
Source: `handler.c`, `handle_connection`
Kind: L -/
theorem Handler.Sound.setFreed (hs : h.Sound) {pc : Pc} {n : ℕ} (hown : h.pc.owning = true)
    (hfreed : pc.owning = false) (hzero : ∀ site, pc = .remalloc site → n = 0) :
    Handler.Sound { h with heap := h.heap.free h.dataBuffer, dataLen := n, pc := pc } := by
  have ho := hs.owned
  rw [if_pos hown] at ho
  have hlive : pc.live ≠ true := fun hl => by rw [Pc.owning_of_live hl] at hfreed; cases hfreed
  refine ⟨?_, fun hl => absurd hl hlive, ?_, hzero⟩
  · rw [hfreed]
    exact ho.free
  · rintro chunk rfl
    cases hfreed

/-- A buffer as `malloc` gives it.
Source: `handler.c`, `handle_connection`
Kind: L -/
theorem Handler.sound_fresh {heap : Heap UInt8} (ho : heap.Owned []) (junk : ℕ → UInt8) {pc : Pc}
    (hlive : pc.live = true) (hsize : pc.resizing = false) :
    Handler.Sound ⟨pc, .block heap.next, 0, heap.fresh ((List.range bufferSize).map junk)⟩ where
  owned := by
    rw [if_pos (Pc.owning_of_live hlive)]
    exact ho.fresh _
  roomy _ := by
    have hmem : (heap.fresh ((List.range bufferSize).map junk)).load (.block heap.next) =
        (List.range bufferSize).map junk := Heap.load_fresh_self _ _
    have hlen : ((heap.fresh ((List.range bufferSize).map junk)).load (.block heap.next)).length =
        1024 := by rw [hmem, List.length_map, List.length_range]
    have hpos : 0 < 1024 := by decide
    exact ⟨hlen.ge, lt_of_lt_of_eq hpos hlen.symm, Nat.two_pow_pos 62⟩
  growing := by
    rintro chunk rfl
    cases hsize
  emptied _ _ := rfl

/-- A chunk for which there is room is accepted.
Source: `handler.c`, `handle_connection`
Kind: L -/
theorem Handler.sound_accept (ho : h.heap.Owned [h.dataBuffer]) (hr : h.Roomy)
    (hle : chunk.length ≤ 1023) (hroom : h.dataLen + chunk.length < h.memory.length)
    (hsmall : h.dataLen + chunk.length < 2 ^ 62) : (h.accept build chunk).Sound := by
  obtain ⟨hlive, hgrow⟩ := (h.store chunk).live_dispatch build
  have hr' := roomy_store ho hr hle hroom hsmall
  refine ⟨?_, fun _ => ⟨hr'.size, hr'.room, hr'.small⟩, fun c hpc => absurd hpc (hgrow c), ?_⟩
  · change (h.heap.put h.dataBuffer _).Owned
      (if ((h.store chunk).dispatch build).owning then [h.dataBuffer] else [])
    rw [if_pos (Pc.owning_of_live hlive)]
    exact ho.put _ _
  · intro site hpc
    change (h.store chunk).dispatch build = .remalloc site at hpc
    rw [hpc] at hlive
    cases hlive

/-- The size asked for does not wrap around.
Source: `handler.c`, `handle_connection`
Kind: L -/
theorem Handler.Sound.newSize_eq (hs : h.Sound) (hpc : h.pc = .grow chunk) :
    SizeT.mul 2 (SizeT.add h.dataLen chunk.length) = 2 * (h.dataLen + chunk.length) := by
  have hr := hs.roomy (by rw [hpc]; rfl)
  have hle := (hs.growing chunk hpc).2.1
  rw [hr.add_length hle]
  apply SizeT.mul_of_lt
  have := hr.small
  unfold SizeT.modulus
  omega

/-- The size to grow to is not zero.
Source: `handler.c`, `handle_connection`
Kind: L -/
theorem Handler.Sound.newSize_ne_zero (hs : h.Sound) (hpc : h.pc = .grow chunk) :
    SizeT.mul 2 (SizeT.add h.dataLen chunk.length) ≠ 0 := by
  have := (hs.growing chunk hpc).2.2
  rw [hs.newSize_eq hpc]
  omega

/-- The buffer a successful `realloc` leaves: roomy, with the same bytes stored, and with room for
the chunk it was made to grow for.
Source: `handler.c`, `handle_connection`
Kind: L -/
theorem Handler.Sound.grown (hs : h.Sound) (hpc : h.pc = .grow chunk) {answer : AllocAnswer}
    {junk : ℕ → UInt8} {p : Ptr} {heap : Heap UInt8}
    (hre : realloc answer junk h.dataBuffer (SizeT.mul 2 (SizeT.add h.dataLen chunk.length))
      h.heap = some (p, heap)) (hp : p ≠ .null) :
    let h₁ : Handler := { h with dataBuffer := p, heap := heap }
    h₁.heap.Owned [h₁.dataBuffer] ∧ h₁.Roomy ∧ h₁.data = h.data ∧
      h₁.dataLen + chunk.length < h₁.memory.length ∧ h₁.dataLen + chunk.length < 2 ^ 62 := by
  intro h₁
  have hlive : h.pc.live = true := by rw [hpc]; rfl
  have hr := hs.roomy hlive
  obtain ⟨-, hle, hlarge⟩ := hs.growing chunk hpc
  rw [hs.newSize_eq hpc] at hre
  obtain ⟨hmax, hg⟩ := realloc_granted (hs.owned_of_live hlive) hre hp
  have hmem : h₁.memory = resize h.memory (2 * (h.dataLen + chunk.length)) junk := hg.load_eq
  have hlen : h₁.memory.length = 2 * (h.dataLen + chunk.length) := by rw [hmem, resize_length]
  have hsmall : h.dataLen + chunk.length < 2 ^ 62 := by
    unfold ptrdiffMax at hmax
    omega
  have hroom : h.dataLen + chunk.length < h₁.memory.length := by omega
  have hdata : h₁.data = h.data := by
    change h₁.memory.take h.dataLen = h.memory.take h.dataLen
    rw [hmem, resize, List.take_append_of_le_length, List.take_take]
    · rw [Nat.min_eq_left (by omega)]
    · rw [List.length_take]
      have := hr.room
      omega
  refine ⟨hg.owned, ⟨by omega, ?_, hr.small⟩, hdata, hroom, hsmall⟩
  exact lt_of_le_of_lt (Nat.le_add_right _ _) hroom

/-- **Every step keeps the buffer in order**, whatever the calls return.
Source: `handler.c`, `handle_connection`
Kind: P -/
theorem Handler.step_sound (hs : h.Sound) (hstep : h.Steps build ev h') : h'.Sound := by
  have ho := hs.owned
  cases hstep with
  | mallocFails hpc =>
      rw [hpc] at ho
      exact ⟨ho, by simp [Pc.live], by simp, by simp⟩
  | mallocs hpc hok =>
      rw [hpc] at ho
      exact sound_fresh ho _ rfl rfl
  | @opens ok hpc => cases ok <;> exact hs.setPc hpc rfl
  | recvEnds hpc => exact hs.setPc hpc rfl
  | @recvGrows chunk hpc hne hle hlarge =>
      have hr := hs.roomy (by rw [hpc]; rfl)
      rw [hr.add_length hle] at hlarge
      rw [hpc] at ho
      refine ⟨ho, fun _ => ⟨hr.size, hr.room, hr.small⟩, ?_, by simp⟩
      rintro c ⟨rfl⟩
      exact ⟨hne, hle, hlarge⟩
  | @recvFits chunk hpc hne hle hfits =>
      have hr := hs.roomy (by rw [hpc]; rfl)
      rw [hr.add_length hle] at hfits
      have hroom : h.dataLen + chunk.length < h.memory.length := hfits.trans_le hr.size
      exact sound_accept (hs.owned_of_live (by rw [hpc]; rfl)) hr hle hroom (by omega)
  | @growFails chunk answer junk heap hpc hre =>
      have hlive : h.pc.live = true := by rw [hpc]; rfl
      rw [realloc_null (hs.newSize_ne_zero hpc) (hs.owned_of_live hlive) hre]
      exact hs.setPc hpc rfl
  | grows hpc hre hp =>
      obtain ⟨ho₁, hr₁, -, hroom, hsmall⟩ := hs.grown hpc hre hp
      exact sound_accept ho₁ hr₁ (hs.growing _ hpc).2.1 hroom hsmall
  | @ioctls request ok hpc => cases ok <;> exact hs.setPc hpc rfl
  | locks hpc => exact hs.setPc hpc rfl
  | appends hpc _ => exact hs.setPc hpc rfl
  | @appendReturns ok hpc => cases build <;> cases ok <;> exact hs.setPc hpc rfl
  | @unlocks ok hpc => cases ok <;> exact hs.setPc hpc rfl
  | resets hpc => exact hs.setFreed (by rw [hpc]; rfl) rfl fun _ _ => rfl
  | remallocFails hpc =>
      rw [hpc] at ho
      exact ⟨ho.of_ids_eq rfl, by simp [Pc.live], by simp, by simp⟩
  | @remallocs site answer junk hpc hok =>
      rw [hpc] at ho
      rw [hs.emptied site hpc]
      cases site <;> exact sound_fresh ho _ rfl rfl
  | replies hpc _ => exact hs.setPc hpc rfl
  | @replyReturns site ok hpc => cases ok <;> cases site <;> exact hs.setPc hpc rfl
  | closesDevice hpc => exact hs.setPc hpc rfl
  | freesLast hpc => exact hs.setFreed (by rw [hpc]; rfl) rfl (by simp)
  | closesClient hpc => exact hs.setPc hpc rfl
  | @abortCloses allocated hpc => cases allocated <;> exact hs.setPc hpc rfl
  | abortFrees hpc => exact hs.setFreed (by rw [hpc]; rfl) rfl (by simp)
  | setsDone hpc => exact hs.setPc hpc rfl

/-- At the start the handler has no memory.
Source: `handler.c`, `handle_connection`
Kind: L -/
theorem Handler.sound_start : Handler.start.Sound :=
  ⟨Heap.Owned.of_empty, by simp [Handler.start, Pc.live], by simp [Handler.start],
    by simp [Handler.start]⟩

/-- The memory is sound along every run.
Source: `handler.c`, `handle_connection`
Kind: L -/
theorem Handler.sound_run (hs : h.Sound) {events : List Event}
    (hrun : run (Handler.step build) h events = some h') : h'.Sound := by
  refine run_induction (P := fun _ h => h.Sound) hs ?_ hrun
  intro events t ev t' _ ht hstep
  exact step_sound ht (steps_of_step hstep)

/-- **The buffer is in order in every reachable state.**
Source: none: infrastructure
Kind: P -/
theorem sound_of_run {events : List Event} (hrun : handleConnection build events = some h) :
    h.Sound := Handler.sound_run Handler.sound_start hrun

end buffer

end Aesd.Server
