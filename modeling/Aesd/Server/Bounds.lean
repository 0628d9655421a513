import Aesd.Server.Buffer

/-!
# The accesses to the receive buffer stay within it

`handle_connection` never stores the capacity of `data_buffer`: it compares `data_len + n` with the
constant `BUFFER_SIZE` and doubles what is needed. That this is enough rests on the invariant
`Handler.Sound` of the buffer, which holds in every reachable state.

* `Handler.copying` — the state in which a step reaches the `memcpy`, with the chunk to be copied;
* `Handler.InBounds` — the copy, the terminator and the string functions stay within the buffer;
* `accesses_inBounds` — they do in every step of every run.
-/

namespace Aesd.Server

open Aesd.Lib Aesd.Driver

/-! ### The accesses of an iteration -/

/-- The state in which a step reaches the `memcpy`, behind a `realloc` if there is one, and the
chunk that is copied; none for a step that does not reach it.
Source: `handler.c`, `handle_connection`, from `recv` to `memcpy`
Kind: D -/
def Handler.copying (h : Handler) (ev : Event) : Option (Handler × List UInt8) :=
  match h.pc, ev with
  | .recv, .recv (some chunk) =>
      if bufferSize ≤ SizeT.add h.dataLen chunk.length then none else some (h, chunk)
  | .grow chunk, .realloc answer junk =>
      match realloc answer junk h.dataBuffer (SizeT.mul 2 (SizeT.add h.dataLen chunk.length))
        h.heap with
      | some (.null, _) | none => none
      | some (p, heap) => some ({ h with dataBuffer := p, heap := heap }, chunk)
  | _, _ => none

/-- What the iteration does with the buffer once it has reached the `memcpy` stays within it.
Source: `handler.c`, `handle_connection`
Kind: D -/
structure Handler.InBounds (h : Handler) (chunk : List UInt8) : Prop where
  /-- The chunk and the terminator behind it fit. -/
  copy : h.dataLen + chunk.length + 1 ≤ h.memory.length
  /-- The terminator stands at this index: the sum does not wrap around. -/
  length : (h.store chunk).dataLen = h.dataLen + chunk.length
  /-- `strncmp` reads the bytes stored and the terminator, and nothing behind it. -/
  compare : strncmpReach seekto.length (h.store chunk).memory seekto ≤ (h.store chunk).dataLen + 1
  /-- So does `sscanf`, which starts behind the text that was recognised. -/
  scan : strncmpEq seekto.length (h.store chunk).memory seekto = true →
    seekto.length + cStringReach ((h.store chunk).memory.drop seekto.length) ≤
      (h.store chunk).dataLen + 1

section bounds

variable {build : Build} {h h' h₁ : Handler} {ev : Event} {chunk : List UInt8}
  {events : List Event}

/-- A chunk for which there is room, with the terminator, is copied within bounds.
Source: `handler.c`, `handle_connection`
Kind: L -/
theorem Handler.Roomy.inBounds (hr : h.Roomy) (ho : h.heap.Owned [h.dataBuffer])
    (hle : chunk.length ≤ 1023) (hroom : h.dataLen + chunk.length < h.memory.length) :
    h.InBounds chunk := by
  have hlen : (h.store chunk).dataLen = h.dataLen + chunk.length := hr.add_length hle
  have hstored : (h.data ++ chunk).length = h.dataLen + chunk.length := by
    rw [List.length_append, hr.length_data]
  have hmem := memory_store_eq ho hr chunk
  refine ⟨hroom, hlen, ?_, ?_⟩
  · rw [hmem, hlen, ← hstored]
    exact strncmpReach_le _ _ _ _
  · intro hseek
    rw [hmem] at hseek ⊢
    have hcompare := strncmpEq_iff_prefix
      (h.memory.drop (h.dataLen + (chunk.length + 1))) seekto (h.data ++ chunk) zero_not_mem_seekto
    have hlong : seekto.length ≤ (h.data ++ chunk).length := (hcompare.mp hseek).length_le
    rw [List.drop_append_of_le_length hlong, hlen, ← hstored]
    have hreach := cStringReach_le ((h.data ++ chunk).drop seekto.length)
      (h.memory.drop (h.dataLen + (chunk.length + 1)))
    rw [List.length_drop] at hreach
    omega

/-! ### Every step of every run -/

/-- Where a step reaches the `memcpy`: at a `recv` of a chunk that fits, and behind a `realloc` that
succeeds.
Source: `handler.c`, `handle_connection`
Kind: L -/
theorem Handler.copying_cases (hcopy : h.copying ev = some (h₁, chunk)) :
    (h.pc = .recv ∧ ev = .recv (some chunk) ∧ SizeT.add h.dataLen chunk.length < 1024 ∧ h₁ = h) ∨
    ∃ answer junk p heap, h.pc = .grow chunk ∧ ev = .realloc answer junk ∧
      realloc answer junk h.dataBuffer (SizeT.mul 2 (SizeT.add h.dataLen chunk.length)) h.heap =
        some (p, heap) ∧ p ≠ .null ∧ h₁ = { h with dataBuffer := p, heap := heap } := by
  unfold Handler.copying at hcopy
  split at hcopy
  · rename_i c hpc
    rw [Option.ite_none_left_eq_some] at hcopy
    obtain ⟨hfits, heq⟩ := hcopy
    cases heq
    exact Or.inl ⟨hpc, rfl, Nat.lt_of_not_le hfits, rfl⟩
  · rename_i c answer junk hpc
    split at hcopy
    · cases hcopy
    · cases hcopy
    · rename_i p heap hnull hre
      cases hcopy
      exact Or.inr ⟨answer, junk, p, heap, hpc, rfl, hre, hnull, rfl⟩
  · cases hcopy

/-- What a step that reaches the `memcpy` leads to.
Source: `handler.c`, `handle_connection`
Kind: L -/
theorem Handler.step_of_copying (hstep : h.step build ev = some h')
    (hcopy : h.copying ev = some (h₁, chunk)) : h' = h₁.accept build chunk := by
  rcases copying_cases hcopy with
    ⟨hpc, rfl, hfits, rfl⟩ | ⟨answer, junk, p, heap, hpc, rfl, hre, hp, rfl⟩
  · simp only [Handler.step, hpc, Option.ite_none_left_eq_some] at hstep
    rw [if_neg (Nat.not_le.mpr hfits)] at hstep
    exact (Option.some.inj hstep.2).symm
  · simp only [Handler.step, hpc, hre, Option.map_some, if_neg hp] at hstep
    exact (Option.some.inj hstep).symm

/-- A step that does not reach the `memcpy` stores nothing more.
Source: `handler.c`, `handle_connection`
Kind: L -/
theorem Handler.dataLen_le_of_copying (hstep : h.Steps build ev h') (hcopy : h.copying ev = none) :
    h'.dataLen ≤ h.dataLen := by
  cases hstep with
  | recvFits hpc hne hle hfits =>
      simp only [Handler.copying, hpc, ite_eq_left_iff, reduceCtorEq, imp_false] at hcopy
      exact absurd hfits (Nat.not_lt.mpr (not_not.mp hcopy))
  | @grows c answer junk p heap hpc hre hp =>
      simp only [Handler.copying, hpc, hre] at hcopy
      cases p with
      | null => exact absurd rfl hp
      | zeroSize => cases hcopy
      | block id => cases hcopy
  | mallocFails hpc => exact Nat.zero_le _
  | mallocs hpc hok => exact Nat.zero_le _
  | resets hpc => exact Nat.zero_le _
  | _ => exact le_rfl

/-- The buffer at the `memcpy` is the one block of the heap, it stores what it did before, and there
is room.
Source: `handler.c`, `handle_connection`
Kind: L -/
theorem Handler.Sound.copying (hs : h.Sound) (hstep : h.step build ev = some h')
    (hcopy : h.copying ev = some (h₁, chunk)) :
    h₁.heap.Owned [h₁.dataBuffer] ∧ h₁.data = h.data ∧ h₁.dataLen = h.dataLen ∧ h₁.Roomy ∧
      h₁.InBounds chunk := by
  rcases copying_cases hcopy with
    ⟨hpc, rfl, hfits, rfl⟩ | ⟨answer, junk, p, heap, hpc, rfl, hre, hp, rfl⟩
  · have hlive : h₁.pc.live = true := by rw [hpc]; rfl
    have ho := hs.owned_of_live hlive
    have hr := hs.roomy hlive
    have hle : chunk.length ≤ 1023 := by
      simp only [Handler.step, hpc, Option.ite_none_left_eq_some, not_or, Nat.not_lt] at hstep
      exact hstep.1.2
    rw [hr.add_length hle] at hfits
    have hroom : h₁.dataLen + chunk.length < h₁.memory.length := hfits.trans_le hr.size
    exact ⟨ho, rfl, rfl, hr, hr.inBounds ho hle hroom⟩
  · obtain ⟨ho₁, hr₁, hdata, hroom, -⟩ := hs.grown hpc hre hp
    exact ⟨ho₁, hdata, rfl, hr₁, hr₁.inBounds ho₁ (hs.growing _ hpc).2.1 hroom⟩

/-- **The accesses to the receive buffer stay within it.** In every run, a step that reaches the
`memcpy` has a buffer with room for the chunk and the terminator, a `realloc` on the way has kept
every byte stored, and the string functions read no more than the bytes stored and the terminator; a
step that does not reach it stores nothing.
Source: `handler.c`, `handle_connection`
Kind: P -/
theorem accesses_inBounds (hrun : handleConnection build events = some h)
    (hstep : h.step build ev = some h') :
    match h.copying ev with
    | none => h'.dataLen ≤ h.dataLen
    | some (h₁, chunk) => h' = h₁.accept build chunk ∧
        (h₁.dataLen = h.dataLen ∧ h.dataLen < h₁.memory.length ∧ h₁.data = h.data) ∧
        h₁.InBounds chunk := by
  cases hcopy : h.copying ev with
  | none => exact Handler.dataLen_le_of_copying (Handler.steps_of_step hstep) hcopy
  | some target =>
      obtain ⟨h₁, chunk⟩ := target
      obtain ⟨-, hdata, hlen, hr, hin⟩ := (sound_of_run hrun).copying hstep hcopy
      refine ⟨Handler.step_of_copying hstep hcopy, ⟨hlen, ?_, hdata⟩, hin⟩
      rw [← hlen]
      exact hr.room

end bounds

/-- All but the last byte of the first buffer are taken, and one more byte comes.
Source: `handler.c`, `handle_connection`
Kind: D -/
def fillBuffer : List Event :=
  [.malloc .inPlace fun _ => 0, .openDevice true, .recv (some (List.replicate 1023 65)),
    .recv (some [66])]

/-- The chunk that would leave no room for the terminator is copied in bounds, behind a
`realloc`.
Source: `handler.c`, `handle_connection`
Kind: N+ -/
theorem accesses_inBounds_full_buffer :
    ∃ h h' h₁, handleConnection .charDevice fillBuffer = some h ∧
      h.step .charDevice (.realloc .inPlace fun _ => 0) = some h' ∧
      h.copying (.realloc .inPlace fun _ => 0) = some (h₁, [66]) ∧ h₁.InBounds [66] := by
  obtain ⟨h, hrun, hcopies⟩ := Option.bind_eq_some_iff.mp
    (show ((handleConnection .charDevice fillBuffer).bind fun h =>
      (h.step .charDevice (.realloc .inPlace fun _ => 0)).bind fun _ =>
        (h.copying (.realloc .inPlace fun _ => 0)).map Prod.snd) = some [66] by decide +kernel)
  obtain ⟨h', hstep, hcopies⟩ := Option.bind_eq_some_iff.mp hcopies
  obtain ⟨⟨h₁, chunk⟩, hcopy, rfl⟩ := Option.map_eq_some_iff.mp hcopies
  have hall := accesses_inBounds hrun hstep
  rw [hcopy] at hall
  exact ⟨h, h', h₁, hrun, hstep, hcopy, hall.2.2⟩

end Aesd.Server
