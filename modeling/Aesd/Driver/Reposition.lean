import Aesd.Driver.Seek

/-!
# Repositioning a file

`aesd_llseek` and `aesd_ioctl` move the position of a file. The size that `aesd_llseek` works with
is the sum over all ten slots in the order of the array; the positions a read understands count the
bytes of the retained entries, oldest first.

* `size_eq_content` — the two agree in every reachable state, so that `SEEK_END` goes exactly to
  where reads begin to deliver nothing;
* `reposition_in_range` — an `aesd_ioctl` or `aesd_llseek` that succeeds leaves the position inside
  the content, or at its end, one that fails leaves it alone, and neither touches the device.
-/

namespace Aesd.Driver

open Aesd.Lib

variable {K : KernelLimits} {dev : AesdDev}

/-! ### The size -/

/-- The loop adds up the sizes of the slots as long as the sum does not wrap around.
Source: none: infrastructure
Kind: L -/
theorem foldl_sizeT_add (f : Fin 10 → ℕ) :
    ∀ (slots : List (Fin 10)) (size : ℕ), size + (slots.map f).sum < SizeT.modulus →
      slots.foldl (fun size index => SizeT.add size (f index)) size = size + (slots.map f).sum
  | [], size, _ => rfl
  | index :: slots, size, hlt => by
      rw [List.map_cons, List.sum_cons, ← Nat.add_assoc] at hlt
      rw [List.foldl_cons, List.map_cons, List.sum_cons, SizeT.add_of_lt (by omega),
        foldl_sizeT_add f slots _ hlt, Nat.add_assoc]

/-- **The size is the length of the content.**
Source: `main.c`, `aesd_circular_buffer_size`
Kind: P -/
theorem Accounted.size_eq (ha : Accounted K dev) :
    aesdCircularBufferSize dev.buffer = dev.content.length := by
  have hsum := ha.sum_slot_sizes
  have hsmall := ha.length_content_lt
  have hlt : 0 + ((List.finRange 10).map fun i => (dev.buffer.entry i).size).sum <
      SizeT.modulus := by
    rw [hsum]
    unfold SizeT.modulus
    omega
  unfold aesdCircularBufferSize aesdCircularBufferForeach
  rw [foldl_sizeT_add (fun i => (dev.buffer.entry i).size) _ 0 hlt, hsum, Nat.zero_add]
  apply loffOfSize_of_lt
  omega

/-- A read at a position inside the content delivers something.
Source: `main.c`, `aesd_read`
Kind: L -/
theorem aesdRead_inside (ha : Accounted K dev) {pos : ℤ} (hnonneg : 0 ≤ pos)
    (hlt : pos < dev.content.length) {count : ℕ} (hcount : 1 ≤ count) :
    ∃ b bytes, (aesdRead .undisturbed count pos dev).1 = .ok (b :: bytes) := by
  obtain ⟨bytes, hread, -, -, hempty⟩ := aesdRead_content ha count pos
  have hsmall := ha.length_content_lt
  have hne : bytes ≠ [] := by
    intro hnil
    have hpast := (hempty.mp hnil).resolve_left (by omega)
    unfold sizeOfLoff at hpast
    omega
  obtain ⟨b, rest, rfl⟩ := List.exists_cons_of_ne_nil hne
  exact ⟨b, rest, by rw [hread]⟩

/-- A read at the end of the content delivers nothing.
Source: `main.c`, `aesd_read`
Kind: L -/
theorem aesdRead_at_end (ha : Accounted K dev) (count : ℕ) :
    aesdRead .undisturbed count dev.content.length dev = (.ok [], (dev.content.length : ℤ)) := by
  obtain ⟨bytes, hread, -, -, hempty⟩ := aesdRead_content ha count dev.content.length
  have hsmall := ha.length_content_lt
  have hnil : bytes = [] := by
    refine hempty.mpr (Or.inr ?_)
    rw [sizeOfLoff_of_nonneg (by omega)]
  rw [hread, hnil, List.length_nil, Nat.cast_zero, add_zero]

/-- **Size and lookup agree.** In every reachable state the size is the length of the content, and
`SEEK_END` with offset zero returns it: a read at any position below it delivers something, a read
at it delivers nothing.
Source: `main.c`, `aesd_circular_buffer_size`, `aesd_llseek` and `aesd_read`
Kind: P -/
theorem size_eq_content (K : KernelLimits) (ops : List DriverOp) (fPos : ℤ) :
    let dev := (driverRun K ops).dev
    aesdCircularBufferSize dev.buffer = dev.content.length ∧
    aesdLlseek false 0 2 fPos dev = (.ok (dev.content.length : ℤ), (dev.content.length : ℤ)) ∧
    (∀ (p count : ℕ), p < dev.content.length → 1 ≤ count →
      ∃ b bytes, (aesdRead .undisturbed count p dev).1 = .ok (b :: bytes)) ∧
    ∀ count, aesdRead .undisturbed count dev.content.length dev =
      (.ok [], (dev.content.length : ℤ)) := by
  intro dev
  have ha : Accounted K dev := (represents_driverRun K ops).toAccounted
  have hsize := ha.size_eq
  refine ⟨hsize, ?_, ?_, fun count => aesdRead_at_end ha count⟩
  · unfold aesdLlseek fixedSizeLlseek vfsSetpos
    rw [if_neg (by decide), if_neg (by decide), if_neg (by decide), if_pos rfl, hsize, zero_add,
      if_neg (by omega)]
  · intro p count hp hcount
    exact aesdRead_inside ha (by omega) (by omega) hcount

/-! ### The range of a position -/

/-- An ioctl either fails and leaves the position, or it is an undisturbed seek.
Source: `main.c`, `aesd_ioctl`
Kind: L -/
theorem aesdIoctl_cases (env : IoctlEnv) (cmd : UInt32) (fPos : ℤ) (dev : AesdDev) :
    (∃ e, aesdIoctl env cmd fPos dev = (.error e, fPos)) ∨
    ∃ seekto, env = ⟨some seekto, false⟩ ∧ cmd = aesdcharIocseekto := by
  unfold aesdIoctl
  by_cases hmagic : iocType cmd ≠ aesdIocMagic
  · rw [if_pos hmagic]
    exact Or.inl ⟨_, rfl⟩
  rw [if_neg hmagic]
  by_cases hnr : iocNr cmd > aesdcharIocMaxnr
  · rw [if_pos hnr]
    exact Or.inl ⟨_, rfl⟩
  rw [if_neg hnr]
  by_cases hcmd : cmd = aesdcharIocseekto
  · rw [if_pos hcmd]
    obtain ⟨arg, interrupted⟩ := env
    cases arg with
    | none => exact Or.inl ⟨_, rfl⟩
    | some seekto =>
        cases interrupted with
        | true => exact Or.inl ⟨_, rfl⟩
        | false => exact Or.inr ⟨seekto, rfl, hcmd⟩
  · rw [if_neg hcmd]
    exact Or.inl ⟨_, rfl⟩

/-- An ioctl fails and leaves the position, or it moves the position inside the content.
Source: `main.c`, `aesd_ioctl`
Kind: L -/
theorem Accounted.ioctl_range (ha : Accounted K dev) (env : IoctlEnv) (cmd : UInt32) (fPos : ℤ) :
    (∃ e, aesdIoctl env cmd fPos dev = (.error e, fPos)) ∨
    ∃ pos : ℤ, aesdIoctl env cmd fPos dev = (.ok (), pos) ∧ 0 ≤ pos ∧ pos < dev.content.length := by
  rcases aesdIoctl_cases env cmd fPos dev with hfail | ⟨seekto, rfl, rfl⟩
  · exact Or.inl hfail
  · rw [aesdIoctl_eq ha]
    split_ifs with hslot
    · right
      obtain ⟨j, hj, -, hin⟩ := hslot
      have hle := bytesBefore_add_size_le ha j
      rw [hj] at hle
      exact ⟨_, rfl, by omega, by omega⟩
    · exact Or.inl ⟨_, rfl⟩

/-- Setting a position either fails and leaves it, or the new one is in range.
Source: `main.c`, `aesd_llseek`
Kind: L -/
theorem vfsSetpos_range (offset maxsize fPos : ℤ) :
    (∃ e, vfsSetpos offset maxsize fPos = (.error e, fPos)) ∨
    (vfsSetpos offset maxsize fPos = (.ok offset, offset) ∧ 0 ≤ offset ∧ offset ≤ maxsize) := by
  unfold vfsSetpos
  split_ifs with hout
  · exact Or.inl ⟨_, rfl⟩
  · rw [not_or] at hout
    exact Or.inr ⟨rfl, by omega, by omega⟩

/-- A seek by `aesd_llseek` fails and leaves the position, or asks for it, or moves it into the range
from the start to the end of the content.
Source: `main.c`, `aesd_llseek`
Kind: L -/
theorem Accounted.llseek_range (ha : Accounted K dev) (interrupted : Bool)
    (offset whence fPos : ℤ) :
    (∃ e, aesdLlseek interrupted offset whence fPos dev = (.error e, fPos)) ∨
    (whence = 1 ∧ offset = 0 ∧ aesdLlseek interrupted offset whence fPos dev = (.ok fPos, fPos)) ∨
    ∃ pos, aesdLlseek interrupted offset whence fPos dev = (.ok pos, pos) ∧ 0 ≤ pos ∧
      pos ≤ dev.content.length := by
  have hset : ∀ target, (∃ e, vfsSetpos target dev.content.length fPos = (.error e, fPos)) ∨
      ∃ pos, vfsSetpos target dev.content.length fPos = (.ok pos, pos) ∧ 0 ≤ pos ∧
        pos ≤ dev.content.length := by
    intro target
    rcases vfsSetpos_range target dev.content.length fPos with hfail | hok
    · exact Or.inl hfail
    · exact Or.inr ⟨target, hok⟩
  unfold aesdLlseek fixedSizeLlseek
  rw [ha.size_eq]
  split_ifs with hint hstart hcur hzero hlast
  · exact Or.inl ⟨_, rfl⟩
  · exact (hset offset).imp id Or.inr
  · exact Or.inr (Or.inl ⟨hcur, hzero, rfl⟩)
  · exact (hset (fPos + offset)).imp id Or.inr
  · exact (hset (offset + dev.content.length)).imp id Or.inr
  · exact Or.inl ⟨_, rfl⟩

/-- **Repositioning stays in range and has no side effect.** In every reachable state, from every
position and with any arguments: an ioctl that succeeds leaves the position inside the content, so
that the next read delivers something; an `llseek` that succeeds, other than one that only asks for
the position, leaves it between the start and the end of the content; either of them leaves the
position when it fails; and neither changes the device.
Source: `main.c`, `aesd_ioctl` and `aesd_llseek`
Kind: P -/
theorem reposition_in_range (K : KernelLimits) (ops : List DriverOp) (fPos : ℕ → ℤ) (file : ℕ) :
    let dev := (driverRun K ops).dev
    let s : DriverState := ⟨dev, fPos⟩
    (∀ (env : IoctlEnv) (cmd : UInt32),
      let result := (aesdIoctl env cmd (fPos file) dev).1
      let s' := s.exec K (.ioctl file env cmd)
      (result = .ok () → 0 ≤ s'.fPos file ∧ s'.fPos file < dev.content.length ∧
        ∀ count, 1 ≤ count →
          ∃ b bytes, (aesdRead .undisturbed count (s'.fPos file) dev).1 = .ok (b :: bytes)) ∧
      (result ≠ .ok () → s'.fPos = fPos) ∧ s'.dev = dev) ∧
    ∀ (interrupted : Bool) (offset whence : ℤ),
      let result := (aesdLlseek interrupted offset whence (fPos file) dev).1
      let s' := s.exec K (.llseek file interrupted offset whence)
      (result.isOk = true → ¬ (whence = 1 ∧ offset = 0) →
        0 ≤ s'.fPos file ∧ s'.fPos file ≤ dev.content.length) ∧
      (result.isOk = false → s'.fPos = fPos) ∧ s'.dev = dev := by
  intro dev s
  have ha : Accounted K dev := (represents_driverRun K ops).toAccounted
  constructor
  · intro env cmd
    simp only [DriverState.exec, Function.update_self, s]
    rcases ha.ioctl_range env cmd (fPos file) with ⟨e, hfail⟩ | ⟨pos, hok, hnonneg, hlt⟩
    · rw [hfail]
      refine ⟨fun h => ?_, fun _ => Function.update_eq_self file fPos, trivial⟩
      cases h
    · rw [hok]
      refine ⟨fun _ => ⟨hnonneg, hlt, fun count hcount => ?_⟩, fun h => absurd rfl h, trivial⟩
      exact aesdRead_inside ha hnonneg hlt hcount
  · intro interrupted offset whence
    simp only [DriverState.exec, Function.update_self, s]
    rcases ha.llseek_range interrupted offset whence (fPos file) with
      ⟨e, hfail⟩ | ⟨hcur, hzero, hask⟩ | ⟨pos, hok, hnonneg, hle⟩
    · rw [hfail]
      refine ⟨fun h => ?_, fun _ => Function.update_eq_self file fPos, trivial⟩
      cases h
    · rw [hask]
      refine ⟨fun _ hother => absurd ⟨hcur, hzero⟩ hother, fun h => ?_, trivial⟩
      cases h
    · rw [hok]
      refine ⟨fun _ _ => ⟨hnonneg, hle⟩, fun h => ?_, trivial⟩
      cases h

end Aesd.Driver
