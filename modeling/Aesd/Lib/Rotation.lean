import Mathlib.Data.List.DropRight
import Mathlib.Data.List.Nodup
import Mathlib.Data.Nat.ModEq
import Mathlib.Logic.Function.Basic
import Mathlib.Tactic.Common

/-!
# A bounded log kept in a rotating array

A log of values is kept in `N` slots by writing the next value at a rotating index: the array
holds the last `min n N` of the `n` values ever logged. `RingLog blank slot inOffs outOffs full log`
says that the array `slot`, with the write index `inOffs`, the read index `outOffs` and the flag
`full`, is the one reached by logging `log` into an array of `blank`s.

* `RingLog.init`, `RingLog.push` — the relation holds initially and is kept by one more value,
  through the not-full, becoming-full and overwriting phases;
* `RingLog.walk_eq` — walking the occupied slots from `outOffs` reads the retained part of the
  log, oldest first;
* `RingLog.oldest` — the slot about to be overwritten holds the oldest retained value.
-/

namespace Aesd.Lib

/-- The index `k` places after `i` on a circle of `N` slots.
Source: none: infrastructure
Kind: D -/
def rotate {N : ℕ} (i : Fin N) (k : ℕ) : Fin N := ⟨(i.val + k) % N, Nat.mod_lt _ i.pos⟩

/-- The place after `k` steps, as a number.
Source: none: infrastructure
Kind: L -/
@[simp] theorem rotate_val {N : ℕ} (i : Fin N) (k : ℕ) : (rotate i k).val = (i.val + k) % N := rfl

/-- No step.
Source: none: infrastructure
Kind: L -/
@[simp] theorem rotate_zero {N : ℕ} (i : Fin N) : rotate i 0 = i :=
  Fin.ext (by simp [Nat.mod_eq_of_lt i.isLt])

/-- Steps add up.
Source: none: infrastructure
Kind: L -/
theorem rotate_rotate {N : ℕ} (i : Fin N) (k l : ℕ) : rotate (rotate i k) l = rotate i (k + l) :=
  Fin.ext (by simp [Nat.add_assoc])

/-- A whole turn comes back to the start.
Source: none: infrastructure
Kind: L -/
@[simp] theorem rotate_self {N : ℕ} (i : Fin N) : rotate i N = i :=
  Fin.ext (by simp [Nat.mod_eq_of_lt i.isLt])

/-- Two indices less than a turn apart are different slots.
Source: none: infrastructure
Kind: L -/
theorem mod_ne_mod_of_lt {N a b : ℕ} (hab : a < b) (hb : b < a + N) : a % N ≠ b % N := by
  intro h
  have hdvd : N ∣ b - a := (Nat.modEq_iff_dvd' hab.le).mp h
  have hzero : b - a = 0 := Nat.eq_zero_of_dvd_of_lt hdvd (by omega)
  omega

/-- Within a turn the places are different.
Source: none: infrastructure
Kind: L -/
theorem rotate_ne_rotate {N k l : ℕ} (i : Fin N) (hkl : k < l) (hl : l < k + N) :
    rotate i k ≠ rotate i l := fun h =>
  mod_ne_mod_of_lt (N := N) (a := i.val + k) (b := i.val + l) (by omega) (by omega)
    (congrArg Fin.val h)

/-- Each slot is a unique number of places, less than a turn, after a given one.
Source: none: infrastructure
Kind: L -/
theorem exists_rotate_eq {N : ℕ} (i j : Fin N) : ∃ k < N, rotate i k = j := by
  have hi := i.isLt
  have hj := j.isLt
  refine ⟨(j.val + (N - i.val)) % N, Nat.mod_lt _ i.pos, Fin.ext ?_⟩
  rw [rotate_val, Nat.add_mod_mod, show i.val + (j.val + (N - i.val)) = j.val + N by omega,
    Nat.add_mod_right, Nat.mod_eq_of_lt hj]

/-- The values met on a walk of `c` slots from `start`.
Source: none: infrastructure
Kind: D -/
def walk {α : Type*} {N : ℕ} (slot : Fin N → α) (start : Fin N) (c : ℕ) : List α :=
  (List.range c).map fun k => slot (rotate start k)

/-- A walk passes as many slots as it has steps.
Source: none: infrastructure
Kind: L -/
@[simp] theorem walk_length {α : Type*} {N : ℕ} (slot : Fin N → α) (start : Fin N) (c : ℕ) :
    (walk slot start c).length = c := by simp [walk]

/-- The slot after `k` steps of a walk.
Source: none: infrastructure
Kind: L -/
@[simp] theorem walk_getElem {α : Type*} {N : ℕ} (slot : Fin N → α) (start : Fin N) (c k : ℕ)
    (hk : k < (walk slot start c).length) :
    (walk slot start c)[k] = slot (rotate start k) := by simp [walk]

/-- A walk passes its first slot, and goes on from the next.
Source: none: infrastructure
Kind: L -/
theorem walk_succ {α : Type*} {N : ℕ} (slot : Fin N → α) (start : Fin N) (c : ℕ) :
    walk slot start (c + 1) = slot start :: walk slot (rotate start 1) c := by
  simp only [walk, List.range_succ_eq_map, List.map_cons, List.map_map, rotate_zero]
  refine congrArg _ (List.map_congr_left fun k _ => ?_)
  simp only [Function.comp_apply, rotate_rotate, Nat.add_comm 1 k, Nat.succ_eq_add_one]

/-- A walk goes on where its first part ends.
Source: none: infrastructure
Kind: L -/
theorem walk_add {α : Type*} {N : ℕ} (slot : Fin N → α) (start : Fin N) (a b : ℕ) :
    walk slot start (a + b) = walk slot start a ++ walk slot (rotate start a) b := by
  simp only [walk, List.range_add, List.map_append, List.map_map]
  refine congrArg _ (List.map_congr_left fun k _ => ?_)
  simp only [Function.comp_apply, rotate_rotate]

/-- A walk of a whole turn meets every slot: it is a permutation of the array in index order.
Source: none: infrastructure
Kind: L -/
theorem walk_turn_perm {α : Type*} {N : ℕ} (slot : Fin N → α) (start : Fin N) :
    (walk slot start N).Perm ((List.finRange N).map slot) := by
  have hwalk : walk slot start N = ((List.range N).map fun k => rotate start k).map slot := by
    simp [walk]
  rw [hwalk]
  apply List.Perm.map slot
  rw [List.perm_ext_iff_of_nodup _ (List.nodup_finRange N)]
  · intro j
    obtain ⟨k, hk, hj⟩ := exists_rotate_eq start j
    exact ⟨fun _ => List.mem_finRange j, fun _ => List.mem_map.mpr ⟨k, List.mem_range.mpr hk, hj⟩⟩
  · refine List.Nodup.map_on ?_ List.nodup_range
    intro k hk l hl h
    rw [List.mem_range] at hk hl
    rcases lt_trichotomy k l with hlt | heq | hgt
    · exact absurd h (rotate_ne_rotate start hlt (by omega))
    · exact heq
    · exact absurd h.symm (rotate_ne_rotate start hgt (by omega))

/-- The last elements of a short list are all of it.
Source: none: infrastructure
Kind: L -/
theorem rtake_of_length_le {α : Type*} {l : List α} {n : ℕ} (h : l.length ≤ n) :
    l.rtake n = l := by
  rw [List.rtake, Nat.sub_eq_zero_of_le h, List.drop_zero]

/-- The last `n + 1` values of a log that has no more than `n` are all of it.
Source: none: infrastructure
Kind: L -/
theorem rtake_succ_of_le {α : Type*} {l : List α} {n : ℕ} (h : l.length ≤ n) :
    l.rtake (n + 1) = l.rtake n := by
  rw [rtake_of_length_le h, rtake_of_length_le (Nat.le_succ_of_le h)]

/-- The last `n + 1` values of a longer log are one more value and the last `n`.
Source: none: infrastructure
Kind: L -/
theorem rtake_succ_of_lt {α : Type*} {l : List α} {n : ℕ} (h : n < l.length) :
    ∃ x, l.rtake (n + 1) = x :: l.rtake n := by
  have hlt : l.length - (n + 1) < l.length := by omega
  refine ⟨l[l.length - (n + 1)], ?_⟩
  unfold List.rtake
  rw [List.drop_eq_getElem_cons hlt]
  congr 2
  omega

/-- The array `slot` with its two indices and its flag is what logging `log` into `N` blank slots
leaves behind.
Source: none: infrastructure
Kind: D -/
structure RingLog {α : Type*} {N : ℕ} (blank : α) (slot : Fin N → α) (inOffs outOffs : Fin N)
    (full : Bool) (log : List α) : Prop where
  /-- The next value goes where the count says. -/
  inOffs_eq : inOffs.val = log.length % N
  /-- The oldest retained value is `N` values back, or the first one. -/
  outOffs_eq : outOffs.val = (log.length - N) % N
  /-- The flag says that a whole turn has been written. -/
  full_iff : full = true ↔ N ≤ log.length
  /-- A retained value is in the slot of its number. -/
  held : ∀ i (hi : i < log.length), log.length ≤ i + N →
    ∀ j : Fin N, j.val = i % N → slot j = log[i]
  /-- A slot no value has reached is still blank. -/
  untouched : ∀ j : Fin N, log.length ≤ j.val → slot j = blank

namespace RingLog

variable {α : Type*} {N : ℕ} {blank : α} {slot : Fin N → α} {inOffs outOffs : Fin N}
  {full : Bool} {log : List α}

/-- An array of blanks with both indices at zero represents the empty log.
Source: none: infrastructure
Kind: L -/
theorem init (zero : Fin N) (hzero : zero.val = 0) :
    RingLog blank (fun _ => blank) zero zero false ([] : List α) where
  inOffs_eq := by simp [hzero]
  outOffs_eq := by simp [hzero]
  full_iff := by
    have := zero.pos
    simp only [List.length_nil, Bool.false_eq_true, false_iff]
    omega
  held i hi := absurd hi (by simp)
  untouched _ _ := rfl

/-- Before a whole turn has been written the read index is still at zero.
Source: none: infrastructure
Kind: L -/
theorem outOffs_of_lt (h : RingLog blank slot inOffs outOffs full log) (hlt : log.length < N) :
    outOffs.val = 0 := by
  rw [h.outOffs_eq, Nat.sub_eq_zero_of_le hlt.le, Nat.zero_mod]

/-- The write index stands the retained count after the read index.
Source: none: infrastructure
Kind: L -/
theorem inOffs_eq_rotate (h : RingLog blank slot inOffs outOffs full log) :
    inOffs = rotate outOffs (min log.length N) := by
  apply Fin.ext
  rw [rotate_val, h.inOffs_eq, h.outOffs_eq, Nat.mod_add_mod]
  rcases Nat.lt_or_ge log.length N with hlt | hge
  · rw [Nat.sub_eq_zero_of_le hlt.le, Nat.min_eq_left hlt.le, Nat.zero_add]
  · rw [Nat.min_eq_right hge, Nat.sub_add_cancel hge]

/-- The retained value `k` places from the oldest is `k` slots after the read index.
Source: none: infrastructure
Kind: L -/
theorem slot_rotate (h : RingLog blank slot inOffs outOffs full log) {k : ℕ}
    (hk : log.length - N + k < log.length) :
    slot (rotate outOffs k) = log[log.length - N + k] := by
  refine h.held _ hk (by omega) _ ?_
  rw [rotate_val, h.outOffs_eq, Nat.mod_add_mod]

/-- Walking the retained slots from the read index reads the retained part of the log.
Source: none: infrastructure
Kind: L -/
theorem walk_eq (h : RingLog blank slot inOffs outOffs full log) :
    walk slot outOffs (min log.length N) = log.drop (log.length - N) := by
  apply List.ext_getElem
  · rw [walk_length, List.length_drop]
    omega
  · intro k hk₁ hk₂
    rw [List.length_drop] at hk₂
    rw [walk_getElem, List.getElem_drop]
    exact h.slot_rotate (by omega)

/-- The slot about to be overwritten is the one that holds the oldest retained value.
Source: none: infrastructure
Kind: L -/
theorem oldest (h : RingLog blank slot inOffs outOffs full log) (hfull : N ≤ log.length)
    (hlt : log.length - N < log.length) : slot inOffs = log[log.length - N] := by
  have hin : inOffs = rotate outOffs 0 := by
    rw [h.inOffs_eq_rotate, Nat.min_eq_right hfull, rotate_self, rotate_zero]
  rw [hin]
  exact h.slot_rotate (k := 0) (by omega)

/-- One more value: it is written at the write index, the write index moves on, the read index
moves on only when the array was full, and the flag is set when the two meet.
Source: none: infrastructure
Kind: L -/
theorem push (h : RingLog blank slot inOffs outOffs full log) (x : α) {outOffs' : Fin N}
    {full' : Bool} (hout : outOffs' = if full then rotate outOffs 1 else outOffs)
    (hfull : full' = true ↔ full = true ∨ rotate inOffs 1 = outOffs') :
    RingLog blank (Function.update slot inOffs x) (rotate inOffs 1) outOffs' full' (log ++ [x]) := by
  have hN : 0 < N := inOffs.pos
  have hlen : (log ++ [x]).length = log.length + 1 := by simp
  have hout' : outOffs'.val = (log.length + 1 - N) % N := by
    rw [hout]
    by_cases hf : full = true
    · have hge := h.full_iff.mp hf
      rw [if_pos hf, rotate_val, h.outOffs_eq, Nat.mod_add_mod]
      congr 1
      omega
    · have hlt : log.length < N := Nat.lt_of_not_le (mt h.full_iff.mpr hf)
      rw [if_neg hf, h.outOffs_of_lt hlt, Nat.sub_eq_zero_of_le hlt, Nat.zero_mod]
  refine ⟨?_, by rw [hlen]; exact hout', ?_, ?_, ?_⟩
  · rw [rotate_val, h.inOffs_eq, Nat.mod_add_mod, hlen]
  · rw [hfull, h.full_iff, hlen]
    constructor
    · rintro (hge | hmeet)
      · omega
      · -- the indices meet only when the turn is complete
        by_contra hlt
        have hv := congrArg Fin.val hmeet
        rw [rotate_val, h.inOffs_eq, Nat.mod_add_mod, hout',
          Nat.sub_eq_zero_of_le (by omega), Nat.zero_mod, Nat.mod_eq_of_lt (by omega)] at hv
        omega
    · intro hge
      rcases Nat.lt_or_ge log.length N with hlt | hge'
      · refine Or.inr (Fin.ext ?_)
        have heq : log.length + 1 = N := by omega
        rw [rotate_val, h.inOffs_eq, Nat.mod_add_mod, hout', heq, Nat.mod_self, Nat.sub_self,
          Nat.zero_mod]
      · exact Or.inl hge'
  · intro i hi hret j hj
    rw [hlen] at hi hret
    by_cases hnew : i = log.length
    · subst hnew
      have hjin : j = inOffs := Fin.ext (by rw [hj, h.inOffs_eq])
      simp [hjin]
    · have hold : i < log.length := by omega
      have hne : j ≠ inOffs := by
        intro heq
        rw [heq, h.inOffs_eq] at hj
        exact mod_ne_mod_of_lt hold (by omega) hj.symm
      rw [Function.update_of_ne hne, List.getElem_append_left hold]
      exact h.held i hold (by omega) j hj
  · intro j hj
    rw [hlen] at hj
    have hlt : log.length < N := lt_of_lt_of_le hj j.isLt.le
    have hne : j ≠ inOffs := by
      intro heq
      have hv := h.inOffs_eq
      rw [← heq, Nat.mod_eq_of_lt hlt] at hv
      omega
    rw [Function.update_of_ne hne]
    exact h.untouched j (by omega)

end RingLog

end Aesd.Lib
