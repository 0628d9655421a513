import Mathlib.Algebra.BigOperators.Group.List.Basic
import Mathlib.Algebra.Order.BigOperators.Group.List
import Mathlib.Algebra.Order.Ring.Nat
import Mathlib.Tactic.Common

/-!
# Positions in a concatenation of pieces

`locate sizes p` finds the piece in which position `p` of a concatenation falls, and the offset
inside it, by walking the pieces and subtracting their sizes. Empty pieces are passed over.

* `locate_eq_none_iff` — no piece is found exactly when `p` is at or past the end;
* `locate_eq_some_iff` — the pair found is the one with `p = (sizes before it) + offset`;
* `drop_flatten_of_locate` — what is left of the concatenation at `p` starts with what is left of
  the piece found; `getElem?_flatten_of_locate` is the same for one byte.

A reader that keeps a position in a log has read the log up to there, as long as the log only grows
(`ReadUpTo`).
-/

namespace Aesd.Lib

/-- The piece and the offset in it at which position `p` of the concatenation falls.
Source: none: infrastructure
Kind: D -/
def locate : List ℕ → ℕ → Option (ℕ × ℕ)
  | [], _ => none
  | s :: rest, p => if p < s then some (0, p) else (locate rest (p - s)).map fun kb => (kb.1 + 1, kb.2)

/-- A position inside the first piece.
Source: none: infrastructure
Kind: L -/
theorem locate_cons_of_lt {s p : ℕ} (h : p < s) (rest : List ℕ) :
    locate (s :: rest) p = some (0, p) := if_pos h

/-- A position behind the first piece.
Source: none: infrastructure
Kind: L -/
theorem locate_cons_of_le {s p : ℕ} (h : s ≤ p) (rest : List ℕ) :
    locate (s :: rest) p = (locate rest (p - s)).map fun kb => (kb.1 + 1, kb.2) :=
  if_neg (Nat.not_lt.mpr h)

/-- Nothing is found exactly at and past the end of the concatenation.
Source: none: infrastructure
Kind: L -/
theorem locate_eq_none_iff : ∀ (sizes : List ℕ) (p : ℕ), locate sizes p = none ↔ sizes.sum ≤ p
  | [], p => by simp [locate]
  | s :: rest, p => by
      rcases Nat.lt_or_ge p s with h | h
      · rw [locate_cons_of_lt h, List.sum_cons]
        simp only [reduceCtorEq, false_iff, not_le]
        omega
      · rw [locate_cons_of_le h, Option.map_eq_none_iff, locate_eq_none_iff rest, List.sum_cons]
        omega

/-- A pair is found exactly when it addresses `p` and its offset is inside its piece.
Source: none: infrastructure
Kind: L -/
theorem locate_eq_some_iff : ∀ (sizes : List ℕ) (p k b : ℕ),
    locate sizes p = some (k, b) ↔
      ∃ s, sizes[k]? = some s ∧ b < s ∧ p = (sizes.take k).sum + b
  | [], p, k, b => by simp [locate]
  | s :: rest, p, k, b => by
      rcases Nat.lt_or_ge p s with h | h
      · rw [locate_cons_of_lt h]
        cases k with
        | zero =>
            simp only [Option.some.injEq, Prod.mk.injEq, true_and, List.getElem?_cons_zero,
              exists_eq_left', List.take_zero, List.sum_nil, Nat.zero_add]
            omega
        | succ k =>
            simp only [Option.some.injEq, Prod.mk.injEq, Nat.right_eq_add, Nat.add_eq_zero_iff,
              one_ne_zero, and_false, false_and, List.take_succ_cons, List.sum_cons, false_iff,
              not_exists, not_and]
            intro t _ _
            omega
      · rw [locate_cons_of_le h]
        cases k with
        | zero =>
            simp only [Option.map_eq_some_iff, Prod.mk.injEq, Nat.add_eq_zero_iff, one_ne_zero,
              and_false, false_and, exists_false, List.getElem?_cons_zero, Option.some.injEq,
              exists_eq_left', List.take_zero, List.sum_nil, Nat.zero_add, false_iff, not_and]
            omega
        | succ k =>
            have hstep : (locate rest (p - s)).map (fun kb => (kb.1 + 1, kb.2)) = some (k + 1, b) ↔
                locate rest (p - s) = some (k, b) := by
              rw [Option.map_eq_some_iff]
              constructor
              · rintro ⟨⟨k', b'⟩, hloc, heq⟩
                simp only [Prod.mk.injEq, Nat.add_right_cancel_iff] at heq
                rw [hloc, heq.1, heq.2]
              · intro hloc
                exact ⟨(k, b), hloc, rfl⟩
            rw [hstep, locate_eq_some_iff rest (p - s) k b]
            simp only [List.getElem?_cons_succ, List.take_succ_cons, List.sum_cons]
            constructor
            · rintro ⟨t, ht, hb, hp⟩
              exact ⟨t, ht, hb, by omega⟩
            · rintro ⟨t, ht, hb, hp⟩
              exact ⟨t, ht, hb, by omega⟩

/-- A position inside a piece is found there.
Source: none: infrastructure
Kind: L -/
theorem locate_take_sum_add {sizes : List ℕ} {k b : ℕ} {s : ℕ} (hs : sizes[k]? = some s)
    (hb : b < s) : locate sizes ((sizes.take k).sum + b) = some (k, b) :=
  (locate_eq_some_iff sizes _ k b).mpr ⟨s, hs, hb, rfl⟩

/-- What is left of the concatenation from `p` on starts with what is left of the piece found.
Source: none: infrastructure
Kind: L -/
theorem drop_flatten_of_locate {β : Type*} {L : List (List β)} {p k b : ℕ}
    (h : locate (L.map List.length) p = some (k, b)) :
    ∃ piece, L[k]? = some piece ∧ b < piece.length ∧
      L.flatten.drop p = piece.drop b ++ (L.drop (k + 1)).flatten := by
  obtain ⟨s, hs, hb, hp⟩ := (locate_eq_some_iff _ _ _ _).mp h
  rw [List.getElem?_map, Option.map_eq_some_iff] at hs
  obtain ⟨piece, hpiece, rfl⟩ := hs
  refine ⟨piece, hpiece, hb, ?_⟩
  have hk : k < L.length := (List.getElem?_eq_some_iff.mp hpiece).1
  have hget : L[k] = piece := (List.getElem?_eq_some_iff.mp hpiece).2
  rw [hp, ← List.drop_drop, List.drop_sum_flatten, List.drop_eq_getElem_cons hk, hget,
    List.flatten_cons, List.drop_append_of_le_length hb.le]

/-- The byte at the position is the byte of the piece found at the offset found.
Source: none: infrastructure
Kind: L -/
theorem getElem?_flatten_of_locate {β : Type*} {L : List (List β)} {p k b : ℕ} {piece : List β}
    (h : locate (L.map List.length) p = some (k, b)) (hpiece : L[k]? = some piece) :
    L.flatten[p]? = piece[b]? := by
  obtain ⟨piece', hpiece', hb, hdrop⟩ := drop_flatten_of_locate h
  rw [hpiece, Option.some.injEq] at hpiece'
  subst hpiece'
  have hne : piece.drop b ≠ [] := by
    rw [ne_eq, List.drop_eq_nil_iff, Nat.not_le]
    exact hb
  have hhead := congrArg List.head? hdrop
  rw [List.head?_drop, List.head?_append_of_ne_nil _ hne, List.head?_drop] at hhead
  exact hhead

/-! ### Reading along a log that grows -/

/-- What a reader at a position has got is the log up to the position.
Source: none: infrastructure
Kind: D -/
structure ReadUpTo {β : Type*} (log got : List β) (pos : ℕ) : Prop where
  got_eq : got = log.take pos
  le_length : pos ≤ log.length

namespace ReadUpTo

variable {β : Type*} {log got : List β} {pos : ℕ}

/-- Nothing has been read yet.
Source: none: infrastructure
Kind: L -/
theorem start (log : List β) : ReadUpTo log [] 0 := ⟨rfl, Nat.zero_le _⟩

/-- A reader that starts at a position counts what stands before it as got.
Source: none: infrastructure
Kind: L -/
theorem startAt (hpos : pos ≤ log.length) : ReadUpTo log (log.take pos) pos := ⟨rfl, hpos⟩

/-- The log may grow behind what has been read.
Source: none: infrastructure
Kind: L -/
theorem append (hr : ReadUpTo log got pos) (more : List β) : ReadUpTo (log ++ more) got pos := by
  refine ⟨?_, ?_⟩
  · rw [List.take_append_of_le_length hr.le_length]
    exact hr.got_eq
  · rw [List.length_append]
    exact hr.le_length.trans (Nat.le_add_right _ _)

/-- The next piece is one that stands at the position.
Source: none: infrastructure
Kind: L -/
theorem read (hr : ReadUpTo log got pos) {piece : List β} (hpiece : piece <+: log.drop pos) :
    ReadUpTo log (got ++ piece) (pos + piece.length) := by
  have hle := hpiece.length_le
  rw [List.length_drop] at hle
  refine ⟨?_, ?_⟩
  · rw [List.take_add, ← hr.got_eq, ← List.prefix_iff_eq_take.mp hpiece]
  · have := hr.le_length
    omega

/-- What has been read is a prefix of the log.
Source: none: infrastructure
Kind: L -/
theorem isPrefix (hr : ReadUpTo log got pos) : got <+: log := hr.got_eq ▸ List.take_prefix _ _

/-- At the end of the log all of it has been read.
Source: none: infrastructure
Kind: L -/
theorem eq_log (hr : ReadUpTo log got pos) (hend : log.length ≤ pos) : got = log := by
  rw [hr.got_eq, List.take_of_length_le hend]

/-- What was got after a start is the log from the end of the start on.
Source: none: infrastructure
Kind: L -/
theorem isPrefix_drop {start : List β} (hr : ReadUpTo log (start ++ got) pos) :
    got <+: log.drop start.length := by
  obtain ⟨rest, hrest⟩ := hr.isPrefix
  rw [← hrest, List.append_assoc, List.drop_left]
  exact List.prefix_append _ _

/-- At the end of the log, what was read after a start is the rest of the log.
Source: none: infrastructure
Kind: L -/
theorem eq_drop {start : List β} (hr : ReadUpTo log (start ++ got) pos)
    (hend : log.length ≤ pos) : got = log.drop start.length := by
  rw [← hr.eq_log hend, List.drop_left]

end ReadUpTo

end Aesd.Lib
