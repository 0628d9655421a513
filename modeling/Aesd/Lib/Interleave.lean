import Mathlib.Algebra.BigOperators.Group.Finset.Piecewise
import Mathlib.Algebra.Order.BigOperators.Group.Finset
import Mathlib.Algebra.Order.Ring.Nat

/-!
# Interleaved streams

A log of pieces, each with the party it comes from, and its content, the pieces one after another.
`piecesOf t log` are the pieces of one party in their order; the content is then an interleaving of
the parties' streams, cut where the pieces end.

* `piecesOf_filterMap` — the pieces of one party in a log that is read off a list of events;
* `length_content` — the content is as long as the streams together;
* `length_eq_of_content` — of two ways to see one content as an interleaving, one cannot have a
  shorter stream and no longer one.
-/

namespace Aesd.Lib

variable {τ β ε : Type*} [DecidableEq τ]

/-- The pieces one after another.
Source: none: infrastructure
Kind: D -/
def content (log : List (τ × List β)) : List β := (log.map Prod.snd).flatten

/-- The pieces of one party.
Source: none: infrastructure
Kind: D -/
def piecesOf (t : τ) (log : List (τ × List β)) : List (List β) :=
  log.filterMap fun p => if p.1 = t then some p.2 else none

/-- The stream of one party.
Source: none: infrastructure
Kind: D -/
def streamOf (t : τ) (log : List (τ × List β)) : List β := (piecesOf t log).flatten

omit [DecidableEq τ] in
/-- The bytes of two logs, one behind the other.
Source: none: infrastructure
Kind: L -/
theorem content_append (log log' : List (τ × List β)) :
    content (log ++ log') = content log ++ content log' := by
  rw [content, List.map_append, List.flatten_append]
  rfl

/-- The pieces of one writer, read off the events.
Source: none: infrastructure
Kind: L -/
theorem piecesOf_filterMap (t : τ) (f : ε → Option (τ × List β)) (es : List ε) :
    piecesOf t (es.filterMap f) =
      es.filterMap fun e => (f e).bind fun p => if p.1 = t then some p.2 else none :=
  List.filterMap_filterMap

/-- A piece belongs to the stream of its writer.
Source: none: infrastructure
Kind: L -/
theorem streamOf_cons (t : τ) (p : τ × List β) (log : List (τ × List β)) :
    streamOf t (p :: log) = if p.1 = t then p.2 ++ streamOf t log else streamOf t log := by
  unfold streamOf piecesOf
  split_ifs with h
  · rw [List.filterMap_cons_some (by rw [if_pos h]), List.flatten_cons]
  · rw [List.filterMap_cons_none (by rw [if_neg h])]

/-- The content is as long as the streams together.
Source: none: infrastructure
Kind: L -/
theorem length_content (S : Finset τ) : ∀ log : List (τ × List β), (∀ p ∈ log, p.1 ∈ S) →
    (content log).length = ∑ t ∈ S, (streamOf t log).length
  | [], _ => by
      have hzero : ∀ t ∈ S, (streamOf t ([] : List (τ × List β))).length = 0 := fun t _ => rfl
      rw [Finset.sum_eq_zero hzero]
      rfl
  | p :: log, hmem => by
      rw [List.forall_mem_cons] at hmem
      have hlen : ∀ t ∈ S, (streamOf t (p :: log)).length =
          (streamOf t log).length + if p.1 = t then p.2.length else 0 := by
        intro t _
        rw [streamOf_cons]
        split_ifs with h
        · rw [List.length_append, Nat.add_comm]
        · rfl
      rw [Finset.sum_congr rfl hlen, Finset.sum_add_distrib, Finset.sum_ite_eq, if_pos hmem.1,
        ← length_content S log hmem.2, ← List.singleton_append, content_append, List.length_append,
        Nat.add_comm]
      simp [content]

/-- **Streams that make up one content.** When two logs have the same content and no stream of the
first is longer than that of the second, the streams have the same lengths.
Source: none: infrastructure
Kind: L -/
theorem length_eq_of_content {log log' : List (τ × List β)} (hsame : content log = content log')
    (hle : ∀ t, (streamOf t log).length ≤ (streamOf t log').length) (t : τ) :
    (streamOf t log).length = (streamOf t log').length := by
  set S : Finset τ := insert t ((log ++ log').map Prod.fst).toFinset with hS
  have hmem : ∀ p ∈ log ++ log', p.1 ∈ S := by
    intro p hp
    rw [hS, Finset.mem_insert, List.mem_toFinset]
    exact Or.inr (List.mem_map_of_mem hp)
  have hsum : ∑ t ∈ S, (streamOf t log).length = ∑ t ∈ S, (streamOf t log').length := by
    rw [← length_content S log fun p hp => hmem p (List.mem_append_left _ hp), hsame,
      length_content S log' fun p hp => hmem p (List.mem_append_right _ hp)]
  exact (Finset.sum_eq_sum_iff_of_le fun u _ => hle u).mp hsum t (Finset.mem_insert_self t _)

end Aesd.Lib
