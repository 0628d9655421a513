import Mathlib.Data.List.Induction
import Mathlib.Tactic.Common

/-!
# Records assembled from pieces

Pieces of data arrive one after another and are gathered until a piece holds the terminator `nl`;
then everything gathered, that piece included, becomes one record. `Records` is the state of such
an assembler: the records completed so far and what is still being gathered.

`exists_tiles` says what any sequence of pieces leaves: nothing is lost or reordered, what is
being gathered holds no terminator, and the completed records are exactly the concatenations of
the maximal runs of pieces of which only the last holds one.
-/

namespace Aesd.Lib

/-- The completed records, in order, and what is still being gathered.
Source: none: infrastructure
Kind: D -/
@[ext] structure Records (β : Type*) where
  done : List (List β)
  pending : List β

namespace Records

variable {β : Type*}

/-- Nothing has arrived yet.
Source: none: infrastructure
Kind: D -/
def start : Records β := ⟨[], []⟩

/-- One more piece.
Source: none: infrastructure
Kind: D -/
def feed [DecidableEq β] (nl : β) (r : Records β) (piece : List β) : Records β :=
  if nl ∈ piece then ⟨r.done ++ [r.pending ++ piece], []⟩ else ⟨r.done, r.pending ++ piece⟩

/-- What was being gathered is lost.
Source: none: infrastructure
Kind: D -/
def forget (r : Records β) : Records β := ⟨r.done, []⟩

/-- A piece with the terminator completes a record.
Source: none: infrastructure
Kind: L -/
theorem feed_of_mem [DecidableEq β] {nl : β} {piece : List β} (h : nl ∈ piece) (r : Records β) :
    r.feed nl piece = ⟨r.done ++ [r.pending ++ piece], []⟩ := if_pos h

/-- A piece without the terminator waits for the rest.
Source: none: infrastructure
Kind: L -/
theorem feed_of_not_mem [DecidableEq β] {nl : β} {piece : List β} (h : nl ∉ piece) (r : Records β) :
    r.feed nl piece = ⟨r.done, r.pending ++ piece⟩ := if_neg h

/-- A run of pieces that makes one record: only its last piece holds the terminator.
Source: none: infrastructure
Kind: D -/
def IsRun (nl : β) (run : List (List β)) : Prop :=
  ∃ init last, run = init ++ [last] ∧ (∀ piece ∈ init, nl ∉ piece) ∧ nl ∈ last

/-- The pieces are cut into the runs that made the records and the rest that is being gathered.
Source: none: infrastructure
Kind: D -/
structure Tiles (nl : β) (r : Records β) (pieces : List (List β)) (runs : List (List (List β)))
    (rest : List (List β)) : Prop where
  pieces_eq : pieces = runs.flatten ++ rest
  isRun : ∀ run ∈ runs, IsRun nl run
  done_eq : r.done = runs.map List.flatten
  rest_free : ∀ piece ∈ rest, nl ∉ piece
  pending_eq : r.pending = rest.flatten

/-- One more piece either closes the rest into a run or joins it.
Source: none: infrastructure
Kind: L -/
theorem Tiles.feed [DecidableEq β] {nl : β} {r : Records β} {pieces : List (List β)}
    {runs : List (List (List β))} {rest : List (List β)} (h : Tiles nl r pieces runs rest)
    (piece : List β) :
    ∃ runs' rest', Tiles nl (r.feed nl piece) (pieces ++ [piece]) runs' rest' := by
  by_cases hmem : nl ∈ piece
  · refine ⟨runs ++ [rest ++ [piece]], [], ?_, ?_, ?_, by simp, ?_⟩
    · simp [h.pieces_eq]
    · intro run hrun
      rcases List.mem_append.mp hrun with hold | hnew
      · exact h.isRun run hold
      · rw [List.mem_singleton.mp hnew]
        exact ⟨rest, piece, rfl, h.rest_free, hmem⟩
    · rw [feed_of_mem hmem, h.done_eq, h.pending_eq]
      simp
    · rw [feed_of_mem hmem]
      rfl
  · refine ⟨runs, rest ++ [piece], ?_, h.isRun, ?_, ?_, ?_⟩
    · simp [h.pieces_eq]
    · rw [feed_of_not_mem hmem]
      exact h.done_eq
    · intro p hp
      rcases List.mem_append.mp hp with hold | hnew
      · exact h.rest_free p hold
      · rw [List.mem_singleton.mp hnew]
        exact hmem
    · rw [feed_of_not_mem hmem, h.pending_eq]
      simp

/-- Nothing has been fed yet.
Source: none: infrastructure
Kind: L -/
theorem tiles_start (nl : β) : Tiles nl (start : Records β) [] [] [] where
  pieces_eq := rfl
  isRun := by simp
  done_eq := rfl
  rest_free := by simp
  pending_eq := rfl

/-- Any sequence of pieces is tiled by the records it leaves.
Source: none: infrastructure
Kind: L -/
theorem exists_tiles [DecidableEq β] (nl : β) (pieces : List (List β)) :
    ∃ runs rest, Tiles nl (pieces.foldl (feed nl) start) pieces runs rest := by
  induction pieces using List.reverseRecOn with
  | nil => exact ⟨[], [], tiles_start nl⟩
  | append_singleton pieces piece ih =>
      obtain ⟨runs, rest, h⟩ := ih
      rw [List.foldl_append]
      exact h.feed piece

namespace Tiles

variable {nl : β} {r : Records β} {pieces : List (List β)} {runs : List (List (List β))}
  {rest : List (List β)}

/-- Nothing is lost, duplicated or reordered.
Source: none: infrastructure
Kind: L -/
theorem conserved (h : Tiles nl r pieces runs rest) :
    r.done.flatten ++ r.pending = pieces.flatten := by
  rw [h.done_eq, h.pending_eq, h.pieces_eq, List.flatten_append, List.flatten_flatten]

/-- What is being gathered holds no terminator.
Source: none: infrastructure
Kind: L -/
theorem pending_free (h : Tiles nl r pieces runs rest) : nl ∉ r.pending := by
  rw [h.pending_eq]
  intro hmem
  obtain ⟨piece, hpiece, hnl⟩ := List.mem_flatten.mp hmem
  exact h.rest_free piece hpiece hnl

end Tiles

end Records

end Aesd.Lib
