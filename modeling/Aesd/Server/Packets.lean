import Aesd.Server.Assembly
import Aesd.Server.System

/-!
# The packets of a connection without commands

As long as what the handler tests does not begin with `AESDCHAR_IOCSEEKTO:`, it does nothing but
gather bytes up to a chunk with a newline and append them: it is the assembler of
`Aesd.Lib.Records`.

* `assemble_of_neverCommand` — the actions and the bytes kept are those of `Records.feed`;
* `packets_conserve_bytes` — at the head of the loop the payloads appended, followed by what is
  buffered, are the chunks received.
-/

namespace Aesd.Server

open Aesd.Lib Aesd.Driver

/-! ### Chunks without a command -/

/-- What is tested after each chunk, the bytes kept with the chunk behind them, does not begin with
`SEEKTO`.
Source: `handler.c`, `handle_connection`
Kind: D -/
def NeverCommand (kept : List UInt8) : List (List UInt8) → Prop
  | [] => True
  | chunk :: chunks => ¬ seekto <+: kept ++ chunk ∧ NeverCommand (receive kept chunk).2 chunks

/-- Whether a command ever begins is found by receiving.
Source: none: infrastructure
Kind: D -/
instance decidableNeverCommand :
    ∀ (kept : List UInt8) (cs : List (List UInt8)), Decidable (NeverCommand kept cs)
  | _, [] => inferInstanceAs (Decidable True)
  | kept, chunk :: cs =>
      have := decidableNeverCommand (receive kept chunk).2 cs
      inferInstanceAs (Decidable (_ ∧ _))

section assembler

variable {kept chunk : List UInt8} {cs : List (List UInt8)}

/-- A chunk that makes no command is one more piece for the assembler of records.
Source: `handler.c`, `handle_connection`
Kind: L -/
theorem receive_eq_feed (hseek : ¬ seekto <+: kept ++ chunk) (hfree : newline ∉ kept)
    (done : List (List UInt8)) :
    (Records.feed newline ⟨done, kept⟩ chunk).pending = (receive kept chunk).2 ∧
    (Records.feed newline ⟨done, kept⟩ chunk).done.map Action.append =
      done.map .append ++ (receive kept chunk).1.toList := by
  rw [receive, if_neg hseek]
  by_cases hnl : newline ∈ chunk
  · rw [Records.feed_of_mem hnl, if_pos (List.mem_append_right kept hnl), List.map_append]
    exact ⟨rfl, rfl⟩
  · have hnone : newline ∉ kept ++ chunk := fun hmem => (List.mem_append.mp hmem).elim hfree hnl
    rw [Records.feed_of_not_mem hnl, if_neg hnone]
    exact ⟨rfl, (List.append_nil _).symm⟩

/-- The bytes kept hold no newline.
Source: `handler.c`, `handle_connection`
Kind: L -/
theorem receive_free (kept chunk : List UInt8) : newline ∉ (receive kept chunk).2 := by
  unfold receive
  split_ifs with hseek hnl
  · exact List.not_mem_nil
  · exact List.not_mem_nil
  · exact hnl

/-- **Without commands the handler assembles records.**
Source: `handler.c`, `handle_connection`
Kind: P -/
theorem assemble_of_neverCommand (hno : NeverCommand kept cs) (hfree : newline ∉ kept)
    (done : List (List UInt8)) :
    (cs.foldl (Records.feed newline) ⟨done, kept⟩).pending = remainder kept cs ∧
    (cs.foldl (Records.feed newline) ⟨done, kept⟩).done.map Action.append =
      done.map .append ++ assemble kept cs := by
  induction cs generalizing kept done with
  | nil => exact ⟨rfl, (List.append_nil _).symm⟩
  | cons chunk cs ih =>
      obtain ⟨hseek, hrest⟩ := hno
      obtain ⟨hpending, hdone⟩ := receive_eq_feed hseek hfree done
      obtain ⟨hkept, hacts⟩ := ih hrest (receive_free kept chunk)
        (Records.feed newline ⟨done, kept⟩ chunk).done
      rw [← hpending] at hkept hacts
      constructor
      · exact hkept.trans (by rw [hpending]; rfl)
      · rw [List.foldl_cons, hacts, hdone, hpending, assemble, List.append_assoc]

end assembler

/-! ### What is appended -/

/-- The payload of an action, when it is an append.
Source: `handler.c`, `handle_connection`
Kind: D -/
def Action.payload : Action → Option (List UInt8)
  | .append payload => some payload
  | .seek _ => none

/-- The payloads for which `append_packet` returned zero. A failing `append_packet` ends the loop.
Source: `handler.c`, `handle_connection` and `append_packet`
Kind: D -/
def payloads (events : List Event) : List (List UInt8) := events.filterMap Event.acknowledged

section packets

variable {build : Build} {h : Handler} {events : List Event}

/-- The payloads written, when no `write` fails.
Source: `handler.c`, `handle_connection` and `append_packet`
Kind: L -/
theorem written_eq_payloads (hok : ∀ ev ∈ events, ev.Succeeds ∨ ev = .openDevice false) :
    events.filterMap Event.written = (deviceActions events).filterMap Action.payload := by
  rw [deviceActions, List.filterMap_filterMap]
  apply List.filterMap_congr
  intro ev hev
  cases ev with
  | write bytes result =>
      have hsucc : result.isSome = true := (hok _ hev).resolve_right nofun
      obtain ⟨n, rfl⟩ := Option.isSome_iff_exists.mp hsucc
      rfl
  | _ => rfl

/-- What a connection without commands has written are the records made of its chunks.
Source: `handler.c`, `handle_connection`
Kind: L -/
theorem records_of_run (hrun : handleConnection build events = some h)
    (hok : ∀ ev ∈ events, ev.Succeeds ∨ ev = .openDevice false) (hstored : h.pc.unstored = [])
    (howed : h.pc.owed h.data = []) (hno : NeverCommand [] (chunks events)) :
    events.filterMap Event.written = ((chunks events).foldl (Records.feed newline) .start).done := by
  obtain ⟨cs, hcs, hacts, -⟩ := (follows_of_run hrun hok).stored
  rw [hstored, List.append_nil] at hcs
  rw [howed, List.append_nil] at hacts
  subst hcs
  obtain ⟨-, hdone⟩ := assemble_of_neverCommand hno List.not_mem_nil []
  have hid : Action.payload ∘ Action.append = some := rfl
  rw [List.map_nil, List.nil_append] at hdone
  rw [written_eq_payloads hok, ← hacts, ← hdone, List.filterMap_map, hid, List.filterMap_some]
  rfl

/-- **Packet assembly conserves bytes.** Whatever the chunks, as long as no call fails and what is
tested never begins with `SEEKTO`: whenever the handler is back at the head of its loop, the
payloads appended so far, followed by what is buffered, are the chunks received so far. A payload is
a run of chunks of which the last, and only the last, holds a newline; the chunks behind these runs
are buffered and hold none.
Source: `handler.c`, `handle_connection` and `append_packet`
Kind: P -/
theorem packets_conserve_bytes (hrun : handleConnection build events = some h)
    (hok : ∀ ev ∈ events, ev.Succeeds) (hno : NeverCommand [] (chunks events))
    (hpc : h.pc = .recv) :
    (payloads events).flatten ++ h.data = (chunks events).flatten ∧
    (∀ payload ∈ payloads events, newline ∈ payload) ∧ newline ∉ h.data ∧
    ∃ (runs : List (List (List UInt8))) (rest : List (List UInt8)),
      chunks events = runs.flatten ++ rest ∧
      payloads events = runs.map List.flatten ∧ h.data = rest.flatten ∧
      ∀ run ∈ runs, ∃ init last, run = init ++ [last] ∧ (∀ chunk ∈ init, newline ∉ chunk) ∧
        newline ∈ last := by
  obtain ⟨runs, rest, htiles⟩ := Records.exists_tiles newline (chunks events)
  have hok' : ∀ ev ∈ events, ev.Succeeds ∨ ev = .openDevice false := fun ev hev => Or.inl (hok ev hev)
  have hdone : payloads events = ((chunks events).foldl (Records.feed newline) .start).done := by
    have hwritten := (appends_of_run hrun).written
    rw [hpc] at hwritten
    rw [← records_of_run hrun hok' (by rw [hpc]; rfl) (by rw [hpc]; rfl) hno, hwritten]
    exact (List.append_nil _).symm
  have hdata : h.data = ((chunks events).foldl (Records.feed newline) .start).pending := by
    obtain ⟨cs, hcs, -, hkept⟩ := (follows_of_run hrun hok').stored
    rw [hpc] at hcs hkept
    rw [show Pc.unstored .recv = [] from rfl, List.append_nil] at hcs
    rw [hcs] at hno ⊢
    exact (hkept.resolve_left (by simp [Pc.ended])).symm.trans
      (assemble_of_neverCommand hno List.not_mem_nil []).1.symm
  rw [hdone, hdata]
  refine ⟨htiles.conserved, ?_, htiles.pending_free, runs, rest, htiles.pieces_eq, htiles.done_eq,
    htiles.pending_eq, htiles.isRun⟩
  rw [htiles.done_eq]
  intro payload hpayload
  obtain ⟨pieces, hpieces, rfl⟩ := List.mem_map.mp hpayload
  obtain ⟨init, last, rfl, -, hlast⟩ := htiles.isRun pieces hpieces
  exact List.mem_flatten.mpr ⟨last, List.mem_concat_self, hlast⟩

/-- A packet in two chunks, the second with a first byte of the next packet.
Source: `handler.c`, `handle_connection`
Kind: N+ -/
theorem packets_conserve_bytes_two_chunks :
    ∃ events h, handleConnection .dataFile events = some h ∧ h.pc = .recv ∧
      chunks events = [[97], [98, 10, 99], [100]] ∧ (payloads events).flatten ++ h.data =
        [97, 98, 10, 99, 100] := by
  obtain ⟨h, ⟨events, hrun, hok, hcs⟩, hpc⟩ :=
    exists_run_to_recv [[97], [98, 10, 99], [100]] .dataFile (by decide) (by decide)
  have hno : NeverCommand [] (chunks events) := by
    rw [hcs]
    decide
  have hsum := (packets_conserve_bytes hrun hok hno hpc).1
  rw [hcs] at hsum
  exact ⟨events, h, hrun, hpc, hcs, hsum⟩

end packets

end Aesd.Server
