import Aesd.Lib.Interleave
import Aesd.Server.DataFile
import Aesd.Server.Packets

/-!
# What the data file holds

The file-backed server when no call fails, except that the read-only open at the start of a
connection fails when there is no file. Everything that is ever appended stands in the file in the
order of the appends (`file_eq_content`). A connection whose open succeeds appends its whole stream;
one whose open fails is closed before anything is received.

* `file_complete_iff` — from a missing file, and with all handlers finished, the file is an
  interleaving of the complete streams and of the timestamp lines exactly when the file was there
  whenever a connection with something to send was opened.
-/

namespace Aesd.Server

open Aesd.Lib Aesd.Driver

/-! ### A connection on which nothing fails -/

/-- The places that only a failed call leads to.
Source: `handler.c`, `handle_connection` and `write_to_client`
Kind: D -/
def Pc.failing : Pc → Bool
  | .append (.close false) | .append (.returned false) | .unlock false
  | .reply _ (.returned false) => true
  | _ => false

/-- The places before the open.
Source: `handler.c`, `handle_connection`
Kind: D -/
def Pc.early : Pc → Bool
  | .malloc | .openDevice => true
  | _ => false

/-- The places from a failed open to the end.
Source: `handler.c`, `handle_connection`
Kind: D -/
def Pc.aborted : Pc → Bool
  | .abortClose _ | .abortFree | .setDone | .finished => true
  | _ => false

/-- A step between these places that neither opens nor receives needs no word about the past.
Source: `handler.c`, `handle_connection`
Kind: D -/
def Pc.goesOn (pc pc' : Pc) : Bool :=
  !pc'.failing && (!pc'.early || pc.early) && (!pc.aborted || pc'.aborted) &&
    (!pc'.ended || pc.ended)

/-- A connection on which nothing has failed but, perhaps, the open: it ends after the end of its
stream or after the failed open, and in the latter case it has received nothing.
Source: `handler.c`, `handle_connection`
Kind: D -/
structure Undisturbed (events : List Event) (h : Handler) : Prop where
  healthy : h.pc.failing = false
  early : h.pc.early = true → chunks events = [] ∧ Event.openDevice false ∉ events
  aborted : Event.openDevice false ∈ events → chunks events = [] ∧ h.pc.aborted = true
  ended : h.pc.ended = true → Event.recv none ∈ events ∨ Event.openDevice false ∈ events

section undisturbed

variable {build : Build} {h h' : Handler} {ev : Event} {events : List Event}

/-- An event that receives nothing and goes on.
Source: `handler.c`, `handle_connection`
Kind: L -/
theorem Undisturbed.next (hu : Undisturbed events h) (hrec : ev.received = none)
    (hopen : Event.openDevice false ≠ ev) (hgo : h.pc.goesOn h'.pc = true) :
    Undisturbed (events ++ [ev]) h' := by
  have hmem : Event.openDevice false ∈ events ++ [ev] ↔ Event.openDevice false ∈ events := by
    rw [List.mem_append, List.mem_singleton]
    exact or_iff_left hopen
  have hchunks : chunks (events ++ [ev]) = chunks events := by
    rw [chunks_concat, hrec, Option.toList_none, List.append_nil]
  simp only [Pc.goesOn, Bool.and_eq_true, Bool.not_eq_true', Bool.or_eq_true] at hgo
  obtain ⟨⟨⟨hfail, hearly⟩, haborted⟩, hended⟩ := hgo
  refine ⟨hfail, fun h => ?_, fun h => ?_, fun h => ?_⟩
  · rw [hchunks, hmem]
    exact hu.early (hearly.resolve_left (by rw [h]; decide))
  · obtain ⟨hnone, habort⟩ := hu.aborted (hmem.mp h)
    rw [hchunks]
    exact ⟨hnone, haborted.resolve_left (by rw [habort]; decide)⟩
  · rcases hu.ended (hended.resolve_left (by rw [h]; decide)) with hend | hend
    · exact Or.inl (List.mem_append_left _ hend)
    · exact Or.inr (List.mem_append_left _ hend)

/-- A chunk is received at the head of the loop.
Source: `handler.c`, `handle_connection`
Kind: L -/
theorem Undisturbed.receives (hu : Undisturbed events h) (hpc : h.pc = .recv) {chunk : List UInt8}
    (hloop : h'.pc.failing = false ∧ h'.pc.early = false ∧ h'.pc.ended = false) :
    Undisturbed (events ++ [.recv (some chunk)]) h' := by
  have hopened : Event.openDevice false ∉ events := by
    intro hmem
    have habort := (hu.aborted hmem).2
    rw [hpc] at habort
    cases habort
  refine ⟨hloop.1, fun h => ?_, fun h => ?_, fun h => ?_⟩
  · rw [hloop.2.1] at h
    cases h
  · rw [List.mem_append, List.mem_singleton] at h
    exact absurd h (not_or_intro hopened nofun)
  · rw [hloop.2.2] at h
    cases h

/-- Accepting a chunk leads to a place of the loop.
Source: `handler.c`, `handle_connection`
Kind: L -/
theorem Handler.loops_accept (h : Handler) (build : Build) (chunk : List UInt8) :
    (h.accept build chunk).pc.failing = false ∧ (h.accept build chunk).pc.early = false ∧
      (h.accept build chunk).pc.ended = false := by
  apply Handler.accept_pc (P := fun pc => pc.failing = false ∧ pc.early = false ∧ pc.ended = false)
  · exact fun _ => ⟨rfl, rfl, rfl⟩
  · exact ⟨rfl, rfl, rfl⟩
  · cases build <;> exact ⟨rfl, rfl, rfl⟩
  · exact ⟨rfl, rfl, rfl⟩

/-- The steps of `append_packet`.
Source: `handler.c`, `handle_connection` and `append_packet`
Kind: L -/
theorem Undisturbed.appendStep (hu : Undisturbed events h) {pc pc' : AppendPc}
    (hpc : h.pc = .append pc) (hev : appendPacket h.data pc ev = some pc') (hok : ev.Succeeds) :
    Undisturbed (events ++ [ev]) { h with pc := .append pc' } := by
  have hhealthy := hu.healthy
  rw [hpc] at hhealthy
  unfold appendPacket at hev
  split at hev
  · rename_i ok
    obtain rfl : ok = true := hok
    cases hev
    exact hu.next rfl nofun (by rw [hpc]; rfl)
  · rename_i bytes result
    rw [Option.ite_none_right_eq_some] at hev
    cases hev.2
    obtain ⟨n, rfl⟩ := Option.isSome_iff_exists.mp hok
    exact hu.next rfl nofun (by rw [hpc]; rfl)
  · rename_i ok
    cases hev
    cases ok with
    | false => cases hhealthy
    | true => exact hu.next rfl nofun (by rw [hpc]; rfl)
  · cases hev

/-- The steps of `write_to_client`.
Source: `handler.c`, `write_to_client`
Kind: L -/
theorem Undisturbed.replyStep (hu : Undisturbed events h) {site : ReplySite} {pc pc' : ReplyPc}
    (hpc : h.pc = .reply site pc) (hev : writeToClient pc ev = some pc') (hok : ev.Succeeds) :
    Undisturbed (events ++ [ev]) { h with pc := .reply site pc' } := by
  unfold writeToClient at hev
  split at hev
  · rename_i result
    split at hev
    · rw [Option.ite_none_right_eq_some] at hev
      cases hev.2
      exact hu.next rfl nofun (by rw [hpc]; rfl)
    · cases hev
      exact hu.next rfl nofun (by rw [hpc]; rfl)
  · rename_i chunk bytes sent
    obtain rfl : sent = bytes.length := hok
    rw [Option.ite_none_right_eq_some, if_neg (not_not_intro rfl)] at hev
    cases hev.2
    exact hu.next rfl nofun (by rw [hpc]; rfl)
  · cases hev

/-- Every event that succeeds keeps to the receiving loop.
Source: `handler.c`, `handle_connection`; `aesdsocket.c`, `alarm_handler`
Kind: L -/
theorem Undisturbed.step (hu : Undisturbed events h) (hs : h.Sound) (hstep : h.Steps build ev h')
    (hok : ev.Succeeds ∨ ev = .openDevice false) : Undisturbed (events ++ [ev]) h' := by
  have hhealthy := hu.healthy
  cases hstep with
  | mallocFails hpc => exact absurd rfl (hok.resolve_right nofun)
  | mallocs hpc _ => exact hu.next rfl nofun (by rw [hpc]; rfl)
  | @opens ok hpc =>
      cases ok with
      | true => exact hu.next rfl nofun (by rw [hpc]; rfl)
      | false =>
          obtain ⟨hnone, -⟩ := hu.early (by rw [hpc]; rfl)
          refine ⟨rfl, nofun, fun _ => ⟨?_, rfl⟩, fun _ => Or.inr List.mem_concat_self⟩
          rw [chunks_concat, hnone]
          rfl
  | recvEnds hpc =>
      refine ⟨rfl, nofun, fun hmem => ?_, fun _ => Or.inl List.mem_concat_self⟩
      rw [List.mem_append, List.mem_singleton] at hmem
      have habort := (hu.aborted (hmem.resolve_right nofun)).2
      rw [hpc] at habort
      cases habort
  | recvGrows hpc _ _ _ => exact hu.receives hpc ⟨rfl, rfl, rfl⟩
  | recvFits hpc _ _ _ => exact hu.receives hpc (Handler.loops_accept _ _ _)
  | growFails hpc hre =>
      have hlive : h.pc.live = true := by rw [hpc]; rfl
      exact absurd rfl (realloc_ne_null (hs.newSize_ne_zero hpc) (hok.resolve_right nofun)
        (hs.owned_of_live hlive) hre)
  | grows hpc _ _ =>
      obtain ⟨hfail, hearly, hended⟩ := Handler.loops_accept _ _ _
      refine hu.next rfl nofun ?_
      rw [hpc, Pc.goesOn, hfail, hearly, hended]
      rfl
  | @ioctls request ok hpc =>
      obtain rfl : ok = true := hok.resolve_right nofun
      exact hu.next rfl nofun (by rw [hpc]; rfl)
  | locks hpc => exact hu.next rfl nofun (by rw [hpc]; rfl)
  | @appends pc pc' _ hpc hev =>
      refine hu.appendStep hpc hev (hok.resolve_right ?_)
      rcases appendPacket_event hev with ⟨ok, rfl⟩ | ⟨bytes, result, rfl⟩ | rfl <;> exact nofun
  | @appendReturns ok hpc =>
      rw [hpc] at hhealthy
      cases ok with
      | false => cases hhealthy
      | true => cases build <;> exact hu.next rfl nofun (by rw [hpc]; rfl)
  | @unlocks ok hpc =>
      rw [hpc] at hhealthy
      cases ok with
      | false => cases hhealthy
      | true => exact hu.next rfl nofun (by rw [hpc]; rfl)
  | resets hpc => exact hu.next rfl nofun (by rw [hpc]; rfl)
  | remallocFails hpc => exact absurd rfl (hok.resolve_right nofun)
  | @remallocs site answer junk hpc _ =>
      refine hu.next rfl nofun ?_
      rw [hpc]
      cases site <;> rfl
  | @replies site pc pc' _ hpc hev =>
      refine hu.replyStep hpc hev (hok.resolve_right ?_)
      rcases writeToClient_event hev with ⟨result, rfl⟩ | ⟨bytes, sent, rfl⟩ <;> exact nofun
  | @replyReturns site ok hpc =>
      rw [hpc] at hhealthy
      cases ok with
      | false => cases hhealthy
      | true =>
          refine hu.next rfl nofun ?_
          rw [hpc]
          cases site <;> rfl
  | closesDevice hpc => exact hu.next rfl nofun (by rw [hpc]; rfl)
  | freesLast hpc => exact hu.next rfl nofun (by rw [hpc]; rfl)
  | closesClient hpc => exact hu.next rfl nofun (by rw [hpc]; rfl)
  | @abortCloses allocated hpc =>
      refine hu.next rfl nofun ?_
      rw [hpc]
      cases allocated <;> rfl
  | abortFrees hpc => exact hu.next rfl nofun (by rw [hpc]; rfl)
  | setsDone hpc => exact hu.next rfl nofun (by rw [hpc]; rfl)

/-- So it is along every run without failures.
Source: `handler.c`, `handle_connection`
Kind: L -/
theorem undisturbed_of_run (hrun : handleConnection build events = some h)
    (hok : ∀ ev ∈ events, ev.Succeeds ∨ ev = .openDevice false) : Undisturbed events h := by
  refine run_induction
    (P := fun es t => (∀ ev ∈ es, ev.Succeeds ∨ ev = .openDevice false) → Undisturbed es t)
    (fun _ => ⟨rfl, fun _ => ⟨rfl, List.not_mem_nil⟩, fun h => absurd h List.not_mem_nil,
      by simp [Handler.start, Pc.ended]⟩) ?_ hrun hok
  intro es t ev t' hrun' ih hstep hok'
  rw [List.forall_mem_append, List.forall_mem_singleton] at hok'
  exact (ih hok'.1).step (sound_of_run hrun') (Handler.steps_of_step hstep) hok'.2

end undisturbed

/-! ### What is appended -/

/-- Who writes to the file.
Source: `handler.c`, `handle_connection`; `aesdsocket.c`, `alarm_handler`
Kind: D -/
inductive Writer where
  | conn (i : ℕ)
  | timer
  deriving DecidableEq

/-- The event of one connection.
Source: `handler.c`, `handle_connection`
Kind: D -/
def FileStep.ofConn (i : ℕ) : FileStep → Option Event
  | .conn j ev => if j = i then some ev else none
  | .alarm _ _ => none

/-- The events of one connection.
Source: `handler.c`, `handle_connection`
Kind: D -/
def connEvents (i : ℕ) (steps : List FileStep) : List Event := steps.filterMap (FileStep.ofConn i)

/-- The bytes that a step puts at the end of the file, with their writer.
Source: `aesdsocket.c`, `alarm_handler`
Kind: D -/
def FileStep.appended : FileStep → Option (Writer × List UInt8)
  | .conn i (.write bytes (some n)) => some (.conn i, bytes.take n)
  | .alarm _ (.dprintf date n) => some (.timer, (timestampLine date).take n)
  | _ => none

/-- Everything that was appended, in order.
Source: `handler.c`, `handle_connection`; `aesdsocket.c`, `alarm_handler`
Kind: D -/
def fileLog (steps : List FileStep) : List (Writer × List UInt8) :=
  steps.filterMap FileStep.appended

/-- The line that a step prints for the timer.
Source: `aesdsocket.c`, `alarm_handler`
Kind: D -/
def FileStep.timestamp : FileStep → Option (List UInt8)
  | .alarm _ (.dprintf date _) => some (timestampLine date)
  | _ => none

/-- The lines of the timer, in order.
Source: `aesdsocket.c`, `alarm_handler`
Kind: D -/
def timestamps (steps : List FileStep) : List (List UInt8) := steps.filterMap FileStep.timestamp

section runs

variable {s s' : FileServer} {t : FileStep} {steps : List FileStep} {file : Option (List UInt8)}
  {sent : ℕ → List UInt8}

/-- The event of one more step.
Source: none: infrastructure
Kind: L -/
theorem connEvents_concat (i : ℕ) (steps : List FileStep) (t : FileStep) :
    connEvents i (steps ++ [t]) = connEvents i steps ++ (t.ofConn i).toList :=
  filterMap_concat _ steps t

/-- **Every connection of the system runs as `handle_connection` does.**
Source: `handler.c`, `handle_connection`
Kind: P -/
theorem handleConnection_of_fileRun (hrun : fileRun file sent steps = some s) (i : ℕ) :
    handleConnection .dataFile (connEvents i steps) = some (s.conns i) := by
  refine run_filterMap (f := fun s => s.conns i) (g := FileStep.ofConn i) ?_ ?_ hrun
  · intro s t s' ev hstep hown
    cases t with
    | conn j ev' =>
        rw [FileStep.ofConn, Option.ite_none_right_eq_some] at hown
        obtain ⟨rfl, hev⟩ := hown
        cases hev
        obtain ⟨h, s₁, hh, hans, rfl⟩ := FileServer.step_conn hstep
        change _ = some (Function.update s₁.conns j h j)
        rw [Function.update_self]
        exact hh
    | alarm k ev' => cases hown
  · intro s t s' hstep hown
    cases t with
    | conn j ev' =>
        rw [FileStep.ofConn, ite_eq_right_iff] at hown
        have hne : i ≠ j := fun h => Option.some_ne_none _ (hown h.symm)
        obtain ⟨h, s₁, -, hans, rfl⟩ := FileServer.step_conn hstep
        change Function.update s₁.conns j h i = _
        rw [Function.update_of_ne hne, hans.frame.1]
    | alarm k ev' =>
        obtain ⟨pc, s₁, -, hans, rfl⟩ := FileServer.step_alarm hstep
        change s₁.conns i = _
        rw [hans.frame.1]

/-- Opening the file for appending leaves its bytes.
Source: `handler.c`, `append_packet`; `aesdsocket.c`, `alarm_handler`
Kind: L -/
theorem FileServer.openAppend_content (s : FileServer) (ok : Bool) :
    (s.openAppend ok).file.getD [] = s.file.getD [] := by cases ok <;> rfl

/-- And what the clients have still to deliver.
Source: `handler.c`, `append_packet`; `aesdsocket.c`, `alarm_handler`
Kind: L -/
theorem FileServer.openAppend_streams (s : FileServer) (ok : Bool) :
    (s.openAppend ok).streams = s.streams := by cases ok <;> rfl

/-- A step puts its bytes at the end of the file.
Source: `handler.c`, `handle_connection`; `aesdsocket.c`, `alarm_handler`
Kind: L -/
theorem FileServer.file_step (hstep : s.step t = some s') :
    s'.file.getD [] = s.file.getD [] ++ content t.appended.toList := by
  have happend : ∀ bytes, (s.append bytes).file.getD [] = s.file.getD [] ++ bytes := fun _ => rfl
  cases t with
  | conn i ev =>
      obtain ⟨h, s₁, -, hans, rfl⟩ := FileServer.step_conn hstep
      change s₁.file.getD [] = _
      cases hans with
      | opensAppend => simp [FileServer.openAppend_content, FileStep.appended, content]
      | writes hn => simp [happend, FileStep.appended, content]
      | idles hidle =>
          have hnone : (FileStep.conn i ev).appended = none := by
            cases ev with
            | write bytes result =>
                cases result with
                | none => rfl
                | some n => cases hidle
            | _ => rfl
          simp [hnone, content]
      | _ => simp [FileStep.appended, content]
  | alarm k ev =>
      obtain ⟨pc, s₁, -, hans, rfl⟩ := FileServer.step_alarm hstep
      change s₁.file.getD [] = _
      cases hans with
      | opensAppend => simp [FileServer.openAppend_content, FileStep.appended, content]
      | prints hn => simp [happend, FileStep.appended, content]
      | _ => simp [FileStep.appended, content]

/-- **The file holds what was appended**, in order and after what it held at the start.
Source: `handler.c`, `append_packet`; `aesdsocket.c`, `alarm_handler`
Kind: P -/
theorem file_eq_content (hrun : fileRun file sent steps = some s) :
    s.file.getD [] = file.getD [] ++ content (fileLog steps) := by
  refine run_induction (P := fun steps s =>
    s.file.getD [] = file.getD [] ++ content (fileLog steps)) (List.append_nil _).symm ?_ hrun
  intro steps s t s' _ ih hstep
  have hlog : fileLog (steps ++ [t]) = fileLog steps ++ t.appended.toList :=
    filterMap_concat _ steps t
  rw [FileServer.file_step hstep, ih, hlog, content_append, List.append_assoc]

/-- A connection takes what it receives from its stream.
Source: `handler.c`, `handle_connection`
Kind: L -/
theorem FileServer.streams_step (hstep : s.step t = some s') (i : ℕ) :
    ((t.ofConn i).bind Event.received).getD [] ++ s'.streams i = s.streams i := by
  cases t with
  | conn j ev =>
      obtain ⟨h, s₁, -, hans, rfl⟩ := FileServer.step_conn hstep
      change _ ++ s₁.streams i = _
      rw [FileStep.ofConn]
      cases hans with
      | @receives chunk hchunk =>
          change _ ++ Function.update s.streams j ((s.streams j).drop chunk.length) i = _
          by_cases hj : j = i
          · subst hj
            rw [if_pos rfl, Function.update_self]
            exact List.prefix_iff_eq_append.mp hchunk
          · rw [if_neg hj, Function.update_of_ne (Ne.symm hj)]
            rfl
      | opensAppend =>
          rw [FileServer.openAppend_streams]
          split_ifs <;> rfl
      | idles hidle =>
          have hnone : ev.received = none := by
            cases ev with
            | recv chunk =>
                cases chunk with
                | none => rfl
                | some chunk => cases hidle
            | _ => rfl
          split_ifs
          · rw [Option.bind_some, hnone]
            rfl
          · rfl
      | _ => split_ifs <;> rfl
  | alarm k ev =>
      obtain ⟨pc, s₁, -, hans, rfl⟩ := FileServer.step_alarm hstep
      change _ ++ s₁.streams i = _
      cases hans with
      | opensAppend =>
          rw [FileServer.openAppend_streams]
          rfl
      | _ => rfl

/-- What has been received and what has still to come are what the client sends.
Source: `handler.c`, `handle_connection`
Kind: L -/
theorem streams_of_run (hrun : fileRun file sent steps = some s) (i : ℕ) :
    (chunks (connEvents i steps)).flatten ++ s.streams i = sent i := by
  refine run_induction (P := fun steps s =>
    (chunks (connEvents i steps)).flatten ++ s.streams i = sent i) rfl ?_ hrun
  intro steps s t s' _ ih hstep
  rw [← ih, ← FileServer.streams_step hstep i, connEvents_concat, ← List.append_assoc]
  congr 1
  cases hof : t.ofConn i with
  | none => simp
  | some ev =>
      rw [Option.toList_some, chunks_concat, List.flatten_append, Option.bind_some]
      cases ev.received <;> simp

/-! ### When nothing fails -/

/-- No call fails, except that an open without `O_CREAT` fails when there is no file; writes are
complete, and a client's stream ends when all of it has been received.
Source: `aesdsocket.c`, `alarm_handler`; `handler.c`, `append_packet`
Kind: D -/
def FileStep.Succeeds (s : FileServer) : FileStep → Prop
  | .conn _ (.openDevice ok) => ok = s.file.isSome
  | .conn i (.recv none) => s.streams i = []
  | .conn _ (.read result) => result.isSome = true
  | .conn _ (.write bytes result) => result = some bytes.length
  | .conn _ ev => ev.Succeeds
  | .alarm _ (.openAppend ok) => ok = true
  | .alarm _ (.dprintf date n) => n = (timestampLine date).length
  | .alarm _ _ => True

/-- Whether a step succeeds is found in the state.
Source: none: infrastructure
Kind: D -/
instance decidableSucceeds (s : FileServer) : ∀ t : FileStep, Decidable (t.Succeeds s)
  | .conn _ (.openDevice ok) => inferInstanceAs (Decidable (ok = s.file.isSome))
  | .conn i (.recv none) => inferInstanceAs (Decidable (s.streams i = []))
  | .conn _ (.read result) => inferInstanceAs (Decidable (result.isSome = true))
  | .conn _ (.write bytes result) => inferInstanceAs (Decidable (result = some bytes.length))
  | .conn _ (.malloc answer _) | .conn _ (.realloc answer _) =>
      inferInstanceAs (Decidable (answer ≠ .fail))
  | .conn _ (.ioctl _ ok) | .conn _ (.openAppend ok) | .alarm _ (.openAppend ok) =>
      inferInstanceAs (Decidable (ok = true))
  | .conn _ (.send bytes sent) => inferInstanceAs (Decidable (sent = bytes.length))
  | .alarm _ (.dprintf date n) => inferInstanceAs (Decidable (n = (timestampLine date).length))
  | .conn _ (.recv (some _)) | .conn _ .free | .conn _ (.replyReturns _) | .conn _ .lock
  | .conn _ .unlock | .conn _ .closeAppend | .conn _ (.appendReturns _ _) | .conn _ .closeDevice
  | .conn _ .closeClient | .conn _ .setDone | .alarm _ .lock | .alarm _ .close
  | .alarm _ .unlock => inferInstanceAs (Decidable True)

/-- A connection that has something to send finds the file when it opens it.
Source: `handler.c`, `handle_connection`; `aesdsocket.c`, `alarm_handler`
Kind: D -/
def OpensPresent (sent : ℕ → List UInt8) (s : FileServer) : FileStep → Prop
  | .conn i (.openDevice _) => sent i ≠ [] → s.file.isSome = true
  | _ => True

/-- The stream is a sequence of newline-terminated packets.
Source: `handler.c`, `handle_connection`; `aesdsocket.c`, `alarm_handler`
Kind: D -/
def NewlineTerminated (stream : List UInt8) : Prop :=
  ∃ packets : List (List UInt8), stream = (packets.map (· ++ [newline])).flatten

/-- Nothing without a newline stands at the end of such a stream.
Source: none: infrastructure
Kind: L -/
theorem NewlineTerminated.eq_nil_of_append {stream u v : List UInt8}
    (hlines : NewlineTerminated stream) (hsplit : u ++ v = stream) (hfree : newline ∉ v) :
    v = [] := by
  obtain ⟨packets, rfl⟩ := hlines
  by_contra hne
  have hlast := congrArg List.getLast? hsplit
  rw [List.getLast?_append_of_ne_nil _ hne] at hlast
  rcases List.eq_nil_or_concat packets with rfl | ⟨init, last, rfl⟩
  · exact hne (List.append_eq_nil_iff.mp hsplit).2
  · have hnl : v.getLast? = some newline := hlast.trans (by simp)
    exact hfree (List.mem_of_getLast? hnl)

/-- Once all handlers have finished: cut where the appends end, the file is an interleaving of the
complete streams of the connections that were accepted and of the timer's lines.
Source: `handler.c`, `handle_connection`; `aesdsocket.c`, `alarm_handler`
Kind: D -/
def FileComplete (sent : ℕ → List UInt8) (steps : List FileStep) (s : FileServer) : Prop :=
  ∃ log : List (Writer × List UInt8), log.map Prod.snd = (fileLog steps).map Prod.snd ∧
    content log = s.file.getD [] ∧
    (∀ i, (s.conns i).pc = .finished → streamOf (.conn i) log = sent i) ∧
    (∀ i, connEvents i steps = [] → streamOf (.conn i) log = []) ∧
    piecesOf .timer log = timestamps steps

/-- A step that succeeds is an event that succeeds, but for the file that is not there.
Source: `handler.c`, `handle_connection`
Kind: L -/
theorem FileStep.Succeeds.event {i : ℕ} {ev : Event} (hok : (FileStep.conn i ev).Succeeds s) :
    ev.Succeeds ∨ ev = .openDevice false := by
  cases ev with
  | openDevice ok =>
      cases ok
      · exact Or.inr rfl
      · exact Or.inl rfl
  | recv chunk => exact Or.inl trivial
  | read result => exact Or.inl trivial
  | write bytes result =>
      obtain rfl : result = some bytes.length := hok
      exact Or.inl rfl
  | _ => exact Or.inl hok

section complete

variable (hrun : fileRun file sent steps = some s)
  (hok : Meets FileServer.step FileStep.Succeeds (.start file sent) steps)

include hrun hok

/-- So the events of a connection succeed when all steps do.
Source: `handler.c`, `handle_connection`; `aesdsocket.c`, `alarm_handler`
Kind: L -/
theorem events_succeed (i : ℕ) :
    ∀ ev ∈ connEvents i steps, ev.Succeeds ∨ ev = .openDevice false := by
  intro ev hev
  obtain ⟨t, ht, hof⟩ := List.mem_filterMap.mp hev
  obtain ⟨u, hu⟩ := hok.exists_state hrun ht
  cases t with
  | conn j ev' =>
      rw [FileStep.ofConn, Option.ite_none_right_eq_some] at hof
      cases hof.2
      exact hu.event
  | alarm k ev' => cases hof

/-- The pieces of a connection in the file are its payloads.
Source: `handler.c`, `handle_connection` and `append_packet`
Kind: L -/
theorem piecesOf_conn (i : ℕ) :
    piecesOf (.conn i) (fileLog steps) = (connEvents i steps).filterMap Event.written := by
  rw [fileLog, piecesOf_filterMap, connEvents, List.filterMap_filterMap]
  apply List.filterMap_congr
  intro t ht
  obtain ⟨u, hu⟩ := hok.exists_state hrun ht
  cases t with
  | conn j ev =>
      by_cases hj : j = i
      · subst hj
        cases ev with
        | write bytes result =>
            obtain rfl : result = some bytes.length := hu
            simp [FileStep.appended, FileStep.ofConn, Event.written]
        | _ => simp [FileStep.appended, FileStep.ofConn, Event.written]
      · cases ev with
        | write bytes result =>
            obtain rfl : result = some bytes.length := hu
            simp [FileStep.appended, FileStep.ofConn, hj]
        | _ => simp [FileStep.appended, FileStep.ofConn, hj]
  | alarm k ev => cases ev <;> simp [FileStep.appended, FileStep.ofConn]

/-- The pieces of the timer are whole lines.
Source: `aesdsocket.c`, `alarm_handler`
Kind: L -/
theorem piecesOf_timer : piecesOf .timer (fileLog steps) = timestamps steps := by
  rw [fileLog, piecesOf_filterMap, timestamps]
  apply List.filterMap_congr
  intro t ht
  obtain ⟨u, hu⟩ := hok.exists_state hrun ht
  cases t with
  | conn j ev =>
      cases ev with
      | write bytes result => cases result <;> simp [FileStep.appended, FileStep.timestamp]
      | _ => simp [FileStep.appended, FileStep.timestamp]
  | alarm k ev =>
      cases ev with
      | dprintf date n =>
          obtain rfl : n = (timestampLine date).length := hu
          simp [FileStep.appended, FileStep.timestamp]
      | _ => simp [FileStep.appended, FileStep.timestamp]

/-- After the end of its stream a connection has received all of it.
Source: `handler.c`, `handle_connection`
Kind: L -/
theorem streams_ended (i : ℕ) : Event.recv none ∈ connEvents i steps → s.streams i = [] := by
  refine run_induction (P := fun steps s =>
    Meets FileServer.step FileStep.Succeeds (.start file sent) steps →
      Event.recv none ∈ connEvents i steps → s.streams i = []) (fun _ h => nomatch h) ?_ hrun hok
  intro steps s t s' hrun' ih hstep hok' hmem
  rw [meets_concat] at hok'
  have hshrink := FileServer.streams_step hstep i
  have hnil : s.streams i = [] := by
    rw [connEvents_concat, List.mem_append] at hmem
    rcases hmem with hbefore | hnow
    · exact ih hok'.1 hbefore
    · have hsucc := hok'.2 s hrun'
      cases t with
      | conn j ev =>
          rw [FileStep.ofConn] at hnow
          split_ifs at hnow with hj
          · subst hj
            rw [Option.toList_some, List.mem_singleton] at hnow
            subst hnow
            exact hsucc
          · cases hnow
      | alarm k ev => cases hnow
  rw [hnil] at hshrink
  exact (List.append_eq_nil_iff.mp hshrink).2

/-- In the terms of the events: no connection with something to send fails to open.
Source: `handler.c`, `handle_connection`
Kind: L -/
theorem opensPresent_iff : Meets FileServer.step (OpensPresent sent) (.start file sent) steps ↔
    ∀ i, sent i ≠ [] → Event.openDevice false ∉ connEvents i steps := by
  refine run_induction (P := fun steps _ =>
    Meets FileServer.step FileStep.Succeeds (.start file sent) steps →
      (Meets FileServer.step (OpensPresent sent) (.start file sent) steps ↔
        ∀ i, sent i ≠ [] → Event.openDevice false ∉ connEvents i steps))
    (fun _ => iff_of_true trivial fun _ _ => List.not_mem_nil) ?_ hrun hok
  intro steps s t s' hrun' ih hstep hok'
  rw [meets_concat] at hok'
  have hsucc := hok'.2 s hrun'
  have hnow : OpensPresent sent s t ↔
      ∀ i, sent i ≠ [] → Event.openDevice false ∉ (t.ofConn i).toList := by
    cases t with
    | conn j ev =>
        cases ev with
        | openDevice ok =>
            obtain rfl : ok = s.file.isSome := hsucc
            constructor
            · intro hopen i hi hmem
              rw [FileStep.ofConn] at hmem
              split_ifs at hmem with hj
              · subst hj
                rw [hopen hi, Option.toList_some, List.mem_singleton] at hmem
                cases hmem
              · cases hmem
            · intro h hj
              have hnot := h j hj
              rw [FileStep.ofConn, if_pos rfl, Option.toList_some, List.mem_singleton] at hnot
              cases hfile : s.file.isSome
              · rw [hfile] at hnot
                exact absurd rfl hnot
              · rfl
        | _ =>
            refine iff_of_true trivial fun i _ => ?_
            rw [FileStep.ofConn]
            split_ifs <;> simp
    | alarm k ev => exact iff_of_true trivial fun i _ => List.not_mem_nil
  rw [meets_concat, ih hok'.1]
  constructor
  · rintro ⟨hbefore, hlast⟩ i hi hmem
    rw [connEvents_concat, List.mem_append] at hmem
    exact hmem.elim (hbefore i hi) (hnow.mp (hlast s hrun') i hi)
  · intro h
    refine ⟨fun i hi hmem => h i hi ?_, fun u hu => ?_⟩
    · rw [connEvents_concat]
      exact List.mem_append_left _ hmem
    · cases hrun'.symm.trans hu
      refine hnow.mpr fun i hi hmem => h i hi ?_
      rw [connEvents_concat]
      exact List.mem_append_right _ hmem

/-- A connection that has finished has appended all that its client sent, or it could not open the
file and has appended nothing.
Source: `handler.c`, `handle_connection`
Kind: L -/
theorem streamOf_finished {i : ℕ} (hlines : NewlineTerminated (sent i))
    (hno : NeverCommand [] (chunks (connEvents i steps))) (hend : (s.conns i).pc = .finished) :
    (Event.openDevice false ∉ connEvents i steps ∧ streamOf (.conn i) (fileLog steps) = sent i) ∨
    (Event.openDevice false ∈ connEvents i steps ∧ streamOf (.conn i) (fileLog steps) = []) := by
  have hconn := handleConnection_of_fileRun hrun i
  have hev := events_succeed hrun hok i
  have hu := undisturbed_of_run hconn hev
  have hwritten := records_of_run hconn hev (by rw [hend]; rfl) (by rw [hend]; rfl) hno
  obtain ⟨runs, rest, htiles⟩ := Records.exists_tiles newline (chunks (connEvents i steps))
  have hsum := htiles.conserved
  have hfree := htiles.pending_free
  rw [← hwritten, ← piecesOf_conn hrun hok i] at hsum
  change streamOf (.conn i) (fileLog steps) ++ _ = _ at hsum
  by_cases hopen : Event.openDevice false ∈ connEvents i steps
  · rw [(hu.aborted hopen).1, List.flatten_nil] at hsum
    exact Or.inr ⟨hopen, (List.append_eq_nil_iff.mp hsum).1⟩
  · refine Or.inl ⟨hopen, ?_⟩
    have hall := streams_of_run hrun i
    have hrecv := (hu.ended (by rw [hend]; rfl)).resolve_right hopen
    rw [streams_ended hrun hok i hrecv, List.append_nil] at hall
    rw [hall] at hsum
    -- the stream ends with a newline, and what is kept of it holds none
    rw [hlines.eq_nil_of_append hsum hfree, List.append_nil] at hsum
    exact hsum

end complete

/-- **The data file is complete exactly when it was there in time.** From a missing file, for any
interleaving of connections, each with newline-terminated packets that make no seek command, and of
timer ticks, when no call fails except that an open without `O_CREAT` fails when there is no file:
once all handlers have finished, the file is an interleaving of the complete streams of all
connections and of whole timestamp lines exactly when the file was there at the open of every
connection that has something to send.
Source: `handler.c`, `handle_connection` and `append_packet`; `aesdsocket.c`, `alarm_handler`
Kind: P -/
theorem file_complete_iff (hrun : fileRun none sent steps = some s)
    (hok : Meets FileServer.step FileStep.Succeeds (.start none sent) steps)
    (hlines : ∀ i, NewlineTerminated (sent i))
    (hno : ∀ i, NeverCommand [] (chunks (connEvents i steps)))
    (hend : ∀ i, connEvents i steps = [] ∨ (s.conns i).pc = .finished) :
    FileComplete sent steps s ↔
      Meets FileServer.step (OpensPresent sent) (.start none sent) steps := by
  rw [opensPresent_iff hrun hok]
  have hfile : content (fileLog steps) = s.file.getD [] := (file_eq_content hrun).symm
  have hidle : ∀ i, connEvents i steps = [] → streamOf (.conn i) (fileLog steps) = [] := by
    intro i hnone
    rw [streamOf, piecesOf_conn hrun hok i, hnone]
    rfl
  constructor
  · rintro ⟨log, -, hcontent, hconns, hnone, htimer⟩ i hi hopen
    have hle : ∀ w, (streamOf w (fileLog steps)).length ≤ (streamOf w log).length := by
      intro w
      cases w with
      | timer => rw [streamOf, streamOf, piecesOf_timer hrun hok, htimer]
      | conn j =>
          rcases hend j with hj | hj
          · rw [hidle j hj, hnone j hj]
          · rcases streamOf_finished hrun hok (hlines j) (hno j) hj with ⟨-, hall⟩ | ⟨-, hnil⟩
            · rw [hall, hconns j hj]
            · rw [hnil]
              exact Nat.zero_le _
    have hlen := length_eq_of_content (hfile.trans hcontent.symm) hle (.conn i)
    rcases hend i with hi' | hi'
    · rw [hi'] at hopen
      cases hopen
    · rcases streamOf_finished hrun hok (hlines i) (hno i) hi' with ⟨hno', -⟩ | ⟨-, hnil⟩
      · exact hno' hopen
      · rw [hnil, hconns i hi', List.length_nil] at hlen
        exact hi (List.length_eq_zero_iff.mp hlen.symm)
  · intro hopens
    refine ⟨fileLog steps, rfl, hfile, fun i hi => ?_, hidle, piecesOf_timer hrun hok⟩
    rcases streamOf_finished hrun hok (hlines i) (hno i) hi with ⟨-, hall⟩ | ⟨hopen, hnil⟩
    · exact hall
    · rw [hnil]
      by_contra hne
      exact hopens i (Ne.symm hne) hopen

/-- One client, on connection zero, sends `"a\n"`.
Source: `handler.c`, `handle_connection`; `aesdsocket.c`, `alarm_handler`
Kind: D -/
def oneLine (i : ℕ) : List UInt8 := if i = 0 then [97, 10] else []

/-- Each client sends one line.
Source: `handler.c`, `handle_connection`; `aesdsocket.c`, `alarm_handler`
Kind: L -/
theorem newlineTerminated_oneLine (i : ℕ) : NewlineTerminated (oneLine i) := by
  by_cases hi : i = 0
  · exact ⟨[[97]], by rw [oneLine, if_pos hi]; rfl⟩
  · exact ⟨[], by rw [oneLine, if_neg hi]; rfl⟩

/-- A connection from its unlock to its end, with a reply of one piece.
Source: `handler.c`, `handle_connection`; `aesdsocket.c`, `alarm_handler`
Kind: D -/
def replyAndFinish (i : ℕ) (piece : List UInt8) : List FileStep :=
  [.conn i .free, .conn i (.malloc .moved fun _ => 0), .conn i (.read (some piece)),
    .conn i (.send piece piece.length), .conn i (.read (some [])), .conn i (.replyReturns true),
    .conn i (.recv none), .conn i .closeDevice, .conn i .free, .conn i .closeClient,
    .conn i .setDone]

/-- A connection that finds no file.
Source: `handler.c`, `handle_connection`; `aesdsocket.c`, `alarm_handler`
Kind: D -/
def refused (i : ℕ) : List FileStep :=
  [.conn i (.malloc .moved fun _ => 0), .conn i (.openDevice false), .conn i .closeClient,
    .conn i .free, .conn i .setDone]

/-- A tick creates the file, then the line of the client is appended and sent back.
Source: `handler.c`, `handle_connection`; `aesdsocket.c`, `alarm_handler`
Kind: D -/
def tickThenLine : List FileStep :=
  tick 0 [] ++ arriveAndLock 0 [97, 10] ++ appendAndUnlock 0 [97, 10] ++
    replyAndFinish 0 (timestampLine [] ++ [97, 10])

/-- After a tick the client's line is kept.
Source: `handler.c`, `handle_connection`; `aesdsocket.c`, `alarm_handler`
Kind: N+ -/
theorem file_complete_after_tick : ∃ s, fileRun none oneLine tickThenLine = some s ∧
    FileComplete oneLine tickThenLine s := by
  obtain ⟨s, hs, hpc⟩ := Option.map_eq_some_iff.mp (show (fileRun none oneLine tickThenLine).map
    (fun s => (s.conns 0).pc) = some .finished by decide +kernel)
  have hok : Meets FileServer.step FileStep.Succeeds (.start none oneLine) tickThenLine := by
    decide +kernel
  have hothers : ∀ i, i ≠ 0 → connEvents i tickThenLine = [] := by
    intro i hi
    simp [connEvents, tickThenLine, tick, arriveAndLock, appendAndUnlock, replyAndFinish,
      FileStep.ofConn, hi.symm]
  refine ⟨s, hs, (file_complete_iff hs hok newlineTerminated_oneLine ?_ ?_).mpr
    ((opensPresent_iff hs hok).mpr ?_)⟩
  · intro i
    by_cases hi : i = 0
    · subst hi
      decide +kernel
    · rw [hothers i hi]
      trivial
  · intro i
    by_cases hi : i = 0
    · subst hi
      exact Or.inr hpc
    · exact Or.inl (hothers i hi)
  · intro i hi
    have hzero : i = 0 := by
      by_contra hne
      exact hi (if_neg hne)
    subst hzero
    simp [connEvents, tickThenLine, tick, arriveAndLock, appendAndUnlock, replyAndFinish,
      FileStep.ofConn]

/-- The line of a client that comes before the first tick is lost.
Source: `handler.c`, `handle_connection`
Kind: N− -/
theorem file_incomplete_before_tick :
    ¬ ∀ sent steps s, fileRun none sent steps = some s →
      Meets FileServer.step FileStep.Succeeds (.start none sent) steps →
      (∀ i, NewlineTerminated (sent i)) →
      (∀ i, NeverCommand [] (chunks (connEvents i steps))) →
      (∀ i, connEvents i steps = [] ∨ (s.conns i).pc = .finished) → FileComplete sent steps s := by
  intro h
  obtain ⟨s, hs, hpc⟩ := Option.map_eq_some_iff.mp (show (fileRun none oneLine (refused 0)).map
    (fun s => (s.conns 0).pc) = some .finished by decide +kernel)
  have hothers : ∀ i, i ≠ 0 → connEvents i (refused 0) = [] := by
    intro i hi
    simp [connEvents, refused, FileStep.ofConn, hi.symm]
  obtain ⟨log, hpieces, -, hconns, -, -⟩ := h oneLine (refused 0) s hs (by decide +kernel)
    newlineTerminated_oneLine
    (fun i => by
      by_cases hi : i = 0
      · subst hi
        decide +kernel
      · rw [hothers i hi]
        trivial)
    (fun i => by
      by_cases hi : i = 0
      · subst hi
        exact Or.inr hpc
      · exact Or.inl (hothers i hi))
  have hnil : log = [] := List.map_eq_nil_iff.mp (hpieces.trans rfl)
  have hline := hconns 0 hpc
  rw [hnil] at hline
  exact absurd hline (by decide)

end runs

end Aesd.Server
