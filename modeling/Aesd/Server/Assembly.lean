import Aesd.Server.Buffer

/-!
# Assembling packets

What the handler makes of the chunks it receives, as a function of the chunks alone: `receive`
adds one to the bytes kept and says which action on the device that asks for, and `assemble` is a
whole connection. `handleConnection` refines it: as long as no call fails, the appends and seeks of
a run are those of `assemble` (`actions_of_run`), and every sequence of chunks has a run
(`exists_run`).
-/

namespace Aesd.Server

open Aesd.Lib Aesd.Driver

/-! ### The assembler -/

/-- An action of the server on the device.
Source: `handler.c`, `handle_connection`
Kind: D -/
inductive Action where
  | append (payload : List UInt8)
  | seek (request : AesdSeekto)
  deriving DecidableEq

/-- What is asked for by the bytes kept and one more chunk, and the bytes kept after it.
Source: `handler.c`, `handle_connection`
Kind: D -/
def receive (kept chunk : List UInt8) : Option Action × List UInt8 :=
  if seekto <+: kept ++ chunk then
    ((seekRequest ((kept ++ chunk).drop 19)).map .seek, [])
  else if newline ∈ kept ++ chunk then (some (.append (kept ++ chunk)), [])
  else (none, kept ++ chunk)

/-- The actions for a sequence of chunks.
Source: `handler.c`, `handle_connection`
Kind: D -/
def assemble (kept : List UInt8) : List (List UInt8) → List Action
  | [] => []
  | chunk :: chunks => (receive kept chunk).1.toList ++ assemble (receive kept chunk).2 chunks

/-- The bytes kept after a sequence of chunks.
Source: `handler.c`, `handle_connection`
Kind: D -/
def remainder (kept : List UInt8) (chunks : List (List UInt8)) : List UInt8 :=
  chunks.foldl (fun kept chunk => (receive kept chunk).2) kept

/-- More chunks go on with what the first ones have left.
Source: none: infrastructure
Kind: L -/
theorem assemble_append (kept : List UInt8) (chunks chunks' : List (List UInt8)) :
    assemble kept (chunks ++ chunks') =
      assemble kept chunks ++ assemble (remainder kept chunks) chunks' := by
  induction chunks generalizing kept with
  | nil => rfl
  | cons chunk chunks ih => rw [List.cons_append, assemble, ih, assemble, List.append_assoc]; rfl

/-- What more chunks leave of what the first ones have left.
Source: none: infrastructure
Kind: L -/
theorem remainder_append (kept : List UInt8) (chunks chunks' : List (List UInt8)) :
    remainder kept (chunks ++ chunks') = remainder (remainder kept chunks) chunks' :=
  List.foldl_append

/-- What one more chunk completes.
Source: none: infrastructure
Kind: L -/
theorem assemble_concat (kept : List UInt8) (chunks : List (List UInt8)) (chunk : List UInt8) :
    assemble kept (chunks ++ [chunk]) =
      assemble kept chunks ++ (receive (remainder kept chunks) chunk).1.toList := by
  rw [assemble_append, assemble, assemble, List.append_nil]

/-- What one more chunk leaves.
Source: none: infrastructure
Kind: L -/
theorem remainder_concat (kept : List UInt8) (chunks : List (List UInt8)) (chunk : List UInt8) :
    remainder kept (chunks ++ [chunk]) = (receive (remainder kept chunks) chunk).2 := by
  rw [remainder_append]
  rfl

/-! ### What a run does -/

/-- The action on the device an event is.
Source: `handler.c`, `handle_connection`
Kind: D -/
def Event.action : Event → Option Action
  | .write bytes _ => some (.append bytes)
  | .ioctl request _ => some (.seek request)
  | _ => none

/-- The chunk an event delivers.
Source: `handler.c`, `handle_connection`
Kind: D -/
def Event.received : Event → Option (List UInt8)
  | .recv chunk => chunk
  | _ => none

/-- The actions on the device, in order.
Source: `handler.c`, `handle_connection`
Kind: D -/
def deviceActions (events : List Event) : List Action := events.filterMap Event.action

/-- The chunks received, in order.
Source: `handler.c`, `handle_connection`
Kind: D -/
def chunks (events : List Event) : List (List UInt8) := events.filterMap Event.received

/-- The action that is about to be performed at a place, with the bytes stored.
Source: `handler.c`, `handle_connection`
Kind: D -/
def Pc.owed (data : List UInt8) : Pc → List Action
  | .ioctl request => [.seek request]
  | .lock | .append .openFile | .append .write => [.append data]
  | _ => []

/-- The chunk that has been received and not yet stored.
Source: `handler.c`, `handle_connection`
Kind: D -/
def Pc.unstored : Pc → List (List UInt8)
  | .grow chunk => [chunk]
  | _ => []

/-- What is kept of the bytes stored for the next packet.
Source: `handler.c`, `handle_connection`
Kind: D -/
def Pc.kept (data : List UInt8) : Pc → List UInt8
  | .recv | .grow _ => data
  | _ => []

/-- The places after the loop.
Source: `handler.c`, `handle_connection`
Kind: D -/
def Pc.ended : Pc → Bool
  | .closeDevice | .freeLast | .closeClient | .abortClose _ | .abortFree | .setDone
  | .finished => true
  | _ => false

/-- The places between a new buffer and the next `recv`.
Source: `handler.c`, `handle_connection` and `write_to_client`
Kind: D -/
def Pc.renewed : Pc → Bool
  | .openDevice | .reply .afterPacket _ => true
  | _ => false

/-- The handler has done, and is about to do, what the chunks ask for.
Source: `handler.c`, `handle_connection`
Kind: D -/
structure Follows (events : List Event) (h : Handler) : Prop where
  stored : ∃ cs, chunks events = cs ++ h.pc.unstored ∧
    assemble [] cs = deviceActions events ++ h.pc.owed h.data ∧
    (h.pc.ended = true ∨ remainder [] cs = h.pc.kept h.data)
  renewed : h.pc.renewed = true → h.dataLen = 0

section follows

variable {build : Build} {h h' : Handler} {ev : Event} {events : List Event} {chunk : List UInt8}
  {cs : List (List UInt8)}

/-- The chunk of one more event.
Source: none: infrastructure
Kind: L -/
theorem chunks_concat (events : List Event) (ev : Event) :
    chunks (events ++ [ev]) = chunks events ++ ev.received.toList :=
  filterMap_concat Event.received events ev

/-- The action of one more event.
Source: none: infrastructure
Kind: L -/
theorem deviceActions_concat (events : List Event) (ev : Event) :
    deviceActions (events ++ [ev]) = deviceActions events ++ ev.action.toList :=
  filterMap_concat Event.action events ev

/-- A buffer of length zero holds no data.
Source: `handler.c`, `handle_connection`
Kind: L -/
theorem Handler.data_eq_nil (hlen : h.dataLen = 0) : h.data = [] := by
  rw [Handler.data, hlen, List.take_zero]

/-- A step that receives nothing, and performs what is owed unless it still owes it.
Source: `handler.c`, `handle_connection`
Kind: L -/
theorem Follows.next (hf : Follows events h) (hrec : ev.received = none)
    (hun : h'.pc.unstored = h.pc.unstored)
    (howed : h.pc.owed h.data = ev.action.toList ++ h'.pc.owed h'.data)
    (hkept : h'.pc.ended = true ∨ h.pc.ended = false ∧ h'.pc.kept h'.data = h.pc.kept h.data)
    (hren : h'.pc.renewed = true → h'.dataLen = 0) : Follows (events ++ [ev]) h' := by
  obtain ⟨cs, hcs, hacts, hrest⟩ := hf.stored
  refine ⟨⟨cs, ?_, ?_, ?_⟩, hren⟩
  · rw [chunks_concat, hrec, hun, hcs, Option.toList_none, List.append_nil]
  · rw [deviceActions_concat, hacts, howed, List.append_assoc]
  · rcases hkept with hend | ⟨hgoing, hsame⟩
    · exact Or.inl hend
    · rcases hrest with hend | hkeeps
      · rw [hgoing] at hend
        cases hend
      · exact Or.inr (hkeeps.trans hsame.symm)

/-- A step of this kind that changes nothing but the place.
Source: `handler.c`, `handle_connection`
Kind: L -/
theorem Follows.setPc (hf : Follows events h) {pc pc' : Pc} (hpc : h.pc = pc)
    (hrec : ev.received = none) (hun : pc'.unstored = pc.unstored)
    (howed : pc.owed h.data = ev.action.toList ++ pc'.owed h.data)
    (hkept : pc'.ended = true ∨ pc.ended = false ∧ pc'.kept h.data = pc.kept h.data)
    (hren : (pc.renewed || !pc'.renewed) = true) :
    Follows (events ++ [ev]) { h with pc := pc' } := by
  subst hpc
  refine hf.next hrec hun howed hkept fun h' => hf.renewed ?_
  have hnew : pc'.renewed = true := h'
  rw [hnew, Bool.not_true, Bool.or_false] at hren
  exact hren

/-- What a handler that accepts a chunk owes and keeps is what the assembler says.
Source: `handler.c`, `handle_connection`
Kind: L -/
theorem Handler.accept_receive (build : Build) (ho : h.heap.Owned [h.dataBuffer]) (hr : h.Roomy)
    (hle : chunk.length ≤ 1023) {pc : Pc} {data : List UInt8}
    (hpc : (h.accept build chunk).pc = pc) (hdata : (h.accept build chunk).data = data) :
    pc.unstored = [] ∧ pc.renewed = false ∧ pc.owed data = (receive h.data chunk).1.toList ∧
      pc.kept data = (receive h.data chunk).2 := by
  have hstore : (h.store chunk).data = h.data ++ chunk := data_store ho hr hle
  have hmem := memory_store_eq ho hr chunk
  rw [← hstore] at hmem
  change (h.store chunk).data = data at hdata
  change (h.store chunk).dispatch build = pc at hpc
  rw [dispatch_eq hmem, hstore] at hpc
  rw [hstore] at hdata
  subst hdata hpc
  unfold receive
  by_cases hseek : seekto <+: h.data ++ chunk
  · rw [if_pos hseek, if_pos hseek]
    cases seekRequest ((h.data ++ chunk).drop 19) with
    | none => exact ⟨rfl, rfl, rfl, rfl⟩
    | some request => exact ⟨rfl, rfl, rfl, rfl⟩
  · rw [if_neg hseek, if_neg hseek]
    by_cases hnl : newline ∈ h.data ++ chunk
    · rw [if_pos hnl, if_pos hnl]
      cases build <;> exact ⟨rfl, rfl, rfl, rfl⟩
    · rw [if_neg hnl, if_neg hnl]
      exact ⟨rfl, rfl, rfl, rfl⟩

/-- The last chunk received is accepted.
Source: `handler.c`, `handle_connection`
Kind: L -/
theorem follows_accept (build : Build) (ho : h.heap.Owned [h.dataBuffer]) (hr : h.Roomy)
    (hle : chunk.length ≤ 1023) (hcs : chunks events = cs ++ [chunk])
    (hacts : assemble [] cs = deviceActions events) (hrest : remainder [] cs = h.data) :
    Follows events (h.accept build chunk) := by
  obtain ⟨hun, hren, howed, hkept⟩ := Handler.accept_receive build ho hr hle rfl rfl
  refine ⟨⟨cs ++ [chunk], ?_, ?_, Or.inr ?_⟩, ?_⟩
  · rw [hun, hcs, List.append_nil]
  · rw [assemble_concat, hrest, hacts, howed]
  · rw [remainder_concat, hrest, hkept]
  · intro h
    rw [hren] at h
    cases h

/-- The steps of `append_packet`: the `write` performs what is owed.
Source: `handler.c`, `handle_connection` and `append_packet`
Kind: L -/
theorem Follows.appendStep (hf : Follows events h) {pc pc' : AppendPc} (hpc : h.pc = .append pc)
    (hev : appendPacket h.data pc ev = some pc') (hok : ev.Succeeds) :
    Follows (events ++ [ev]) { h with pc := .append pc' } := by
  unfold appendPacket at hev
  split at hev
  · rename_i ok
    obtain rfl : ok = true := hok
    cases hev
    exact hf.setPc hpc rfl rfl rfl (Or.inr ⟨rfl, rfl⟩) rfl
  · rename_i bytes result
    rw [Option.ite_none_right_eq_some] at hev
    obtain ⟨rfl, hev⟩ := hev
    cases hev
    exact hf.setPc hpc rfl rfl rfl (Or.inr ⟨rfl, rfl⟩) rfl
  · cases hev
    exact hf.setPc hpc rfl rfl rfl (Or.inr ⟨rfl, rfl⟩) rfl
  · cases hev

/-- The steps of `write_to_client` receive nothing and perform nothing.
Source: `handler.c`, `handle_connection` and `write_to_client`
Kind: L -/
theorem writeToClient_idle {pc pc' : ReplyPc} (hev : writeToClient pc ev = some pc') :
    ev.received = none ∧ ev.action = none := by
  rcases writeToClient_event hev with ⟨result, rfl⟩ | ⟨bytes, sent, rfl⟩
  · exact ⟨rfl, rfl⟩
  · exact ⟨rfl, rfl⟩

/-- **Every step that does not fail follows the chunks.**
Source: `handler.c`, `handle_connection`
Kind: P -/
theorem Follows.step (hf : Follows events h) (hs : h.Sound) (hstep : h.Steps build ev h')
    (hok : ev.Succeeds) : Follows (events ++ [ev]) h' := by
  cases hstep with
  | mallocFails hpc => exact absurd rfl hok
  | mallocs hpc _ =>
      refine hf.next rfl ?_ ?_ (Or.inr ?_) fun _ => rfl <;> rw [hpc]
      · rfl
      · rfl
      · exact ⟨rfl, rfl⟩
  | @opens ok hpc =>
      obtain rfl : ok = true := hok
      have hnil := Handler.data_eq_nil (hf.renewed (by rw [hpc]; rfl))
      exact hf.setPc hpc rfl rfl rfl (Or.inr ⟨rfl, hnil⟩) rfl
  | recvEnds hpc => exact hf.setPc hpc rfl rfl rfl (Or.inl rfl) rfl
  | @recvGrows chunk hpc hne hle hlarge =>
      obtain ⟨cs, hcs, hacts, hrest⟩ := hf.stored
      rw [hpc] at hcs hacts hrest
      refine ⟨⟨cs, ?_, ?_, hrest⟩, by simp [Pc.renewed]⟩
      · rw [chunks_concat, hcs, List.append_assoc]
        rfl
      · rw [deviceActions_concat, hacts, List.append_assoc]
        rfl
  | @recvFits chunk hpc hne hle hfits =>
      obtain ⟨cs, hcs, hacts, hrest⟩ := hf.stored
      have hlive : h.pc.live = true := by rw [hpc]; rfl
      rw [hpc] at hcs hacts hrest
      refine follows_accept build (hs.owned_of_live hlive) (hs.roomy hlive) hle ?_ ?_
        (hrest.resolve_left (by simp [Pc.ended]))
      · rw [chunks_concat, hcs, List.append_assoc]
        rfl
      · rw [deviceActions_concat, hacts]
        rfl
  | @growFails chunk answer junk heap hpc hre =>
      have hlive : h.pc.live = true := by rw [hpc]; rfl
      exact absurd rfl
        (realloc_ne_null (hs.newSize_ne_zero hpc) hok (hs.owned_of_live hlive) hre)
  | @grows chunk answer junk p heap hpc hre hp =>
      obtain ⟨cs, hcs, hacts, hrest⟩ := hf.stored
      rw [hpc] at hcs hacts hrest
      obtain ⟨ho₁, hr₁, hdata, -, -⟩ := hs.grown hpc hre hp
      refine follows_accept build ho₁ hr₁ (hs.growing chunk hpc).2.1 ?_ ?_
        ((hrest.resolve_left (by simp [Pc.ended])).trans hdata.symm)
      · rw [chunks_concat, hcs, List.append_assoc]
        rfl
      · rw [deviceActions_concat, hacts]
        rfl
  | @ioctls request ok hpc =>
      obtain rfl : ok = true := hok
      exact hf.setPc hpc rfl rfl rfl (Or.inr ⟨rfl, rfl⟩) rfl
  | locks hpc => exact hf.setPc hpc rfl rfl rfl (Or.inr ⟨rfl, rfl⟩) rfl
  | appends hpc hev => exact hf.appendStep hpc hev hok
  | @appendReturns ok hpc =>
      cases build <;> cases ok
      · exact hf.setPc hpc rfl rfl rfl (Or.inl rfl) rfl
      · exact hf.setPc hpc rfl rfl rfl (Or.inr ⟨rfl, rfl⟩) rfl
      · exact hf.setPc hpc rfl rfl rfl (Or.inr ⟨rfl, rfl⟩) rfl
      · exact hf.setPc hpc rfl rfl rfl (Or.inr ⟨rfl, rfl⟩) rfl
  | @unlocks ok hpc =>
      cases ok
      · exact hf.setPc hpc rfl rfl rfl (Or.inl rfl) rfl
      · exact hf.setPc hpc rfl rfl rfl (Or.inr ⟨rfl, rfl⟩) rfl
  | resets hpc =>
      refine hf.next rfl ?_ ?_ (Or.inr ?_) fun _ => rfl <;> rw [hpc]
      · rfl
      · rfl
      · exact ⟨rfl, rfl⟩
  | remallocFails hpc => exact absurd rfl hok
  | @remallocs site answer junk hpc _ =>
      have hzero := hs.emptied site hpc
      refine hf.next rfl ?_ ?_ (Or.inr ?_) fun _ => hzero <;> rw [hpc] <;> cases site
      · rfl
      · rfl
      · rfl
      · rfl
      · exact ⟨rfl, Handler.data_eq_nil hzero⟩
      · exact ⟨rfl, rfl⟩
  | @replies site pc pc' ev hpc hev =>
      obtain ⟨hrec, hact⟩ := writeToClient_idle hev
      refine hf.setPc hpc hrec rfl ?_ (Or.inr ⟨rfl, rfl⟩) (by cases site <;> rfl)
      rw [hact]
      rfl
  | @replyReturns site ok hpc =>
      cases ok
      · exact hf.setPc hpc rfl rfl rfl (Or.inl rfl) (by cases site <;> rfl)
      · cases site
        · exact hf.setPc hpc rfl rfl rfl (Or.inr ⟨rfl, rfl⟩) rfl
        · have hnil := Handler.data_eq_nil (hf.renewed (by rw [hpc]; rfl))
          exact hf.setPc hpc rfl rfl rfl (Or.inr ⟨rfl, hnil⟩) rfl
  | closesDevice hpc => exact hf.setPc hpc rfl rfl rfl (Or.inl rfl) rfl
  | freesLast hpc =>
      refine hf.next rfl ?_ ?_ (Or.inl rfl) (by simp [Pc.renewed]) <;> rw [hpc] <;> rfl
  | closesClient hpc => exact hf.setPc hpc rfl rfl rfl (Or.inl rfl) rfl
  | @abortCloses allocated hpc =>
      cases allocated <;> exact hf.setPc hpc rfl rfl rfl (Or.inl rfl) rfl
  | abortFrees hpc =>
      refine hf.next rfl ?_ ?_ (Or.inl rfl) (by simp [Pc.renewed]) <;> rw [hpc] <;> rfl
  | setsDone hpc => exact hf.setPc hpc rfl rfl rfl (Or.inl rfl) rfl

/-- At the start nothing was received and nothing done.
Source: `handler.c`, `handle_connection`
Kind: L -/
theorem follows_start : Follows [] .start :=
  ⟨⟨[], rfl, rfl, Or.inr rfl⟩, by simp [Handler.start, Pc.renewed]⟩

/-- A failed open of the device ends the connection before anything is received.
Source: `handler.c`, `handle_connection`
Kind: L -/
theorem Follows.aborts (hf : Follows events h) (hstep : h.Steps build (.openDevice false) h') :
    Follows (events ++ [.openDevice false]) h' := by
  cases hstep with
  | opens hpc => exact hf.setPc hpc rfl rfl rfl (Or.inl rfl) rfl
  | @appends pc pc' _ hpc hev => cases pc <;> cases hev
  | @replies site pc pc' _ hpc hev => cases pc <;> cases hev

/-- What a run does follows the chunks, when nothing fails but, perhaps, the open of the device.
Source: `handler.c`, `handle_connection`
Kind: L -/
theorem follows_of_run (hrun : handleConnection build events = some h)
    (hok : ∀ ev ∈ events, ev.Succeeds ∨ ev = .openDevice false) : Follows events h := by
  refine run_induction
    (P := fun es t => (∀ ev ∈ es, ev.Succeeds ∨ ev = .openDevice false) → Follows es t)
    (fun _ => follows_start) ?_ hrun hok
  intro es t ev t' hrun' ih hstep hok'
  rw [List.forall_mem_append, List.forall_mem_singleton] at hok'
  have hsteps := Handler.steps_of_step hstep
  rcases hok'.2 with hsucc | rfl
  · exact (ih hok'.1).step (sound_of_run hrun') hsteps hsucc
  · exact (ih hok'.1).aborts hsteps

/-- **The actions of a connection are those of the assembler**, when nothing fails.
Source: `handler.c`, `handle_connection`
Kind: P -/
theorem actions_of_run (hrun : handleConnection build events = some h)
    (hok : ∀ ev ∈ events, ev.Succeeds) (hend : h.pc = .finished) :
    deviceActions events = assemble [] (chunks events) := by
  obtain ⟨cs, hcs, hacts, -⟩ := (follows_of_run hrun fun ev hev => Or.inl (hok ev hev)).stored
  rw [hend] at hcs hacts
  rw [hcs, show Pc.unstored .finished = [] from rfl, List.append_nil, hacts]
  exact (List.append_nil _).symm

end follows

/-! ### Every sequence of chunks has a run -/

/-- The handler can go from one state to the other with no failure while it receives the chunks.
Source: `handler.c`, `handle_connection`
Kind: D -/
def Handles (build : Build) (cs : List (List UInt8)) (h h' : Handler) : Prop :=
  ∃ events, run (Handler.step build) h events = some h' ∧ (∀ ev ∈ events, ev.Succeeds) ∧
    chunks events = cs

section handles

variable {build : Build} {h h' h'' : Handler} {chunk : List UInt8}
  {cs cs' : List (List UInt8)}

/-- One event that succeeds.
Source: `handler.c`, `handle_connection`
Kind: L -/
theorem Handles.one (ev : Event) (hstep : h.step build ev = some h') (hok : ev.Succeeds)
    (hcs : ev.received.toList = cs) : Handles build cs h h' := by
  refine ⟨[ev], run_cons.mpr ⟨h', hstep, rfl⟩, by simpa using hok, ?_⟩
  rw [← hcs]
  exact chunks_concat [] ev

/-- Chunks are handled one after another.
Source: `handler.c`, `handle_connection`
Kind: L -/
theorem Handles.trans (h₁ : Handles build cs h h') (h₂ : Handles build cs' h' h'') :
    Handles build (cs ++ cs') h h'' := by
  obtain ⟨events, hrun, hok, hcs⟩ := h₁
  obtain ⟨events', hrun', hok', hcs'⟩ := h₂
  refine ⟨events ++ events', run_append.mpr ⟨h', hrun, hrun'⟩, ?_, ?_⟩
  · rw [List.forall_mem_append]
    exact ⟨hok, hok'⟩
  · rw [← hcs, ← hcs']
    exact List.filterMap_append

/-- The buffer is reset when memory is there.
Source: `handler.c`, `handle_connection`
Kind: L -/
theorem handles_reset (build : Build) {site : ReplySite} (hpc : h.pc = .reset site) :
    ∃ h', Handles build [] h h' ∧ h'.pc = site.afterReset ∧ h'.dataLen = 0 := by
  have hfree : Handles build [] h
      { h with heap := h.heap.free h.dataBuffer, dataLen := 0, pc := .remalloc site } :=
    .one .free (by simp only [Handler.step, hpc]) trivial rfl
  refine ⟨_, hfree.trans (.one (.malloc .moved fun _ => 0) rfl (by decide) rfl), rfl, rfl⟩

/-- A reply ends when every read and send succeeds.
Source: `handler.c`, `write_to_client`
Kind: L -/
theorem handles_reply (build : Build) {site : ReplySite} (hpc : h.pc = .reply site .read) :
    ∃ h', Handles build [] h h' ∧ h'.pc = site.afterReply ∧ h'.dataLen = h.dataLen := by
  have hread : Handles build [] h { h with pc := .reply site (.returned true) } :=
    .one (.read (some [])) (by simp only [Handler.step, hpc]; rfl) trivial rfl
  exact ⟨_, hread.trans (.one (.replyReturns true) rfl trivial rfl), rfl, rfl⟩

/-- A packet is appended when every call succeeds.
Source: `handler.c`, `handle_connection`
Kind: L -/
theorem handles_append (build : Build) (hpc : h.pc = packetBranch build) :
    ∃ h', Handles build [] h h' ∧ h'.pc = .reset .afterPacket ∧ h'.dataLen = h.dataLen := by
  have hlock : Handles build [] h { h with pc := .append .openFile } := by
    cases build with
    | charDevice =>
        have hsame : ({ h with pc := .append .openFile } : Handler) = h := by
          cases h
          cases hpc
          rfl
        rw [hsame]
        exact ⟨[], rfl, by simp, rfl⟩
    | dataFile => exact .one .lock (by simp only [Handler.step, hpc, packetBranch]) trivial rfl
  have hopen : Handles build [] { h with pc := .append .openFile } { h with pc := .append .write } :=
    .one (.openAppend true) rfl rfl rfl
  have hwrite : Handles build [] { h with pc := .append .write }
      { h with pc := .append (.close true) } := by
    refine .one (.write h.data (some h.data.length)) ?_ rfl rfl
    change ((if h.data = h.data then _ else _ : Option AppendPc).map _) = _
    rw [if_pos rfl]
    rfl
  have hclose : Handles build [] { h with pc := .append (.close true) }
      { h with pc := .append (.returned true) } := .one .closeAppend rfl trivial rfl
  have hreturn : Handles build [] { h with pc := .append (.returned true) }
      { h with pc := afterAppend build true } := by
    refine .one (.appendReturns h.data true) ?_ trivial rfl
    exact if_pos ⟨rfl, rfl⟩
  have hdone : Handles build [] { h with pc := afterAppend build true }
      { h with pc := .reset .afterPacket } := by
    cases build with
    | charDevice => exact ⟨[], rfl, by simp, rfl⟩
    | dataFile => exact .one .unlock rfl trivial rfl
  exact ⟨_, hlock.trans (hopen.trans (hwrite.trans (hclose.trans (hreturn.trans hdone)))), rfl, rfl⟩

/-- From what a buffer asks for back to the next `recv`.
Source: `handler.c`, `handle_connection`
Kind: L -/
theorem handles_dispatch (build : Build) (hpc : h.pc = h.dispatch build) :
    ∃ h', Handles build [] h h' ∧ h'.pc = .recv ∧ h'.dataLen ≤ h.dataLen := by
  unfold Handler.dispatch at hpc
  split_ifs at hpc with hseek hnl
  · have hreset : ∃ h', Handles build [] h h' ∧ h'.pc = .reset .afterSeek := by
      cases hreq : seekRequest (h.memory.drop seekto.length) with
      | none =>
          rw [hreq] at hpc
          exact ⟨h, ⟨[], rfl, by simp, rfl⟩, hpc⟩
      | some request =>
          rw [hreq] at hpc
          have hioctl : Handles build [] h { h with pc := .reply .afterSeek .read } := by
            refine .one (.ioctl request true) ?_ rfl rfl
            simp only [Handler.step, hpc, seekBranch, if_true]
          obtain ⟨h', hreply, hpc', -⟩ :=
            handles_reply (h := { h with pc := .reply .afterSeek .read }) build rfl
          exact ⟨h', hioctl.trans hreply, hpc'⟩
    obtain ⟨h₁, hto, hpc₁⟩ := hreset
    obtain ⟨h₂, hto', hpc₂, hlen⟩ := handles_reset build hpc₁
    exact ⟨h₂, hto.trans hto', hpc₂, hlen ▸ Nat.zero_le _⟩
  · obtain ⟨h₁, hto₁, hpc₁, -⟩ := handles_append build hpc
    obtain ⟨h₂, hto₂, hpc₂, hlen₂⟩ := handles_reset build hpc₁
    obtain ⟨h₃, hto₃, hpc₃, hlen₃⟩ := handles_reply build hpc₂
    exact ⟨h₃, hto₁.trans (hto₂.trans hto₃), hpc₃, hlen₃ ▸ hlen₂ ▸ Nat.zero_le _⟩
  · exact ⟨h, ⟨[], rfl, by simp, rfl⟩, hpc, Nat.le_refl _⟩

/-- One chunk, from one `recv` to the next.
Source: `handler.c`, `handle_connection`
Kind: L -/
theorem handles_chunk (build : Build) (hs : h.Sound) (hpc : h.pc = .recv) (hne : chunk ≠ [])
    (hle : chunk.length ≤ 1023) (hsmall : h.dataLen + chunk.length < 2 ^ 62) :
    ∃ h', Handles build [chunk] h h' ∧ h'.pc = .recv ∧ h'.dataLen ≤ h.dataLen + chunk.length := by
  have hr := hs.roomy (by rw [hpc]; rfl)
  have hchunk : ¬ (chunk = [] ∨ bufferSize - 1 < chunk.length) := by
    rw [not_or, Nat.not_lt]
    exact ⟨hne, hle⟩
  -- the chunk is stored, after the buffer was made to grow if need be
  have hstored : ∃ h₁ : Handler, Handles build [chunk] h h₁ ∧ h₁.pc = h₁.dispatch build ∧
      h₁.dataLen = h.dataLen + chunk.length := by
    by_cases hlarge : 1024 ≤ h.dataLen + chunk.length
    · have hrecv : Handles build [chunk] h { h with pc := .grow chunk } := by
        refine .one (.recv (some chunk)) ?_ trivial rfl
        simp only [Handler.step, hpc]
        rw [if_neg hchunk, hr.add_length hle, if_pos hlarge]
      have hs' : Handler.Sound { h with pc := .grow chunk } := by
        obtain ⟨events, hrun, -, -⟩ := hrecv
        exact Handler.sound_run hs hrun
      have hfits : ¬ ptrdiffMax < 2 * (h.dataLen + chunk.length) := by
        unfold ptrdiffMax
        omega
      have hre : realloc .moved (fun _ => 0) h.dataBuffer
          (SizeT.mul 2 (SizeT.add h.dataLen chunk.length)) h.heap =
          some (regrow .moved (fun _ => 0) h.dataBuffer (2 * (h.dataLen + chunk.length)) h.heap) := by
        have hsize := hs'.newSize_eq rfl
        have hzero := hs'.newSize_ne_zero rfl
        change SizeT.mul 2 (SizeT.add h.dataLen chunk.length) = _ at hsize
        change SizeT.mul 2 (SizeT.add h.dataLen chunk.length) ≠ 0 at hzero
        rw [hsize] at hzero ⊢
        unfold realloc
        rw [if_neg hzero, if_neg (by decide), if_neg hfits]
      obtain ⟨p, heap, hgrow⟩ : ∃ p heap, regrow .moved (fun _ => 0) h.dataBuffer
          (2 * (h.dataLen + chunk.length)) h.heap = (p, heap) := ⟨_, _, rfl⟩
      rw [hgrow] at hre
      have hp := realloc_ne_null (hs'.newSize_ne_zero rfl) (by decide)
        (hs'.owned_of_live rfl) hre
      refine ⟨Handler.accept build { h with dataBuffer := p, heap := heap } chunk,
        hrecv.trans (.one (.realloc .moved fun _ => 0) ?_ (by decide) rfl), rfl, hr.add_length hle⟩
      change (realloc .moved (fun _ => 0) h.dataBuffer
        (SizeT.mul 2 (SizeT.add h.dataLen chunk.length)) h.heap).map _ = _
      rw [hre, Option.map_some]
      simp only [hp, if_false]
      rfl
    · refine ⟨h.accept build chunk, .one (.recv (some chunk)) ?_ trivial rfl, rfl,
        hr.add_length hle⟩
      simp only [Handler.step, hpc]
      rw [if_neg hchunk, hr.add_length hle, if_neg hlarge]
  obtain ⟨h₁, hto, hpc₁, hlen₁⟩ := hstored
  obtain ⟨h₂, hto', hpc₂, hlen₂⟩ := handles_dispatch build hpc₁
  exact ⟨h₂, hto.trans hto', hpc₂, hlen₁ ▸ hlen₂⟩

/-- Any chunks, from one `recv` to another.
Source: `handler.c`, `handle_connection`
Kind: L -/
theorem handles_chunks (build : Build) :
    ∀ (cs : List (List UInt8)) {h : Handler}, h.Sound → h.pc = .recv →
      (∀ c ∈ cs, c ≠ [] ∧ c.length ≤ 1023) → h.dataLen + cs.flatten.length < 2 ^ 62 →
      ∃ h', Handles build cs h h' ∧ h'.pc = .recv
  | [], h, _, hpc, _, _ => ⟨h, ⟨[], rfl, by simp, rfl⟩, hpc⟩
  | c :: cs, h, hs, hpc, hall, hsmall => by
      rw [List.forall_mem_cons] at hall
      rw [List.flatten_cons, List.length_append] at hsmall
      obtain ⟨h₁, hto, hpc₁, hlen⟩ := handles_chunk build hs hpc hall.1.1 hall.1.2 (by omega)
      have hs₁ : h₁.Sound := by
        obtain ⟨events, hrun, -, -⟩ := hto
        exact Handler.sound_run hs hrun
      obtain ⟨h₂, hto', hpc₂⟩ := handles_chunks build cs hs₁ hpc₁ hall.2 (by omega)
      exact ⟨h₂, hto.trans hto', hpc₂⟩

/-- Every stream that fits in memory has a run in which nothing fails and that ends before the next
`recv`, however it is cut into chunks.
Source: `handler.c`, `handle_connection`
Kind: L -/
theorem exists_run_to_recv (cs : List (List UInt8)) (build : Build)
    (hall : ∀ c ∈ cs, c ≠ [] ∧ c.length ≤ 1023) (hsmall : cs.flatten.length < 2 ^ 62) :
    ∃ h, Handles build cs .start h ∧ h.pc = .recv := by
  have hsetup : Handles build [] .start ⟨.recv, .block 0, 0,
      Heap.empty.fresh ((List.range bufferSize).map fun _ => 0)⟩ :=
    (Handles.one (.malloc .moved fun _ => 0) rfl (by decide) rfl).trans
      (.one (.openDevice true) rfl rfl rfl)
  have hs : Handler.Sound ⟨.recv, .block 0, 0,
      Heap.empty.fresh ((List.range bufferSize).map fun _ => 0)⟩ := by
    obtain ⟨events, hrun, -, -⟩ := hsetup
    exact Handler.sound_run Handler.sound_start hrun
  obtain ⟨h₁, hto, hpc₁⟩ := handles_chunks build cs hs rfl hall (by simpa using hsmall)
  exact ⟨h₁, hsetup.trans hto, hpc₁⟩

/-- **Every stream that fits in memory has a run in which nothing fails**, however it is cut into
chunks.
Source: none: infrastructure
Kind: P -/
theorem exists_run (cs : List (List UInt8)) (build : Build) (hall : ∀ c ∈ cs, c ≠ [] ∧ c.length ≤ 1023)
    (hsmall : cs.flatten.length < 2 ^ 62) :
    ∃ events h, handleConnection build events = some h ∧ (∀ ev ∈ events, ev.Succeeds) ∧
      h.pc = .finished ∧ chunks events = cs := by
  obtain ⟨h₁, hto, hpc₁⟩ := exists_run_to_recv cs build hall hsmall
  have hend : Handles build [] h₁
      { h₁ with heap := h₁.heap.free h₁.dataBuffer, pc := .finished } := by
    have hrecv : Handles build [] h₁ { h₁ with pc := .closeDevice } :=
      .one (.recv none) (by simp only [Handler.step, hpc₁]) trivial rfl
    exact hrecv.trans ((Handles.one .closeDevice rfl trivial rfl).trans
      ((Handles.one .free rfl trivial rfl).trans ((Handles.one .closeClient rfl trivial rfl).trans
        (.one .setDone rfl trivial rfl))))
  obtain ⟨events, hrun, hok, hcs⟩ := hto.trans hend
  refine ⟨events, _, hrun, hok, rfl, ?_⟩
  rw [hcs, List.append_nil]

end handles

end Aesd.Server
