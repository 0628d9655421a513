import Aesd.Server.Bounds

/-!
# The handler releases what it takes

A connection's handler takes descriptors, buffers and, in the file-backed build, the mutex of the
data file, and leaves by way of two early returns, a loop with seven `break`s and two ends behind
it. What it has taken and given back is kept as a ledger over the calls made; the heap keeps its
own.

* `Pc.holdings` — what the handler holds at each place of the code;
* `Ledger.Fits.step`, `fits_of_run` — in every run the ledger is what the place says it is;
* `Handler.exits` — from every state a way leads to the end, when the calls fail;
* `length_add_rank_le` — a run makes no more calls than the chunks it has got ask for;
* `resources_released` — at the end everything is given back once, and nothing was used in between
  that was not held.
-/

namespace Aesd.Server

open Aesd.Lib Aesd.Driver

/-! ### The ledger -/

/-- What a handler has taken and given back: how often each call was made with success.
Source: `handler.c`, `handle_connection`
Kind: D -/
structure Ledger where
  clientClosed : ℕ
  deviceOpened : ℕ
  deviceClosed : ℕ
  appendOpened : ℕ
  appendClosed : ℕ
  locked : ℕ
  unlocked : ℕ
  doneSet : ℕ
  deriving DecidableEq

/-- Nothing taken yet.
Source: `handler.c`, `handle_connection`
Kind: D -/
def Ledger.blank : Ledger := ⟨0, 0, 0, 0, 0, 0, 0, 0⟩

/-- One more call.
Source: `handler.c`, `handle_connection` and `append_packet`
Kind: D -/
def Ledger.record (L : Ledger) : Event → Ledger
  | .openDevice true => { L with deviceOpened := L.deviceOpened + 1 }
  | .closeDevice => { L with deviceClosed := L.deviceClosed + 1 }
  | .openAppend true => { L with appendOpened := L.appendOpened + 1 }
  | .closeAppend => { L with appendClosed := L.appendClosed + 1 }
  | .lock => { L with locked := L.locked + 1 }
  | .unlock => { L with unlocked := L.unlocked + 1 }
  | .closeClient => { L with clientClosed := L.clientClosed + 1 }
  | .setDone => { L with doneSet := L.doneSet + 1 }
  | _ => L

/-- The ledger of the calls made.
Source: `handler.c`, `handle_connection`
Kind: D -/
def ledger (events : List Event) : Ledger := events.foldl Ledger.record .blank

/-- What a handler holds.
Source: `handler.c`, `handle_connection`
Kind: D -/
structure Holdings where
  /-- The setup is not over: the device was not opened. -/
  settingUp : Bool
  device : Bool
  append : Bool
  mutex : Bool
  client : Bool
  done : Bool

/-- The file is open for appending at these places.
Source: `handler.c`, `handle_connection` and `append_packet`
Kind: D -/
def AppendPc.fileOpen : AppendPc → Bool
  | .write | .close _ => true
  | .openFile | .returned _ => false

/-- What the handler holds at a place. In the build for the device there is no mutex.
Source: `handler.c`, `handle_connection` and `write_to_client`
Kind: D -/
def Pc.holdings (build : Build) : Pc → Holdings
  | .malloc | .openDevice | .abortClose _ => ⟨true, false, false, false, true, false⟩
  | .abortFree => ⟨true, false, false, false, false, false⟩
  | .recv | .grow _ | .ioctl _ | .lock | .reset _ | .remalloc _ | .reply _ _ | .closeDevice =>
      ⟨false, true, false, false, true, false⟩
  | .append pc => ⟨false, true, pc.fileOpen, build == .dataFile, true, false⟩
  | .unlock _ => ⟨false, true, false, true, true, false⟩
  | .freeLast | .closeClient => ⟨false, false, false, false, true, false⟩
  | .setDone => ⟨false, false, false, false, false, false⟩
  | .finished => ⟨false, false, false, false, false, true⟩

/-- The place is one of those where the mutex is taken or released.
Source: `handler.c`, `handle_connection`
Kind: D -/
def Pc.locking : Pc → Bool
  | .lock | .unlock _ => true
  | _ => false

/-- The ledger is what a handler with these holdings has.
Source: `handler.c`, `handle_connection`
Kind: D -/
structure Ledger.Fits (L : Ledger) (held : Holdings) : Prop where
  device : L.deviceOpened = L.deviceClosed + held.device.toNat
  once : L.deviceOpened + held.settingUp.toNat ≤ 1
  append : L.appendOpened = L.appendClosed + held.append.toNat
  mutex : L.locked = L.unlocked + held.mutex.toNat
  client : L.clientClosed + held.client.toNat = 1
  done : L.doneSet = held.done.toNat

section ledger

variable {build : Build} {h h' : Handler} {ev : Event} {L : Ledger} {events : List Event}

/-- The ledger after one more event.
Source: none: infrastructure
Kind: L -/
theorem ledger_concat (events : List Event) (ev : Event) :
    ledger (events ++ [ev]) = (ledger events).record ev := by
  rw [ledger, List.foldl_append]
  rfl

/-- A step that takes and gives back nothing.
Source: `handler.c`, `handle_connection`
Kind: L -/
theorem Ledger.Fits.keep (hf : L.Fits (h.pc.holdings build)) {pc pc' : Pc} (hpc : h.pc = pc)
    (hsame : pc'.holdings build = pc.holdings build) : L.Fits (pc'.holdings build) := by
  rw [hsame, ← hpc]
  exact hf

/-- A received chunk leaves what the handler holds.
Source: `handler.c`, `handle_connection`
Kind: L -/
theorem Handler.holdings_accept (h : Handler) (chunk : List UInt8) :
    (h.accept build chunk).pc.holdings build = Pc.recv.holdings build := by
  apply Handler.accept_pc (P := fun pc => pc.holdings build = Pc.recv.holdings build)
  · exact fun _ => rfl
  · rfl
  · cases build <;> rfl
  · rfl

/-- A call of `append_packet`: its file is closed when it was opened.
Source: `handler.c`, `handle_connection` and `append_packet`
Kind: L -/
theorem Ledger.Fits.appendPacket {buf : List UInt8} {pc pc' : AppendPc}
    (hf : L.Fits ((Pc.append pc).holdings build)) (hev : appendPacket buf pc ev = some pc') :
    (L.record ev).Fits ((Pc.append pc').holdings build) := by
  unfold Server.appendPacket at hev
  split at hev
  · rename_i ok
    cases hev
    cases ok with
    | false => exact hf
    | true => exact ⟨hf.device, hf.once, congrArg (· + 1) hf.append, hf.mutex, hf.client, hf.done⟩
  · rw [Option.ite_none_right_eq_some] at hev
    cases hev.2
    exact hf
  · cases hev
    exact ⟨hf.device, hf.once, hf.append, hf.mutex, hf.client, hf.done⟩
  · cases hev

/-- **What one step does to the ledger.** In the build for the device no step is at the mutex.
Source: `handler.c`, `handle_connection`
Kind: L -/
theorem Ledger.Fits.step (hf : L.Fits (h.pc.holdings build))
    (hlock : build = .charDevice → h.pc.locking = false) (hstep : h.Steps build ev h') :
    (L.record ev).Fits (h'.pc.holdings build) := by
  cases hstep with
  | @opens ok hpc =>
      rw [hpc] at hf
      cases ok with
      | false => exact hf
      | true =>
          have hnew : L.deviceOpened = 0 := Nat.le_zero.mp (Nat.le_of_succ_le_succ hf.once)
          have hbalance := hf.device
          refine ⟨congrArg (· + 1) hbalance, ?_, hf.append, hf.mutex, hf.client, hf.done⟩
          exact Nat.succ_le_succ hnew.le
  | recvFits hpc _ _ _ => exact hf.keep hpc (Handler.holdings_accept _ _)
  | grows hpc _ _ => exact hf.keep hpc (Handler.holdings_accept _ _)
  | @ioctls request ok hpc => cases ok <;> exact hf.keep hpc rfl
  | locks hpc =>
      rw [hpc] at hf hlock
      cases build with
      | charDevice => cases hlock rfl
      | dataFile =>
          exact ⟨hf.device, hf.once, hf.append, congrArg (· + 1) hf.mutex, hf.client, hf.done⟩
  | appends hpc hev =>
      rw [hpc] at hf
      exact hf.appendPacket hev
  | @appendReturns ok hpc => cases build <;> cases ok <;> exact hf.keep hpc rfl
  | @unlocks ok hpc =>
      rw [hpc] at hf
      cases ok <;> exact ⟨hf.device, hf.once, hf.append, hf.mutex, hf.client, hf.done⟩
  | @remallocs site answer junk hpc _ => cases site <;> exact hf.keep hpc rfl
  | replies hpc hev =>
      rcases writeToClient_event hev with ⟨result, rfl⟩ | ⟨bytes, sent, rfl⟩ <;>
        exact hf.keep hpc rfl
  | @replyReturns site ok hpc => cases site <;> cases ok <;> exact hf.keep hpc rfl
  | closesDevice hpc =>
      rw [hpc] at hf
      exact ⟨hf.device, hf.once, hf.append, hf.mutex, hf.client, hf.done⟩
  | closesClient hpc =>
      rw [hpc] at hf
      exact ⟨hf.device, hf.once, hf.append, hf.mutex, hf.client, hf.done⟩
  | @abortCloses allocated hpc =>
      rw [hpc] at hf
      cases allocated with
      | false =>
          exact ⟨hf.device, Nat.le_of_succ_le hf.once, hf.append, hf.mutex, hf.client, hf.done⟩
      | true => exact ⟨hf.device, hf.once, hf.append, hf.mutex, hf.client, hf.done⟩
  | abortFrees hpc =>
      rw [hpc] at hf
      exact ⟨hf.device, Nat.le_of_succ_le hf.once, hf.append, hf.mutex, hf.client, hf.done⟩
  | setsDone hpc =>
      rw [hpc] at hf
      exact ⟨hf.device, hf.once, hf.append, hf.mutex, hf.client, congrArg (· + 1) hf.done⟩
  | mallocFails hpc | mallocs hpc _ | recvEnds hpc | recvGrows hpc _ _ _ | growFails hpc _
  | resets hpc | remallocFails hpc | freesLast hpc => exact hf.keep hpc rfl

/-- The build for the device never comes to the mutex.
Source: `handler.c`, `handle_connection`
Kind: L -/
theorem Handler.Steps.locking (hstep : h.Steps .charDevice ev h') :
    h'.pc.locking = false := by
  have haccept : ∀ (h : Handler) (chunk : List UInt8),
      (h.accept .charDevice chunk).pc.locking = false := by
    apply Handler.accept_pc (P := fun pc => pc.locking = false)
    · exact fun _ => rfl
    · rfl
    · rfl
    · rfl
  cases hstep with
  | @opens ok hpc => cases ok <;> rfl
  | recvFits _ _ _ _ => exact haccept _ _
  | grows _ _ _ => exact haccept _ _
  | @ioctls request ok _ => cases ok <;> rfl
  | @appendReturns ok _ => cases ok <;> rfl
  | @unlocks ok _ => cases ok <;> rfl
  | @remallocs site _ _ _ _ => cases site <;> rfl
  | @replyReturns site ok _ => cases site <;> cases ok <;> rfl
  | @abortCloses allocated _ => cases allocated <;> rfl
  | _ => rfl

/-- **The ledger of every run is what the place says it is.**
Source: none: infrastructure
Kind: P -/
theorem fits_of_run (hrun : handleConnection build events = some h) :
    (ledger events).Fits (h.pc.holdings build) := by
  suffices hall : (ledger events).Fits (h.pc.holdings build) ∧
      (build = .charDevice → h.pc.locking = false) from hall.1
  refine run_induction (P := fun events h => (ledger events).Fits (h.pc.holdings build) ∧
    (build = .charDevice → h.pc.locking = false)) ?_ ?_ hrun
  · exact ⟨⟨rfl, le_rfl, rfl, rfl, rfl, rfl⟩, fun _ => rfl⟩
  · intro events h ev h' _ hinv hstep
    obtain ⟨hf, hlock⟩ := hinv
    have hsteps := Handler.steps_of_step hstep
    rw [ledger_concat]
    refine ⟨hf.step hlock hsteps, fun hbuild => ?_⟩
    subst hbuild
    exact hsteps.locking

end ledger

/-! ### The uses of the buffer -/

/-- The pointers that a step follows, each with the heap at that moment: `realloc` reads the old
block, the iteration behind the `memcpy` works on the block it copies to, and `append_packet` writes
from the buffer.
Source: `handler.c`, `handle_connection`
Kind: D -/
def Handler.uses (h : Handler) (ev : Event) : List (Heap UInt8 × Ptr) :=
  (match h.pc, ev with
    | .grow _, .realloc _ _ => [(h.heap, h.dataBuffer)]
    | .append .write, .write _ _ => [(h.heap, h.dataBuffer)]
    | _, _ => []) ++
  match h.copying ev with
  | some (h₁, _) => [(h₁.heap, h₁.dataBuffer)]
  | none => []

section uses

variable {build : Build} {h h' : Handler} {ev : Event}

/-- The buffer is there.
Source: `handler.c`, `handle_connection`
Kind: L -/
theorem Handler.Roomy.live (hr : h.Roomy) (ho : h.heap.Owned [h.dataBuffer]) :
    h.heap.Live h.dataBuffer := by
  obtain ⟨id, hid⟩ := hr.exists_block
  rw [hid] at ho
  exact ⟨id, hid, ho.live_of_mem List.mem_cons_self⟩

/-- A step follows no pointer but to a live block.
Source: `handler.c`, `handle_connection`
Kind: L -/
theorem Handler.Sound.uses_live (hs : h.Sound) (hstep : h.step build ev = some h') :
    ∀ use ∈ h.uses ev, use.1.Live use.2 := by
  intro use huse
  rcases List.mem_append.mp huse with hcall | hcopied
  · have hown : h.pc.live = true → h.heap.Live h.dataBuffer := fun hlive =>
      (hs.roomy hlive).live (hs.owned_of_live hlive)
    split at hcall
    · rename_i hpc
      rw [List.mem_singleton.mp hcall]
      exact hown (by rw [hpc]; rfl)
    · rename_i hpc
      rw [List.mem_singleton.mp hcall]
      exact hown (by rw [hpc]; rfl)
    · cases hcall
  · split at hcopied
    · rename_i h₁ chunk hcopy
      obtain ⟨ho, -, -, hr, -⟩ := hs.copying hstep hcopy
      rw [List.mem_singleton.mp hcopied]
      exact hr.live ho
    · cases hcopied

end uses

/-! ### The way out -/

/-- Some results of the calls to come lead to the end.
Source: `handler.c`, `handle_connection`
Kind: D -/
def Handler.Exits (build : Build) (h : Handler) : Prop :=
  ∃ events h', run (Handler.step build) h events = some h' ∧ h'.pc = .finished

section exits

variable {build : Build} {h h' : Handler}

/-- A way out goes through any step that leads to one.
Source: `handler.c`, `handle_connection`
Kind: L -/
theorem Handler.Exits.of_step (ev : Event) (hstep : h.step build ev = some h')
    (he : h'.Exits build) : h.Exits build := by
  obtain ⟨events, h'', hrun, hend⟩ := he
  exact ⟨ev :: events, h'', run_cons.mpr ⟨h', hstep, hrun⟩, hend⟩

/-- From `close` of the device the way out is straight.
Source: `handler.c`, `handle_connection`
Kind: L -/
theorem Handler.exits_of_closeDevice (hpc : h.pc = .closeDevice) : h.Exits build := by
  obtain ⟨pc, p, n, heap⟩ := h
  subst hpc
  exact ⟨[.closeDevice, .free, .closeClient, .setDone], _, rfl, rfl⟩

/-- From `recv` the way out is the end of the stream.
Source: `handler.c`, `handle_connection`
Kind: L -/
theorem Handler.exits_of_recv (hpc : h.pc = .recv) : h.Exits build := by
  have hstep : h.step build (.recv none) = some { h with pc := .closeDevice } := by
    simp only [Handler.step, hpc]
  exact Exits.of_step _ hstep (exits_of_closeDevice rfl)

/-- A reset ends the loop when there is no new buffer.
Source: `handler.c`, `handle_connection`
Kind: L -/
theorem Handler.exits_of_reset {site : ReplySite} (hpc : h.pc = .reset site) : h.Exits build := by
  obtain ⟨pc, p, n, heap⟩ := h
  subst hpc
  apply Exits.of_step .free rfl
  apply Exits.of_step (.malloc .fail fun _ => 0) rfl
  exact exits_of_closeDevice rfl

/-- From the unlock the way out goes through the reset or the end.
Source: `handler.c`, `handle_connection`
Kind: L -/
theorem Handler.exits_of_unlock {ok : Bool} (hpc : h.pc = .unlock ok) : h.Exits build := by
  have hstep : h.step build .unlock =
      some { h with pc := if ok then .reset .afterPacket else .closeDevice } := by
    simp only [Handler.step, hpc]
  apply Exits.of_step _ hstep
  cases ok with
  | false => exact exits_of_closeDevice rfl
  | true => exact exits_of_reset rfl

/-- `append_packet` returns, whatever its calls return.
Source: `handler.c`, `handle_connection` and `append_packet`
Kind: L -/
theorem Handler.exits_of_append {pc : AppendPc} (hpc : h.pc = .append pc) : h.Exits build := by
  have hreturned : ∀ ok, Handler.Exits build { h with pc := .append (.returned ok) } := by
    intro ok
    have hstep : Handler.step build { h with pc := .append (.returned ok) }
        (.appendReturns h.data ok) = some { h with pc := afterAppend build ok } := if_pos ⟨rfl, rfl⟩
    apply Exits.of_step _ hstep
    cases build with
    | dataFile => exact exits_of_unlock rfl
    | charDevice =>
        cases ok with
        | false => exact exits_of_closeDevice rfl
        | true => exact exits_of_reset rfl
  have hclose : ∀ ok, Handler.Exits build { h with pc := .append (.close ok) } := fun ok =>
    Exits.of_step .closeAppend rfl (hreturned ok)
  cases pc with
  | openFile =>
      have hstep : h.step build (.openAppend false) =
          some { h with pc := .append (.returned false) } := by
        simp [Handler.step, hpc, appendPacket]
      exact Exits.of_step _ hstep (hreturned false)
  | write =>
      have hstep : h.step build (.write h.data none) =
          some { h with pc := .append (.close false) } := by
        simp [Handler.step, hpc, appendPacket]
      exact Exits.of_step _ hstep (hclose false)
  | close ok =>
      rw [show h = { h with pc := .append (.close ok) } by rw [← hpc]]
      exact hclose ok
  | returned ok =>
      rw [show h = { h with pc := .append (.returned ok) } by rw [← hpc]]
      exact hreturned ok

/-- `write_to_client` returns when a `read` or a `send` fails.
Source: `handler.c`, `handle_connection` and `write_to_client`
Kind: L -/
theorem Handler.exits_of_reply {site : ReplySite} {pc : ReplyPc} (hpc : h.pc = .reply site pc) :
    h.Exits build := by
  have hreturned : ∀ ok, Handler.Exits build { h with pc := .reply site (.returned ok) } := by
    intro ok
    have hstep : Handler.step build { h with pc := .reply site (.returned ok) } (.replyReturns ok) =
        some { h with pc := if ok then site.afterReply else .closeDevice } := if_pos rfl
    apply Exits.of_step _ hstep
    cases ok with
    | false => exact exits_of_closeDevice rfl
    | true =>
        cases site with
        | afterSeek => exact exits_of_reset rfl
        | afterPacket => exact exits_of_recv rfl
  cases pc with
  | read =>
      have hstep : h.step build (.read none) =
          some { h with pc := .reply site (.returned true) } := by
        simp [Handler.step, hpc, writeToClient]
      exact Exits.of_step _ hstep (hreturned true)
  | send chunk =>
      have hshort : (-1 : ℤ) ≠ chunk.length := by omega
      have hstep : h.step build (.send chunk (-1)) =
          some { h with pc := .reply site (.returned false) } := by
        simp [Handler.step, hpc, writeToClient, hshort]
      exact Exits.of_step _ hstep (hreturned false)
  | returned ok =>
      rw [show h = { h with pc := .reply site (.returned ok) } by rw [← hpc]]
      exact hreturned ok

/-- **From every state a way leads to the end**: the handler is nowhere stuck.
Source: `handler.c`, `handle_connection`
Kind: P -/
theorem Handler.exits (h : Handler) (build : Build) : h.Exits build := by
  obtain ⟨pc, p, n, heap⟩ := h
  cases pc with
  | malloc => exact ⟨[.malloc .fail fun _ => 0, .closeClient, .setDone], _, rfl, rfl⟩
  | openDevice => exact ⟨[.openDevice false, .closeClient, .free, .setDone], _, rfl, rfl⟩
  | recv => exact exits_of_recv rfl
  | grow chunk =>
      have hfail : ∃ heap', realloc .fail (fun _ => 0) p
          (SizeT.mul 2 (SizeT.add n chunk.length)) heap = some (.null, heap') := by
        by_cases hzero : SizeT.mul 2 (SizeT.add n chunk.length) = 0
        · exact ⟨heap.free p, if_pos hzero⟩
        · exact ⟨heap, by rw [realloc, if_neg hzero, if_pos rfl]⟩
      obtain ⟨heap', hre⟩ := hfail
      have hstep : Handler.step build ⟨.grow chunk, p, n, heap⟩ (.realloc .fail fun _ => 0) =
          some ⟨.closeDevice, p, n, heap'⟩ := by
        simp [Handler.step, hre]
      exact Exits.of_step _ hstep (exits_of_closeDevice rfl)
  | ioctl request =>
      have hstep : Handler.step build ⟨.ioctl request, p, n, heap⟩ (.ioctl request false) =
          some ⟨.closeDevice, p, n, heap⟩ := if_pos rfl
      exact Exits.of_step _ hstep (exits_of_closeDevice rfl)
  | lock => exact Exits.of_step .lock rfl (exits_of_append rfl)
  | append pc => exact exits_of_append rfl
  | unlock ok => exact exits_of_unlock rfl
  | reset site => exact exits_of_reset rfl
  | remalloc site =>
      exact Exits.of_step (.malloc .fail fun _ => 0) rfl (exits_of_closeDevice rfl)
  | reply site pc => exact exits_of_reply rfl
  | closeDevice => exact exits_of_closeDevice rfl
  | freeLast => exact ⟨[.free, .closeClient, .setDone], _, rfl, rfl⟩
  | closeClient => exact ⟨[.closeClient, .setDone], _, rfl, rfl⟩
  | abortClose allocated =>
      cases allocated with
      | false => exact ⟨[.closeClient, .setDone], _, rfl, rfl⟩
      | true => exact ⟨[.closeClient, .free, .setDone], _, rfl, rfl⟩
  | abortFree => exact ⟨[.free, .setDone], _, rfl, rfl⟩
  | setDone => exact ⟨[.setDone], _, rfl, rfl⟩
  | finished => exact ⟨[], _, rfl, rfl⟩

end exits

/-! ### How many calls a run can make -/

/-- The event brings in data: a chunk from the client or from the device.
Source: `handler.c`, `handle_connection`
Kind: D -/
def Event.fetches : Event → Bool
  | .recv (some _) | .read (some (_ :: _)) => true
  | _ => false

/-- The calls `append_packet` can still make, its return included.
Source: `handler.c`, `handle_connection` and `append_packet`
Kind: D -/
def AppendPc.rank : AppendPc → ℕ
  | .openFile => 4
  | .write => 3
  | .close _ => 2
  | .returned _ => 1

/-- The calls `write_to_client` can still make without another chunk, its return included.
Source: `handler.c`, `handle_connection` and `write_to_client`
Kind: D -/
def ReplyPc.rank : ReplyPc → ℕ
  | .read => 2
  | .send _ => 3
  | .returned _ => 1

/-- The calls a handler can still make when it gets no other chunk.
Source: `handler.c`, `handle_connection` and `write_to_client`
Kind: D -/
def Pc.rank : Pc → ℕ
  | .malloc => 7
  | .openDevice => 6
  | .recv => 5
  | .grow _ => 16
  | .ioctl _ => 10
  | .lock => 15
  | .append pc => pc.rank + 10
  | .unlock _ => 10
  | .reset .afterSeek => 7
  | .reset .afterPacket => 9
  | .remalloc .afterSeek => 6
  | .remalloc .afterPacket => 8
  | .reply .afterSeek pc => pc.rank + 7
  | .reply .afterPacket pc => pc.rank + 5
  | .closeDevice => 4
  | .freeLast => 3
  | .closeClient => 2
  | .abortClose _ => 3
  | .abortFree => 2
  | .setDone => 1
  | .finished => 0

section rank

variable {build : Build} {h h' : Handler} {ev : Event} {events : List Event}

/-- A received chunk leads to a place with at most fifteen calls to make.
Source: `handler.c`, `handle_connection`
Kind: L -/
theorem Handler.rank_accept_le (h : Handler) (chunk : List UInt8) :
    (h.accept build chunk).pc.rank ≤ 15 := by
  apply Handler.accept_pc (P := fun pc => pc.rank ≤ 15)
  · intro request
    simp [Pc.rank]
  · decide
  · cases build <;> decide
  · decide

/-- Every call of `append_packet` brings it nearer to its return.
Source: `handler.c`, `append_packet`
Kind: L -/
theorem appendPacket_rank {buf : List UInt8} {pc pc' : AppendPc}
    (hev : appendPacket buf pc ev = some pc') : pc'.rank + 1 ≤ pc.rank := by
  unfold appendPacket at hev
  split at hev
  · rename_i ok
    cases hev
    cases ok <;> decide
  · rw [Option.ite_none_right_eq_some] at hev
    cases hev.2
    exact le_rfl
  · cases hev
    exact le_rfl
  · cases hev

/-- Every call of `write_to_client` brings it nearer to its return, but for a read that delivers.
Source: `handler.c`, `write_to_client`
Kind: L -/
theorem writeToClient_rank {pc pc' : ReplyPc} (hev : writeToClient pc ev = some pc') :
    pc'.rank + 1 ≤ pc.rank + 2 * ev.fetches.toNat := by
  unfold writeToClient at hev
  split at hev
  · split at hev
    · rw [Option.ite_none_right_eq_some] at hev
      cases hev.2
      exact le_rfl
    · cases hev
      exact Nat.le_add_right 2 _
  · rw [Option.ite_none_right_eq_some] at hev
    obtain ⟨-, hev⟩ := hev
    split_ifs at hev <;> cases hev
    · exact Nat.le_succ 2
    · exact le_rfl
  · cases hev

/-- A call that was still possible.
Source: `handler.c`, `handle_connection`
Kind: L -/
theorem Pc.rank_drop {pc pc' : Pc} (hpc : h.pc = pc) (hle : pc'.rank + 1 ≤ pc.rank) (n : ℕ) :
    pc'.rank + 1 ≤ h.pc.rank + n := by
  rw [hpc]
  exact hle.trans (Nat.le_add_right _ _)

/-- Every call is one of those that were still possible, unless it brings in data.
Source: `handler.c`, `handle_connection`
Kind: L -/
theorem Handler.Steps.rank (hstep : h.Steps build ev h') :
    h'.pc.rank + 1 ≤ h.pc.rank + 12 * ev.fetches.toNat := by
  have haccept : ∀ (h : Handler) (chunk : List UInt8), (h.accept build chunk).pc.rank + 1 ≤ 16 :=
    fun h chunk => Nat.succ_le_succ (h.rank_accept_le chunk)
  cases hstep with
  | @opens ok hpc => cases ok <;> exact Pc.rank_drop hpc (by simp [Pc.rank]) _
  | recvFits hpc _ _ _ =>
      rw [hpc]
      exact (haccept _ _).trans (Nat.le_succ 16)
  | recvGrows hpc _ _ _ =>
      rw [hpc]
      exact le_rfl
  | grows hpc _ _ =>
      rw [hpc]
      exact haccept _ _
  | @ioctls request ok hpc =>
      cases ok <;> exact Pc.rank_drop hpc (by simp [Pc.rank, ReplyPc.rank]) _
  | appends hpc hev =>
      have hle := appendPacket_rank hev
      simp only [hpc, Pc.rank]
      omega
  | @appendReturns ok hpc =>
      cases build <;> cases ok <;>
        exact Pc.rank_drop hpc (by simp [afterAppend, Pc.rank, AppendPc.rank]) _
  | @unlocks ok hpc => cases ok <;> exact Pc.rank_drop hpc (by simp [Pc.rank]) _
  | @resets site hpc => cases site <;> exact Pc.rank_drop hpc (by simp [Pc.rank]) _
  | @remallocFails site junk hpc => cases site <;> exact Pc.rank_drop hpc (by simp [Pc.rank]) _
  | @remallocs site answer junk hpc _ =>
      cases site <;>
        exact Pc.rank_drop hpc (by simp [Pc.rank, ReplySite.afterReset, ReplyPc.rank]) _
  | @replies site pc pc' ev hpc hev =>
      have hle := writeToClient_rank hev
      cases site <;> simp only [hpc, Pc.rank] <;> omega
  | @replyReturns site ok hpc =>
      cases site <;> cases ok <;>
        exact Pc.rank_drop hpc (by simp [Pc.rank, ReplySite.afterReply, ReplyPc.rank]) _
  | @abortCloses allocated hpc => cases allocated <;> exact Pc.rank_drop hpc (by simp [Pc.rank]) _
  | mallocFails hpc | mallocs hpc _ | recvEnds hpc | growFails hpc _ | locks hpc | closesDevice hpc
  | freesLast hpc | closesClient hpc | abortFrees hpc | setsDone hpc =>
      exact Pc.rank_drop hpc (by simp [Pc.rank, AppendPc.rank]) _

/-- **A run makes no more calls than its data ask for.** Without more chunks every run ends.
Source: `handler.c`, `handle_connection`
Kind: P -/
theorem length_add_rank_le (hrun : handleConnection build events = some h) :
    events.length + h.pc.rank ≤ 7 + 12 * events.countP Event.fetches := by
  refine run_induction (P := fun events h =>
    events.length + h.pc.rank ≤ 7 + 12 * events.countP Event.fetches) le_rfl ?_ hrun
  intro events h ev h' _ ih hstep
  have hrank := (Handler.steps_of_step hstep).rank
  have hcount : (events ++ [ev]).countP Event.fetches =
      events.countP Event.fetches + ev.fetches.toNat := by
    rw [List.countP_append, List.countP_singleton]
    cases ev.fetches <;> rfl
  rw [hcount, List.length_append, List.length_singleton]
  omega

end rank

/-! ### At the end -/

/-- Everything taken was given back: the client's descriptor is closed once, the device's once if it
was opened and not else, every file opened for appending is closed, every buffer ever allocated is
freed once, the mutex is released as often as it was taken, and `done` is set once.
Source: `handler.c`, `handle_connection`
Kind: D -/
structure Released (h : Handler) (L : Ledger) : Prop where
  client : L.clientClosed = 1
  device : L.deviceClosed = L.deviceOpened
  device_le : L.deviceOpened ≤ 1
  append : L.appendClosed = L.appendOpened
  buffers : ∀ id, h.heap.freed.count id = if id < h.heap.next then 1 else 0
  mutex : L.unlocked = L.locked
  done : L.doneSet = 1

section released

variable {build : Build} {h : Handler} {events : List Event}

/-- A finished handler has released everything.
Source: `handler.c`, `handle_connection`
Kind: L -/
theorem released_of_finished (hrun : handleConnection build events = some h)
    (hend : h.pc = .finished) : Released h (ledger events) := by
  have hf := fits_of_run hrun
  have ho := (sound_of_run hrun).owned
  rw [hend] at hf ho
  have hdead : ∀ id, (h.heap.block id).isNone = true := by
    intro id
    rw [← Option.not_isSome, Bool.not_eq_true', Bool.eq_false_iff]
    intro hlive
    exact absurd ((ho.live_iff id).mp hlive) List.not_mem_nil
  refine ⟨hf.client, hf.device.symm, hf.once, hf.append.symm, fun id => ?_, hf.mutex.symm, hf.done⟩
  rw [ho.freed_count id]
  simp only [hdead id, and_true]

/-- **The handler releases what it takes.** In every run, whatever the calls return: a way leads to
the end, and the run is no longer than the chunks it has got ask for; no step follows a pointer but
to a buffer that is live; the mutex is released only when it is held; and at the end everything is
given back once, `done` was set last, and nothing more is done.
Source: `handler.c`, `handle_connection`
Kind: P -/
theorem resources_released (hrun : handleConnection build events = some h) :
    h.Exits build ∧
    events.length ≤ 7 + 12 * events.countP Event.fetches ∧
    (∀ ev h', h.step build ev = some h' → ∀ use ∈ h.uses ev, use.1.Live use.2) ∧
    ((ledger events).unlocked ≤ (ledger events).locked ∧
      (ledger events).locked ≤ (ledger events).unlocked + 1) ∧
    (h.pc = .finished → Released h (ledger events) ∧ (∃ es, events = es ++ [.setDone]) ∧
      ∀ ev, h.step build ev = none) := by
  refine ⟨h.exits build, ?_, ?_, ?_, ?_⟩
  · exact (Nat.le_add_right _ _).trans (length_add_rank_le hrun)
  · intro ev h' hstep
    exact (sound_of_run hrun).uses_live hstep
  · have hmutex := (fits_of_run hrun).mutex
    have hle := Bool.toNat_le (h.pc.holdings build).mutex
    omega
  · intro hend
    refine ⟨released_of_finished hrun hend, exists_eq_concat_setDone hrun hend, fun ev => ?_⟩
    simp only [Handler.step, hend]

end released

/-- A packet is appended under the mutex, and then there is no memory for the next buffer.
Source: `handler.c`, `handle_connection`
Kind: D -/
def appendThenNoMemory : List Event :=
  [.malloc .inPlace fun _ => 0, .openDevice true, .recv (some [97, 10]), .lock, .openAppend true,
    .write [97, 10] (some 2), .closeAppend, .appendReturns [97, 10] true, .unlock, .free,
    .malloc .fail fun _ => 0, .closeDevice, .free, .closeClient, .setDone]

/-- Both descriptors are closed, the one buffer is freed once, and the mutex is released.
Source: `handler.c`, `handle_connection`
Kind: N+ -/
theorem resources_released_no_memory :
    ∃ h, handleConnection .dataFile appendThenNoMemory = some h ∧ h.pc = .finished ∧
      Released h (ledger appendThenNoMemory) := by
  obtain ⟨h, hrun, hend⟩ := Option.map_eq_some_iff.mp
    (show (handleConnection .dataFile appendThenNoMemory).map Handler.pc = some .finished by
      decide +kernel)
  exact ⟨h, hrun, hend, ((resources_released hrun).2.2.2.2 hend).1⟩

end Aesd.Server
