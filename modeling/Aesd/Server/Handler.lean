import Aesd.Server.SeekCommand
import Aesd.Lib.Trace

/-!
# The connection handler (`server/handler.c`)

`handle_connection` and the two functions it calls, as machines that go from one system or library
call to the next: a state is the place in the code with the local variables, an event is a call
with its result, and `Handler.step` says which calls are possible and what follows. Everything
between two calls is computed. The environment chooses the results, so that every failure is a run
of the machine.

The heap of a handler is the part of the process's heap that its `data_buffer`s take; the log
messages are left out, and so is the difference between a `recv` of zero bytes and a failed one,
which only the log messages show.
-/

namespace Aesd.Server

open Aesd.Lib Aesd.Driver

/-! ### The calls and their results -/

/-- The size of the receive buffer, and what the data buffer starts with and grows by.
Source: `aesdsocket.h`, `BUFFER_SIZE`
Kind: D -/
abbrev bufferSize : ℕ := 1024

/-- The two builds: `USE_AESD_CHAR_DEVICE` is defined or not.
Source: `handler.c`, `handle_connection`
Kind: D -/
inductive Build where
  | charDevice
  | dataFile
  deriving DecidableEq, Repr

/-- A call of the handler with its result, or a return from one of its two functions.
Source: `handler.c`, `handle_connection`
Kind: D -/
inductive Event where
  | malloc (answer : AllocAnswer) (junk : ℕ → UInt8)
  | realloc (answer : AllocAnswer) (junk : ℕ → UInt8)
  | free
  /-- `open(FILENAME, O_RDONLY)` -/
  | openDevice (ok : Bool)
  /-- The bytes received; none for an end of the stream or an error. -/
  | recv (chunk : Option (List UInt8))
  | ioctl (request : AesdSeekto) (ok : Bool)
  /-- `read` on the device: the bytes read, or an error. -/
  | read (result : Option (List UInt8))
  | send (bytes : List UInt8) (sent : ℤ)
  /-- `write_to_client` returns. -/
  | replyReturns (ok : Bool)
  | lock
  | unlock
  /-- `open(fname, O_WRONLY | O_CREAT | O_APPEND)` -/
  | openAppend (ok : Bool)
  /-- `write` to the file opened for appending: the number of bytes, or an error. -/
  | write (bytes : List UInt8) (result : Option ℕ)
  | closeAppend
  /-- `append_packet` returns. -/
  | appendReturns (buf : List UInt8) (ok : Bool)
  | closeDevice
  | closeClient
  | setDone

/-- The allocation, the open, the `write`, the `ioctl` or the `send` did not fail. Neither a `recv`
nor a `read` is counted: one that fails ends its loop like one that delivers nothing.
Source: `handler.c`, `handle_connection` and `append_packet`
Kind: D -/
def Event.Succeeds : Event → Prop
  | .malloc answer _ | .realloc answer _ => answer ≠ .fail
  | .openDevice ok | .ioctl _ ok | .openAppend ok => ok = true
  | .write _ result => result.isSome = true
  | .send bytes sent => sent = bytes.length
  | _ => True

/-- Whether an event succeeds is found in its result.
Source: none: infrastructure
Kind: D -/
instance : DecidablePred Event.Succeeds
  | .malloc answer _ | .realloc answer _ => inferInstanceAs (Decidable (answer ≠ .fail))
  | .openDevice ok | .ioctl _ ok | .openAppend ok => inferInstanceAs (Decidable (ok = true))
  | .write _ result => inferInstanceAs (Decidable (result.isSome = true))
  | .send bytes sent => inferInstanceAs (Decidable (sent = bytes.length))
  | .free | .recv _ | .read _ | .replyReturns _ | .lock | .unlock | .closeAppend
  | .appendReturns _ _ | .closeDevice | .closeClient | .setDone => inferInstanceAs (Decidable True)

/-- The bytes an event sends to the client.
Source: `handler.c`, `handle_connection`
Kind: D -/
def Event.sent : Event → List UInt8
  | .send bytes _ => bytes
  | _ => []

/-- `PTRDIFF_MAX`: no allocation is larger.
Source: `handler.c`, `handle_connection`
Kind: D -/
def ptrdiffMax : ℕ := 2 ^ 63 - 1

/-- `malloc` of a size within the bound.
Source: `handler.c`, `handle_connection`
Kind: D -/
def malloc (answer : AllocAnswer) (junk : ℕ → UInt8) (n : ℕ) (heap : Heap UInt8) :
    Ptr × Heap UInt8 :=
  if answer = .fail then (.null, heap)
  else (.block heap.next, heap.fresh ((List.range n).map junk))

/-- `realloc`; `none` for an answer that no allocator gives. An empty request releases the
block.
Source: `handler.c`, `handle_connection`
Kind: D -/
def realloc (answer : AllocAnswer) (junk : ℕ → UInt8) (p : Ptr) (n : ℕ) (heap : Heap UInt8) :
    Option (Ptr × Heap UInt8) :=
  if n = 0 then some (.null, heap.free p)
  else if answer = .fail then some (.null, heap)
  else if ptrdiffMax < n then none
  else some (regrow answer junk p n heap)

/-! ### `append_packet` -/

/-- The places in `append_packet`.
Source: `handler.c`, `handle_connection` and `append_packet`
Kind: D -/
inductive AppendPc where
  | openFile
  | write
  | close (ok : Bool)
  | returned (ok : Bool)
  deriving DecidableEq

/-- One call of `append_packet`: the file is opened for appending, written once and closed.
Source: `handler.c`, `append_packet`
Kind: D -/
def appendPacket (buf : List UInt8) : AppendPc → Event → Option AppendPc
  | .openFile, .openAppend ok => some (if ok then .write else .returned false)
  | .write, .write bytes result => if bytes = buf then some (.close result.isSome) else none
  | .close ok, .closeAppend => some (.returned ok)
  | _, _ => none

/-! ### `write_to_client` -/

/-- The places in `write_to_client`.
Source: `handler.c`, `handle_connection` and `write_to_client`
Kind: D -/
inductive ReplyPc where
  | read
  | send (chunk : List UInt8)
  | returned (ok : Bool)
  deriving DecidableEq

/-- A `read` that fails ends the loop as one that reads nothing does.
Source: `handler.c`, `write_to_client`
Kind: D -/
def writeToClient : ReplyPc → Event → Option ReplyPc
  | .read, .read result =>
      match result with
      | some (b :: bytes) =>
          if (b :: bytes).length ≤ bufferSize then some (.send (b :: bytes)) else none
      | _ => some (.returned true)
  | .send chunk, .send bytes sent =>
      if bytes = chunk then some (if sent ≠ bytes.length then .returned false else .read) else none
  | _, _ => none

/-! ### `handle_connection` -/

/-- What a reply follows.
Source: `handler.c`, `handle_connection`
Kind: D -/
inductive ReplySite where
  | afterSeek
  | afterPacket
  deriving DecidableEq

/-- The places in `handle_connection`, each before the call it is named after.
Source: `handler.c`, `handle_connection`
Kind: D -/
inductive Pc where
  | malloc
  | openDevice
  | recv
  /-- The `realloc` for a chunk that has been received. -/
  | grow (chunk : List UInt8)
  | ioctl (request : AesdSeekto)
  | lock
  | append (pc : AppendPc)
  | unlock (ok : Bool)
  /-- The `free` and the `malloc` that reset the buffer. -/
  | reset (site : ReplySite)
  | remalloc (site : ReplySite)
  | reply (site : ReplySite) (pc : ReplyPc)
  | closeDevice
  | freeLast
  | closeClient
  /-- The end after a failed setup; whether there is a buffer to be freed. -/
  | abortClose (allocated : Bool)
  | abortFree
  | setDone
  | finished
  deriving DecidableEq

/-- The local variables of `handle_connection` and the heap.
Source: `handler.c`, `handle_connection`
Kind: D -/
structure Handler where
  pc : Pc
  dataBuffer : Ptr
  dataLen : ℕ
  heap : Heap UInt8

/-- A handler thread before its first call.
Source: `handler.c`, `handle_connection`
Kind: D -/
def Handler.start : Handler := ⟨.malloc, .null, 0, .empty⟩

/-- The memory at `data_buffer`.
Source: `handler.c`, `handle_connection`
Kind: D -/
def Handler.memory (h : Handler) : List UInt8 := h.heap.load h.dataBuffer

/-- The bytes stored: `data_buffer[0..data_len)`.
Source: `handler.c`, `handle_connection`
Kind: D -/
def Handler.data (h : Handler) : List UInt8 := h.memory.take h.dataLen

/-- The copy of a chunk behind the bytes stored, with the terminator.
Source: `handler.c`, `handle_connection`, `memcpy` and the assignments after it
Kind: D -/
def Handler.store (h : Handler) (chunk : List UInt8) : Handler :=
  { h with
    heap := h.heap.put h.dataBuffer (patch h.memory h.dataLen (chunk ++ [0]))
    dataLen := SizeT.add h.dataLen chunk.length }

/-- The SEEKTO branch: an invalid format is only logged.
Source: `handler.c`, `handle_connection`
Kind: D -/
def seekBranch : Option AesdSeekto → Pc
  | some request => .ioctl request
  | none => .reset .afterSeek

/-- The packet branch: in the file-backed build the mutex is taken first.
Source: `handler.c`, `handle_connection`
Kind: D -/
def packetBranch : Build → Pc
  | .charDevice => .append .openFile
  | .dataFile => .lock

/-- What the bytes stored ask for.
Source: `handler.c`, `handle_connection`, from `strncmp` to the first call
Kind: D -/
def Handler.dispatch (build : Build) (h : Handler) : Pc :=
  if strncmpEq seekto.length h.memory seekto then
    seekBranch (seekRequest (h.memory.drop seekto.length))
  else if newline ∈ h.data then packetBranch build
  else .recv

/-- Store a chunk and go on to what the buffer then asks for.
Source: `handler.c`, `handle_connection`
Kind: D -/
def Handler.accept (build : Build) (h : Handler) (chunk : List UInt8) : Handler :=
  { h.store chunk with pc := (h.store chunk).dispatch build }

/-- What follows a buffer reset.
Source: `handler.c`, `handle_connection` and `write_to_client`
Kind: D -/
def ReplySite.afterReset : ReplySite → Pc
  | .afterSeek => .recv
  | .afterPacket => .reply .afterPacket .read

/-- What follows a reply.
Source: `handler.c`, `handle_connection` and `write_to_client`
Kind: D -/
def ReplySite.afterReply : ReplySite → Pc
  | .afterSeek => .reset .afterSeek
  | .afterPacket => .recv

/-- What follows a return from `append_packet`; in the file-backed build the mutex is released
first.
Source: `handler.c`, `handle_connection`
Kind: D -/
def afterAppend : Build → Bool → Pc
  | .charDevice, ok => if ok then .reset .afterPacket else .closeDevice
  | .dataFile, ok => .unlock ok

/-- One call of `handle_connection`, with its result.
Source: `handler.c`, `handle_connection`
Kind: D -/
def Handler.step (build : Build) (h : Handler) (ev : Event) : Option Handler :=
  match h.pc with
  | .malloc =>
      match ev with
      | .malloc answer junk =>
          let (p, heap) := Server.malloc answer junk bufferSize h.heap
          some { pc := if p = .null then .abortClose false else .openDevice
                 dataBuffer := p, dataLen := 0, heap := heap }
      | _ => none
  | .openDevice =>
      match ev with
      | .openDevice ok => some { h with pc := if ok then .recv else .abortClose true }
      | _ => none
  | .recv =>
      match ev with
      | .recv none => some { h with pc := .closeDevice }
      | .recv (some chunk) =>
          if chunk = [] ∨ bufferSize - 1 < chunk.length then none
          else if bufferSize ≤ SizeT.add h.dataLen chunk.length then
            some { h with pc := .grow chunk }
          else some (h.accept build chunk)
      | _ => none
  | .grow chunk =>
      match ev with
      | .realloc answer junk =>
          let newSize := SizeT.mul 2 (SizeT.add h.dataLen chunk.length)
          (Server.realloc answer junk h.dataBuffer newSize h.heap).map fun (p, heap) =>
            if p = .null then { h with heap := heap, pc := .closeDevice }
            else { h with dataBuffer := p, heap := heap }.accept build chunk
      | _ => none
  | .ioctl request =>
      match ev with
      | .ioctl arg ok =>
          if arg = request then
            some { h with pc := if ok then .reply .afterSeek .read else .closeDevice }
          else none
      | _ => none
  | .lock =>
      match ev with
      | .lock => some { h with pc := .append .openFile }
      | _ => none
  | .append pc =>
      match pc with
      | .returned ok =>
          match ev with
          | .appendReturns buf result =>
              if buf = h.data ∧ result = ok then some { h with pc := afterAppend build ok } else none
          | _ => none
      | _ => (appendPacket h.data pc ev).map fun pc => { h with pc := .append pc }
  | .unlock ok =>
      match ev with
      | .unlock => some { h with pc := if ok then .reset .afterPacket else .closeDevice }
      | _ => none
  | .reset site =>
      match ev with
      | .free => some { h with heap := h.heap.free h.dataBuffer, dataLen := 0, pc := .remalloc site }
      | _ => none
  | .remalloc site =>
      match ev with
      | .malloc answer junk =>
          let (p, heap) := Server.malloc answer junk bufferSize h.heap
          some { h with
            dataBuffer := p, heap := heap, pc := if p = .null then .closeDevice else site.afterReset }
      | _ => none
  | .reply site pc =>
      match pc with
      | .returned ok =>
          match ev with
          | .replyReturns result =>
              if result = ok then some { h with pc := if ok then site.afterReply else .closeDevice }
              else none
          | _ => none
      | _ => (writeToClient pc ev).map fun pc => { h with pc := .reply site pc }
  | .closeDevice =>
      match ev with
      | .closeDevice => some { h with pc := .freeLast }
      | _ => none
  | .freeLast =>
      match ev with
      | .free => some { h with heap := h.heap.free h.dataBuffer, pc := .closeClient }
      | _ => none
  | .closeClient =>
      match ev with
      | .closeClient => some { h with pc := .setDone }
      | _ => none
  | .abortClose allocated =>
      match ev with
      | .closeClient => some { h with pc := if allocated then .abortFree else .setDone }
      | _ => none
  | .abortFree =>
      match ev with
      | .free => some { h with heap := h.heap.free h.dataBuffer, pc := .setDone }
      | _ => none
  | .setDone =>
      match ev with
      | .setDone => some { h with pc := .finished }
      | _ => none
  | .finished => none

/-- The handler after the events, from its start.
Source: `handler.c`, `handle_connection`
Kind: D -/
def handleConnection (build : Build) (events : List Event) : Option Handler :=
  run (Handler.step build) .start events

/-! ### Everything a step can do -/

/-- Everything one step of the handler can do, one case for each way on from a call.
Source: `handler.c`, `handle_connection`
Kind: D -/
inductive Handler.Steps (build : Build) (h : Handler) : Event → Handler → Prop where
  | mallocFails {junk : ℕ → UInt8} (hpc : h.pc = .malloc) :
      Steps build h (.malloc .fail junk) ⟨.abortClose false, .null, 0, h.heap⟩
  | mallocs {answer : AllocAnswer} {junk : ℕ → UInt8} (hpc : h.pc = .malloc)
      (hok : answer ≠ .fail) :
      Steps build h (.malloc answer junk) ⟨.openDevice, .block h.heap.next, 0,
        h.heap.fresh ((List.range bufferSize).map junk)⟩
  | opens {ok : Bool} (hpc : h.pc = .openDevice) :
      Steps build h (.openDevice ok) { h with pc := if ok then .recv else .abortClose true }
  | recvEnds (hpc : h.pc = .recv) : Steps build h (.recv none) { h with pc := .closeDevice }
  | recvGrows {chunk : List UInt8} (hpc : h.pc = .recv) (hne : chunk ≠ [])
      (hle : chunk.length ≤ 1023) (hlarge : 1024 ≤ SizeT.add h.dataLen chunk.length) :
      Steps build h (.recv (some chunk)) { h with pc := .grow chunk }
  | recvFits {chunk : List UInt8} (hpc : h.pc = .recv) (hne : chunk ≠ [])
      (hle : chunk.length ≤ 1023) (hfits : SizeT.add h.dataLen chunk.length < 1024) :
      Steps build h (.recv (some chunk)) (h.accept build chunk)
  | growFails {chunk : List UInt8} {answer : AllocAnswer} {junk : ℕ → UInt8} {heap : Heap UInt8}
      (hpc : h.pc = .grow chunk)
      (hre : realloc answer junk h.dataBuffer (SizeT.mul 2 (SizeT.add h.dataLen chunk.length))
        h.heap = some (.null, heap)) :
      Steps build h (.realloc answer junk) { h with heap := heap, pc := .closeDevice }
  | grows {chunk : List UInt8} {answer : AllocAnswer} {junk : ℕ → UInt8} {p : Ptr}
      {heap : Heap UInt8} (hpc : h.pc = .grow chunk)
      (hre : realloc answer junk h.dataBuffer (SizeT.mul 2 (SizeT.add h.dataLen chunk.length))
        h.heap = some (p, heap)) (hp : p ≠ .null) :
      Steps build h (.realloc answer junk)
        (Handler.accept build { h with dataBuffer := p, heap := heap } chunk)
  | ioctls {request : AesdSeekto} {ok : Bool} (hpc : h.pc = .ioctl request) :
      Steps build h (.ioctl request ok)
        { h with pc := if ok then .reply .afterSeek .read else .closeDevice }
  | locks (hpc : h.pc = .lock) : Steps build h .lock { h with pc := .append .openFile }
  | appends {pc pc' : AppendPc} {ev : Event} (hpc : h.pc = .append pc)
      (hev : appendPacket h.data pc ev = some pc') : Steps build h ev { h with pc := .append pc' }
  | appendReturns {ok : Bool} (hpc : h.pc = .append (.returned ok)) :
      Steps build h (.appendReturns h.data ok) { h with pc := afterAppend build ok }
  | unlocks {ok : Bool} (hpc : h.pc = .unlock ok) :
      Steps build h .unlock { h with pc := if ok then .reset .afterPacket else .closeDevice }
  | resets {site : ReplySite} (hpc : h.pc = .reset site) :
      Steps build h .free
        { h with heap := h.heap.free h.dataBuffer, dataLen := 0, pc := .remalloc site }
  | remallocFails {site : ReplySite} {junk : ℕ → UInt8} (hpc : h.pc = .remalloc site) :
      Steps build h (.malloc .fail junk) { h with dataBuffer := .null, pc := .closeDevice }
  | remallocs {site : ReplySite} {answer : AllocAnswer} {junk : ℕ → UInt8}
      (hpc : h.pc = .remalloc site) (hok : answer ≠ .fail) :
      Steps build h (.malloc answer junk)
        { h with
          dataBuffer := .block h.heap.next
          heap := h.heap.fresh ((List.range bufferSize).map junk)
          pc := site.afterReset }
  | replies {site : ReplySite} {pc pc' : ReplyPc} {ev : Event} (hpc : h.pc = .reply site pc)
      (hev : writeToClient pc ev = some pc') : Steps build h ev { h with pc := .reply site pc' }
  | replyReturns {site : ReplySite} {ok : Bool} (hpc : h.pc = .reply site (.returned ok)) :
      Steps build h (.replyReturns ok)
        { h with pc := if ok then site.afterReply else .closeDevice }
  | closesDevice (hpc : h.pc = .closeDevice) :
      Steps build h .closeDevice { h with pc := .freeLast }
  | freesLast (hpc : h.pc = .freeLast) :
      Steps build h .free { h with heap := h.heap.free h.dataBuffer, pc := .closeClient }
  | closesClient (hpc : h.pc = .closeClient) :
      Steps build h .closeClient { h with pc := .setDone }
  | abortCloses {allocated : Bool} (hpc : h.pc = .abortClose allocated) :
      Steps build h .closeClient { h with pc := if allocated then .abortFree else .setDone }
  | abortFrees (hpc : h.pc = .abortFree) :
      Steps build h .free { h with heap := h.heap.free h.dataBuffer, pc := .setDone }
  | setsDone (hpc : h.pc = .setDone) : Steps build h .setDone { h with pc := .finished }

section steps

variable {build : Build} {h h' : Handler} {ev : Event}

/-- `malloc` gives out a new block when it does not fail.
Source: `handler.c`, `handle_connection`
Kind: L -/
theorem malloc_of_ne_fail {answer : AllocAnswer} (hok : answer ≠ .fail) (junk : ℕ → UInt8) (n : ℕ)
    (heap : Heap UInt8) : malloc answer junk n heap =
      (.block heap.next, heap.fresh ((List.range n).map junk)) := if_neg hok

/-- The calls of `append_packet`.
Source: `handler.c`, `append_packet`
Kind: L -/
theorem appendPacket_event {buf : List UInt8} {pc pc' : AppendPc}
    (hev : appendPacket buf pc ev = some pc') :
    (∃ ok, ev = .openAppend ok) ∨ (∃ bytes result, ev = .write bytes result) ∨
      ev = .closeAppend := by
  unfold appendPacket at hev
  split at hev
  · exact Or.inl ⟨_, rfl⟩
  · exact Or.inr (Or.inl ⟨_, _, rfl⟩)
  · exact Or.inr (Or.inr rfl)
  · cases hev

/-- The calls of `write_to_client`.
Source: `handler.c`, `write_to_client`
Kind: L -/
theorem writeToClient_event {pc pc' : ReplyPc} (hev : writeToClient pc ev = some pc') :
    (∃ result, ev = .read result) ∨ ∃ bytes sent, ev = .send bytes sent := by
  unfold writeToClient at hev
  split at hev
  · exact Or.inl ⟨_, rfl⟩
  · exact Or.inr ⟨_, _, rfl⟩
  · cases hev

/-- Where the bytes stored lead: to the seek, to the reset after a seek that is not understood, to
the packet, or back to the next chunk.
Source: `handler.c`, `handle_connection`
Kind: L -/
theorem Handler.dispatch_cases (h : Handler) (build : Build) :
    (∃ request, h.dispatch build = .ioctl request) ∨ h.dispatch build = .reset .afterSeek ∨
      (newline ∈ h.data ∧ h.dispatch build = packetBranch build) ∨ h.dispatch build = .recv := by
  unfold Handler.dispatch
  split_ifs with hseek hnl
  · cases seekRequest (h.memory.drop seekto.length) with
    | none => exact Or.inr (Or.inl rfl)
    | some request => exact Or.inl ⟨request, rfl⟩
  · exact Or.inr (Or.inr (Or.inl ⟨hnl, rfl⟩))
  · exact Or.inr (Or.inr (Or.inr rfl))

/-- What holds of all these places holds of the one that a chunk leads to.
Source: `handler.c`, `handle_connection`
Kind: L -/
theorem Handler.accept_pc {P : Pc → Prop} (hioctl : ∀ request, P (.ioctl request))
    (hreset : P (.reset .afterSeek)) (hpacket : P (packetBranch build)) (hrecv : P .recv)
    (h : Handler) (chunk : List UInt8) : P (h.accept build chunk).pc := by
  change P ((h.store chunk).dispatch build)
  rcases (h.store chunk).dispatch_cases build with ⟨request, hpc⟩ | hpc | ⟨-, hpc⟩ | hpc <;>
    rw [hpc]
  · exact hioctl request
  · exact hreset
  · exact hpacket
  · exact hrecv

/-- The steps of the two functions inside `handle_connection`.
Source: `handler.c`, `handle_connection` and `write_to_client`
Kind: L -/
theorem Handler.steps_of_call (hstep : h.step build ev = some h') :
    (∀ pc, h.pc = .append pc → h.Steps build ev h') ∧
    ∀ site pc, h.pc = .reply site pc → h.Steps build ev h' := by
  constructor
  · intro pc hpc
    simp only [Handler.step, hpc] at hstep
    cases pc with
    | returned ok =>
        cases ev with
        | appendReturns buf result =>
            simp only [Option.ite_none_right_eq_some, Option.some.injEq] at hstep
            obtain ⟨⟨rfl, rfl⟩, rfl⟩ := hstep
            exact .appendReturns hpc
        | _ => cases hstep
    | _ =>
        simp only [Option.map_eq_some_iff] at hstep
        obtain ⟨pc', hev, rfl⟩ := hstep
        exact .appends hpc hev
  · intro site pc hpc
    simp only [Handler.step, hpc] at hstep
    cases pc with
    | returned ok =>
        cases ev with
        | replyReturns result =>
            simp only [Option.ite_none_right_eq_some, Option.some.injEq] at hstep
            obtain ⟨rfl, rfl⟩ := hstep
            exact .replyReturns hpc
        | _ => cases hstep
    | _ =>
        simp only [Option.map_eq_some_iff] at hstep
        obtain ⟨pc', hev, rfl⟩ := hstep
        exact .replies hpc hev

/-- **The code of `handle_connection`, analysed once.**
Source: `handler.c`, `handle_connection`
Kind: P -/
theorem Handler.steps_of_step (hstep : h.step build ev = some h') : h.Steps build ev h' := by
  cases hpc : h.pc with
  | append pc => exact (steps_of_call hstep).1 pc hpc
  | reply site pc => exact (steps_of_call hstep).2 site pc hpc
  | malloc =>
      simp only [Handler.step, hpc] at hstep
      cases ev with
      | malloc answer junk =>
          by_cases hok : answer = .fail
          · subst hok
            cases hstep
            exact .mallocFails hpc
          · simp only [malloc_of_ne_fail hok, reduceCtorEq, if_false, Option.some.injEq] at hstep
            subst hstep
            exact .mallocs hpc hok
      | _ => cases hstep
  | remalloc site =>
      simp only [Handler.step, hpc] at hstep
      cases ev with
      | malloc answer junk =>
          by_cases hok : answer = .fail
          · subst hok
            cases hstep
            exact .remallocFails hpc
          · simp only [malloc_of_ne_fail hok, reduceCtorEq, if_false, Option.some.injEq] at hstep
            subst hstep
            exact .remallocs hpc hok
      | _ => cases hstep
  | recv =>
      simp only [Handler.step, hpc] at hstep
      cases ev with
      | recv chunk =>
          cases chunk with
          | none =>
              cases hstep
              exact .recvEnds hpc
          | some chunk =>
              simp only [Option.ite_none_left_eq_some, not_or, Nat.not_lt] at hstep
              obtain ⟨⟨hne, hle⟩, hstep⟩ := hstep
              split_ifs at hstep with hlarge
              · cases hstep
                exact .recvGrows hpc hne hle hlarge
              · cases hstep
                exact .recvFits hpc hne hle (Nat.lt_of_not_le hlarge)
      | _ => cases hstep
  | grow chunk =>
      simp only [Handler.step, hpc] at hstep
      cases ev with
      | realloc answer junk =>
          simp only [Option.map_eq_some_iff] at hstep
          obtain ⟨⟨p, heap⟩, hre, rfl⟩ := hstep
          by_cases hp : p = .null
          · subst hp
            exact .growFails hpc hre
          · simp only [hp, if_false]
            exact .grows hpc hre hp
      | _ => cases hstep
  | ioctl request =>
      simp only [Handler.step, hpc] at hstep
      cases ev with
      | ioctl arg ok =>
          simp only [Option.ite_none_right_eq_some, Option.some.injEq] at hstep
          obtain ⟨rfl, rfl⟩ := hstep
          exact .ioctls hpc
      | _ => cases hstep
  | finished =>
      simp only [Handler.step, hpc] at hstep
      cases hstep
  | _ =>
      -- one call is possible, whatever it returns
      simp only [Handler.step, hpc] at hstep
      cases ev <;> cases hstep
      all_goals
        first
        | exact .opens hpc
        | exact .locks hpc
        | exact .unlocks hpc
        | exact .resets hpc
        | exact .closesDevice hpc
        | exact .freesLast hpc
        | exact .closesClient hpc
        | exact .abortCloses hpc
        | exact .abortFrees hpc
        | exact .setsDone hpc

/-! ### The last call -/

/-- A handler finishes with the step that sets `done`.
Source: `handler.c`, `handle_connection`
Kind: L -/
theorem Handler.Steps.finished_iff (hstep : h.Steps build ev h') :
    h'.pc = .finished ↔ ev = .setDone := by
  have haccept : ∀ (h : Handler) (chunk : List UInt8), (h.accept build chunk).pc ≠ .finished := by
    apply Handler.accept_pc (P := fun pc => pc ≠ .finished)
    · exact fun _ => nofun
    · exact nofun
    · cases build <;> exact nofun
    · exact nofun
  cases hstep with
  | setsDone hpc => exact iff_of_true rfl rfl
  | recvFits _ _ _ _ => exact iff_of_false (haccept _ _) nofun
  | grows _ _ _ => exact iff_of_false (haccept _ _) nofun
  | @opens ok _ => cases ok <;> exact iff_of_false nofun nofun
  | @ioctls request ok _ => cases ok <;> exact iff_of_false nofun nofun
  | appends _ hev =>
      refine iff_of_false nofun ?_
      rcases appendPacket_event hev with ⟨ok, rfl⟩ | ⟨bytes, result, rfl⟩ | rfl <;> exact nofun
  | replies _ hev =>
      refine iff_of_false nofun ?_
      rcases writeToClient_event hev with ⟨result, rfl⟩ | ⟨bytes, sent, rfl⟩ <;> exact nofun
  | @appendReturns ok _ => cases build <;> cases ok <;> exact iff_of_false nofun nofun
  | @unlocks ok _ => cases ok <;> exact iff_of_false nofun nofun
  | @remallocs site _ _ _ _ => cases site <;> exact iff_of_false nofun nofun
  | @replyReturns site ok _ => cases site <;> cases ok <;> exact iff_of_false nofun nofun
  | @abortCloses allocated _ => cases allocated <;> exact iff_of_false nofun nofun
  | _ => exact iff_of_false nofun nofun

/-- The last thing that a finished handler has done is to set `done`.
Source: `handler.c`, `handle_connection`
Kind: L -/
theorem exists_eq_concat_setDone {events : List Event}
    (hrun : handleConnection build events = some h) (hend : h.pc = .finished) :
    ∃ es, events = es ++ [.setDone] := by
  rcases List.eq_nil_or_concat events with rfl | ⟨es, ev, rfl⟩
  · cases hrun
    cases hend
  · rw [List.concat_eq_append] at hrun ⊢
    obtain ⟨h₀, -, hstep⟩ := run_concat.mp hrun
    rw [(Handler.steps_of_step hstep).finished_iff.mp hend]
    exact ⟨es, rfl⟩

end steps

end Aesd.Server
