import Aesd.Server.Buffer

/-!
# The server over the device

Any number of connection handlers run in any interleaving over one character device; the server is
the device's only writer. A step of the system is a step of one handler, and the device answers
the calls that reach it: the events of the two machines are synchronised.

* `handleConnection_of_run` — every connection of the system runs as `handle_connection` does, so
  that what holds for every run of a handler holds for every connection;
* `packets_kept_in_order` — no packet is lost, torn or reordered.
-/

namespace Aesd.Server

open Aesd.Lib Aesd.Driver

/-! ### The system -/

/-- The kernel's part in a call that reaches the device.
Source: `handler.c`, `handle_connection`; `main.c`, the file operations
Kind: D -/
structure KernelEnv where
  write : WriteEnv
  read : ReadEnv
  /-- The request of an `ioctl` cannot be read. -/
  ioctlFaults : Bool
  ioctlInterrupted : Bool

/-- No call is disturbed.
Source: `handler.c`, `handle_connection`; `main.c`, the file operations
Kind: D -/
def KernelEnv.undisturbed : KernelEnv := ⟨.undisturbed, .undisturbed, false, false⟩

/-- What the device does in an event, with the position of the connection's descriptor; `none` when
it does not answer so. Packets are appended through a descriptor of their own, at position zero.
Source: `main.c`, the file operations
Kind: D -/
def deviceAnswer (K : KernelLimits) (env : KernelEnv) (ev : Event) (fPos : ℤ) (dev : AesdDev) :
    Option (ℤ × AesdDev) :=
  match ev with
  | .openDevice _ => some (0, dev)
  | .read result =>
      let r := aesdRead env.read bufferSize fPos dev
      if result = r.1.toOption then some (r.2, dev) else none
  | .ioctl request ok =>
      let arg := if env.ioctlFaults then none else some request
      let r := aesdIoctl ⟨arg, env.ioctlInterrupted⟩ aesdcharIocseekto fPos dev
      if ok = r.1.isOk then some (r.2, dev) else none
  | .write bytes result =>
      let r := vfsWrite K env.write bytes 0 dev
      if result = r.1.toOption then some (fPos, r.2.2) else none
  | _ => some (fPos, dev)

/-- The device, the handlers of all connections, and the positions of their descriptors.
Source: `handler.c`, `handle_connection`; `main.c`, the file operations
Kind: D -/
structure Aesdsocket where
  dev : AesdDev
  conns : ℕ → Handler
  fPos : ℕ → ℤ

/-- A step of one connection.
Source: `handler.c`, `handle_connection`; `main.c`, the file operations
Kind: D -/
structure ServerStep where
  conn : ℕ
  env : KernelEnv
  event : Event

/-- The module is loaded and no handler has done anything yet.
Source: `handler.c`, `handle_connection`; `main.c`, the file operations
Kind: D -/
def Aesdsocket.start : Aesdsocket := ⟨aesdInitModule, fun _ => .start, fun _ => 0⟩

/-- A handler takes a step, and the device answers.
Source: `handler.c`, `handle_connection`; `main.c`, the file operations
Kind: D -/
def Aesdsocket.step (K : KernelLimits) (s : Aesdsocket) (t : ServerStep) : Option Aesdsocket :=
  ((s.conns t.conn).step .charDevice t.event).bind fun h =>
    (deviceAnswer K t.env t.event (s.fPos t.conn) s.dev).map fun r =>
      ⟨r.2, Function.update s.conns t.conn h, Function.update s.fPos t.conn r.1⟩

/-- The server after the steps, from its start.
Source: `main.c`, the file operations
Kind: D -/
def serverRun (K : KernelLimits) (steps : List ServerStep) : Option Aesdsocket :=
  run (Aesdsocket.step K) .start steps

/-- The events of one connection.
Source: `handler.c`, `handle_connection`
Kind: D -/
def eventsOf (i : ℕ) (steps : List ServerStep) : List Event :=
  (steps.filter (·.conn = i)).map ServerStep.event

section system

variable {K : KernelLimits} {s s' : Aesdsocket} {t : ServerStep} {steps : List ServerStep}

/-- A step of the system: the handler's part and the device's part.
Source: `main.c`, the file operations
Kind: L -/
theorem Aesdsocket.step_cases (hstep : s.step K t = some s') :
    ∃ h pos dev, (s.conns t.conn).step .charDevice t.event = some h ∧
      deviceAnswer K t.env t.event (s.fPos t.conn) s.dev = some (pos, dev) ∧
      s' = ⟨dev, Function.update s.conns t.conn h, Function.update s.fPos t.conn pos⟩ := by
  obtain ⟨h, hh, hrest⟩ := Option.bind_eq_some_iff.mp hstep
  obtain ⟨⟨pos, dev⟩, hdev, rfl⟩ := Option.map_eq_some_iff.mp hrest
  exact ⟨h, pos, dev, hh, hdev, rfl⟩

/-- The device changes in a `write` and in no other event.
Source: `main.c`, the file operations
Kind: L -/
theorem deviceAnswer_cases {env : KernelEnv} {ev : Event} {fPos pos : ℤ} {dev dev' : AesdDev}
    (hans : deviceAnswer K env ev fPos dev = some (pos, dev')) :
    (∃ bytes result, ev = .write bytes result ∧
      result = (vfsWrite K env.write bytes 0 dev).1.toOption ∧ pos = fPos ∧
      dev' = (vfsWrite K env.write bytes 0 dev).2.2) ∨
    ((∀ bytes result, ev ≠ .write bytes result) ∧ dev' = dev) := by
  unfold deviceAnswer at hans
  split at hans
  · cases hans
    exact Or.inr ⟨by simp, rfl⟩
  · rw [Option.ite_none_right_eq_some] at hans
    cases hans.2
    exact Or.inr ⟨by simp, rfl⟩
  · rw [Option.ite_none_right_eq_some] at hans
    cases hans.2
    exact Or.inr ⟨by simp, rfl⟩
  · rw [Option.ite_none_right_eq_some] at hans
    cases hans.2
    exact Or.inl ⟨_, _, rfl, hans.1, rfl, rfl⟩
  · rename_i hwrite
    cases hans
    exact Or.inr ⟨hwrite, rfl⟩

/-- One more event of the connection.
Source: none: infrastructure
Kind: L -/
theorem eventsOf_concat_self (steps : List ServerStep) (t : ServerStep) :
    eventsOf t.conn (steps ++ [t]) = eventsOf t.conn steps ++ [t.event] := by
  simp [eventsOf, List.filter_append]

/-- One more event of another connection.
Source: none: infrastructure
Kind: L -/
theorem eventsOf_concat_of_ne {i : ℕ} (steps : List ServerStep) (hne : t.conn ≠ i) :
    eventsOf i (steps ++ [t]) = eventsOf i steps := by
  simp [eventsOf, List.filter_append, hne]

/-- The events of a connection are read off the steps.
Source: none: infrastructure
Kind: L -/
theorem eventsOf_eq_filterMap (i : ℕ) (steps : List ServerStep) :
    eventsOf i steps = steps.filterMap fun t => if t.conn = i then some t.event else none := by
  induction steps with
  | nil => rfl
  | cons t steps ih =>
      rw [eventsOf] at ih ⊢
      by_cases hi : t.conn = i
      · simp [hi, ih]
      · simp [hi, ih]

/-- **Every connection of the system runs as `handle_connection` does.**
Source: `handler.c`, `handle_connection`
Kind: P -/
theorem handleConnection_of_run (hrun : serverRun K steps = some s) (i : ℕ) :
    handleConnection .charDevice (eventsOf i steps) = some (s.conns i) := by
  rw [eventsOf_eq_filterMap]
  refine run_filterMap (f := fun s => s.conns i) ?_ ?_ hrun
  · intro s t s' ev hstep hown
    obtain ⟨h, pos, dev, hh, -, rfl⟩ := Aesdsocket.step_cases hstep
    obtain ⟨rfl, hev⟩ := Option.ite_none_right_eq_some.mp hown
    cases hev
    change _ = some (Function.update s.conns t.conn h t.conn)
    rw [Function.update_self]
    exact hh
  · intro s t s' hstep hown
    obtain ⟨h, pos, dev, -, -, rfl⟩ := Aesdsocket.step_cases hstep
    have hne : i ≠ t.conn := fun h => Option.some_ne_none _ (ite_eq_right_iff.mp hown h.symm)
    exact Function.update_of_ne hne _ _

end system

/-! ### The packets of one connection -/

/-- The payload of a `write` that succeeded.
Source: `handler.c`, `handle_connection` and `append_packet`
Kind: D -/
def Event.written : Event → Option (List UInt8)
  | .write bytes (some _) => some bytes
  | _ => none

/-- The payload for which `append_packet` returned zero.
Source: `handler.c`, `handle_connection` and `append_packet`
Kind: D -/
def Event.acknowledged : Event → Option (List UInt8)
  | .appendReturns buf true => some buf
  | _ => none

/-- The payload that has been written and for which `append_packet` is about to return zero.
Source: `handler.c`, `handle_connection`
Kind: D -/
def Pc.inFlight (data : List UInt8) : Pc → List (List UInt8)
  | .append (.close true) | .append (.returned true) => [data]
  | _ => []

/-- The places of the packet branch up to the return of `append_packet`.
Source: `handler.c`, `handle_connection`
Kind: D -/
def Pc.appending : Pc → Bool
  | .lock | .append _ => true
  | _ => false

/-- What a handler appends holds a newline, and what it has written is what `append_packet` has
acknowledged or is about to.
Source: `handler.c`, `handle_connection` and `append_packet`
Kind: D -/
structure Appends (events : List Event) (h : Handler) : Prop where
  loaded : h.pc.appending = true → newline ∈ h.data
  written : events.filterMap Event.written =
    events.filterMap Event.acknowledged ++ h.pc.inFlight h.data

section appends

variable {build : Build} {h h' : Handler} {ev : Event} {events : List Event} {chunk : List UInt8}

/-- An event that hands the payload on or writes nothing.
Source: `handler.c`, `append_packet`
Kind: L -/
theorem Appends.next (ha : Appends events h)
    (hload : h'.pc.appending = true → newline ∈ h'.data)
    (hflight : h.pc.inFlight h.data ++ ev.written.toList =
      ev.acknowledged.toList ++ h'.pc.inFlight h'.data) : Appends (events ++ [ev]) h' := by
  refine ⟨hload, ?_⟩
  rw [filterMap_concat, filterMap_concat, ha.written, List.append_assoc, hflight,
    List.append_assoc]

/-- A step that changes nothing but the place.
Source: `handler.c`, `append_packet`
Kind: L -/
theorem Appends.setPc (ha : Appends events h) {pc pc' : Pc} (hpc : h.pc = pc)
    (happ : (pc.appending || !pc'.appending) = true)
    (hflight : pc.inFlight h.data ++ ev.written.toList =
      ev.acknowledged.toList ++ pc'.inFlight h.data) :
    Appends (events ++ [ev]) { h with pc := pc' } := by
  subst hpc
  refine ha.next (fun hload => ha.loaded ?_) hflight
  have hnew : pc'.appending = true := hload
  rw [hnew, Bool.not_true, Bool.or_false] at happ
  exact happ

/-- The packet branch is entered with a newline stored.
Source: `handler.c`, `handle_connection`
Kind: L -/
theorem Handler.loaded_accept (h : Handler) (build : Build) (chunk : List UInt8) :
    ((h.accept build chunk).pc.appending = true → newline ∈ (h.accept build chunk).data) ∧
      (h.accept build chunk).pc.inFlight (h.accept build chunk).data = [] := by
  change (((h.store chunk).dispatch build).appending = true → newline ∈ (h.store chunk).data) ∧
    ((h.store chunk).dispatch build).inFlight (h.store chunk).data = []
  rcases (h.store chunk).dispatch_cases build with ⟨request, hpc⟩ | hpc | ⟨hnl, hpc⟩ | hpc
  · simp [hpc, Pc.appending, Pc.inFlight]
  · simp [hpc, Pc.appending, Pc.inFlight]
  · refine ⟨fun _ => hnl, ?_⟩
    rw [hpc]
    cases build <;> rfl
  · simp [hpc, Pc.appending, Pc.inFlight]

/-- The steps of `append_packet`.
Source: `handler.c`, `append_packet`
Kind: L -/
theorem Appends.appendStep (ha : Appends events h) {pc pc' : AppendPc} (hpc : h.pc = .append pc)
    (hev : appendPacket h.data pc ev = some pc') :
    Appends (events ++ [ev]) { h with pc := .append pc' } := by
  unfold appendPacket at hev
  split at hev
  · rename_i ok
    cases hev
    cases ok <;> exact ha.setPc hpc rfl rfl
  · rename_i bytes result
    rw [Option.ite_none_right_eq_some] at hev
    obtain ⟨rfl, hev⟩ := hev
    cases hev
    cases result <;> exact ha.setPc hpc rfl rfl
  · rename_i ok
    cases hev
    cases ok <;> exact ha.setPc hpc rfl rfl
  · cases hev

/-- `write_to_client` appends nothing.
Source: `handler.c`, `append_packet` and `write_to_client`
Kind: L -/
theorem writeToClient_appends_nothing {pc pc' : ReplyPc} (hev : writeToClient pc ev = some pc') :
    ev.written = none ∧ ev.acknowledged = none := by
  rcases writeToClient_event hev with ⟨result, rfl⟩ | ⟨bytes, sent, rfl⟩
  · exact ⟨rfl, rfl⟩
  · exact ⟨rfl, rfl⟩

/-- Every event keeps what is written behind what is acknowledged.
Source: `handler.c`, `append_packet`
Kind: L -/
theorem Appends.step (ha : Appends events h) (hstep : h.Steps build ev h') :
    Appends (events ++ [ev]) h' := by
  cases hstep with
  | mallocFails hpc => exact ha.next (by simp [Pc.appending]) (by rw [hpc]; rfl)
  | mallocs hpc _ => exact ha.next (by simp [Pc.appending]) (by rw [hpc]; rfl)
  | @opens ok hpc => cases ok <;> exact ha.setPc hpc rfl rfl
  | recvEnds hpc => exact ha.setPc hpc rfl rfl
  | recvGrows hpc _ _ _ => exact ha.setPc hpc rfl rfl
  | @recvFits chunk hpc _ _ _ =>
      obtain ⟨hload, hflight⟩ := h.loaded_accept build chunk
      apply ha.next hload
      rw [hflight, hpc]
      rfl
  | growFails hpc _ => exact ha.next (by simp [Pc.appending]) (by rw [hpc]; rfl)
  | @grows chunk answer junk p heap hpc _ _ =>
      obtain ⟨hload, hflight⟩ :=
        Handler.loaded_accept { h with dataBuffer := p, heap := heap } build chunk
      apply ha.next hload
      rw [hflight, hpc]
      rfl
  | @ioctls request ok hpc => cases ok <;> exact ha.setPc hpc rfl rfl
  | locks hpc => exact ha.setPc hpc rfl rfl
  | appends hpc hev => exact ha.appendStep hpc hev
  | @appendReturns ok hpc => cases build <;> cases ok <;> exact ha.setPc hpc rfl rfl
  | @unlocks ok hpc => cases ok <;> exact ha.setPc hpc rfl rfl
  | resets hpc => exact ha.next (by simp [Pc.appending]) (by rw [hpc]; rfl)
  | remallocFails hpc => exact ha.next (by simp [Pc.appending]) (by rw [hpc]; rfl)
  | @remallocs site answer junk hpc _ =>
      cases site <;>
        exact ha.next (by simp [Pc.appending, ReplySite.afterReset]) (by rw [hpc]; rfl)
  | replies hpc hev =>
      obtain ⟨hwritten, hack⟩ := writeToClient_appends_nothing hev
      apply ha.setPc hpc rfl
      rw [hwritten, hack]
      rfl
  | @replyReturns site ok hpc => cases ok <;> cases site <;> exact ha.setPc hpc rfl rfl
  | closesDevice hpc => exact ha.setPc hpc rfl rfl
  | freesLast hpc => exact ha.next (by simp [Pc.appending]) (by rw [hpc]; rfl)
  | closesClient hpc => exact ha.setPc hpc rfl rfl
  | @abortCloses allocated hpc => cases allocated <;> exact ha.setPc hpc rfl rfl
  | abortFrees hpc => exact ha.next (by simp [Pc.appending]) (by rw [hpc]; rfl)
  | setsDone hpc => exact ha.setPc hpc rfl rfl

/-- So it is along every run.
Source: `handler.c`, `handle_connection` and `append_packet`
Kind: L -/
theorem appends_of_run (hrun : handleConnection build events = some h) : Appends events h := by
  refine run_induction (P := Appends) ⟨by simp [Handler.start, Pc.appending], rfl⟩ ?_ hrun
  intro es t ev t' _ ha hstep
  exact ha.step (Handler.steps_of_step hstep)

/-- A `write` is one of `append_packet`, of the bytes stored.
Source: `handler.c`, `handle_connection`
Kind: L -/
theorem Handler.Steps.write_cases {bytes : List UInt8} {result : Option ℕ}
    (hstep : h.Steps build (.write bytes result) h') :
    h.pc = .append .write ∧ bytes = h.data ∧ h' = { h with pc := .append (.close result.isSome) } := by
  cases hstep with
  | @appends pc pc' _ hpc hev =>
      cases pc with
      | write =>
          rw [appendPacket, Option.ite_none_right_eq_some] at hev
          obtain ⟨rfl, hev⟩ := hev
          cases hev
          exact ⟨hpc, rfl, rfl⟩
      | _ => cases hev
  | @replies site pc pc' _ hpc hev => cases pc <;> cases hev

end appends

/-! ### The packets of all connections -/

/-- The payloads written, each with its connection, in the order of the `write` calls.
Source: `handler.c`, `append_packet`
Kind: D -/
def packetLog (steps : List ServerStep) : List (ℕ × List UInt8) :=
  steps.filterMap fun t => t.event.written.map fun payload => (t.conn, payload)

section packets

variable {K : KernelLimits} {s s' : Aesdsocket} {t : ServerStep} {steps : List ServerStep}

/-- The packet of one more step.
Source: none: infrastructure
Kind: L -/
theorem packetLog_concat (steps : List ServerStep) (t : ServerStep) :
    packetLog (steps ++ [t]) =
      packetLog steps ++ (t.event.written.map fun payload => (t.conn, payload)).toList :=
  filterMap_concat _ steps t

/-- The log of one connection is what it has written.
Source: `handler.c`, `append_packet`
Kind: L -/
theorem packetLog_of_conn (i : ℕ) (steps : List ServerStep) :
    ((packetLog steps).filter (·.1 = i)).map Prod.snd =
      (eventsOf i steps).filterMap Event.written := by
  induction steps with
  | nil => rfl
  | cons t steps ih =>
      have hlog : packetLog (t :: steps) =
          (t.event.written.map fun payload => (t.conn, payload)).toList ++ packetLog steps := by
        unfold packetLog
        cases hw : t.event.written <;> simp [hw]
      rw [hlog, List.filter_append, List.map_append, ih]
      by_cases hi : t.conn = i
      · cases hw : t.event.written <;> simp [eventsOf, hi, hw]
      · cases hw : t.event.written <;> simp [eventsOf, hi]

/-- The device holds what has been written, in order and nothing else.
Source: `handler.c`, `handle_connection`; `main.c`, the file operations
Kind: D -/
structure Kept (K : KernelLimits) (steps : List ServerStep) (s : Aesdsocket) : Prop where
  represents : Represents K s.dev
  records : s.dev.records = ⟨(packetLog steps).map Prod.snd, []⟩

/-- What was added to the ring are the payloads written.
Source: `handler.c`, `append_packet`; `main.c`, the file operations
Kind: L -/
theorem Kept.added (hk : Kept K steps s) : s.dev.added = (packetLog steps).map Prod.snd :=
  congrArg Records.done hk.records

/-- The write commands are the last ten payloads.
Source: `handler.c`, `append_packet`; `main.c`, the file operations
Kind: L -/
theorem Kept.commands (hk : Kept K steps s) :
    s.dev.commands = ((packetLog steps).map Prod.snd).rtake 10 := by
  rw [hk.represents.commands_eq, hk.added]

/-- The content is that of the last ten payloads.
Source: `handler.c`, `append_packet`; `main.c`, the file operations
Kind: L -/
theorem Kept.content (hk : Kept K steps s) :
    s.dev.content = (((packetLog steps).map Prod.snd).rtake 10).flatten := by
  rw [AesdDev.content, hk.commands]

/-- A `write` of a payload with a newline to a device with nothing pending adds the payload, or
fails and adds nothing.
Source: `main.c`, the file operations
Kind: L -/
theorem vfsWrite_payload {bytes : List UInt8} {dev : AesdDev} (hrep : Represents K dev)
    (hpending : dev.pending = []) (hnl : newline ∈ bytes) (env : WriteEnv) (fPos : ℤ) :
    Represents K (vfsWrite K env bytes fPos dev).2.2 ∧
      (vfsWrite K env bytes fPos dev).2.2.records =
        ⟨dev.added ++ ((vfsWrite K env bytes fPos dev).1.toOption.map fun _ => bytes).toList, []⟩ := by
  have hout := vfsWrite_outcome hrep env bytes fPos
  generalize vfsWrite K env bytes fPos dev = r at hout ⊢
  cases hout with
  | refused _ hrep' _ hrec =>
      refine ⟨hrep', hrec.trans ?_⟩
      exact Records.ext (by simp [AesdDev.records, Except.toOption]) hpending
  | dropped _ _ _ hne => exact absurd hpending hne
  | accepted _ halloc _ _ hrep' hrec =>
      rw [take_maxRwCount halloc, Records.feed_of_mem hnl] at hrec
      refine ⟨hrep', hrec.trans ?_⟩
      exact Records.ext (by simp [AesdDev.records, hpending, Except.toOption]) rfl

/-- Every step keeps the ring behind the packets written.
Source: `handler.c`, `handle_connection` and `append_packet`
Kind: L -/
theorem Kept.step (hk : Kept K steps s) (happ : ∀ i, Appends (eventsOf i steps) (s.conns i))
    (hstep : s.step K t = some s') : Kept K (steps ++ [t]) s' := by
  obtain ⟨h, pos, dev, hh, hans, rfl⟩ := Aesdsocket.step_cases hstep
  have hlog := packetLog_concat steps t
  rcases deviceAnswer_cases hans with ⟨bytes, result, hev, hres, -, rfl⟩ | ⟨hother, rfl⟩
  · have hsteps := Handler.steps_of_step hh
    rw [hev] at hsteps
    obtain ⟨hpc, rfl, -⟩ := hsteps.write_cases
    have hnl := (happ t.conn).loaded (by rw [hpc]; rfl)
    have hpending : s.dev.pending = [] := congrArg Records.pending hk.records
    obtain ⟨hrep, hrec⟩ := vfsWrite_payload hk.represents hpending hnl t.env.write 0
    refine ⟨hrep, hrec.trans (Records.ext ?_ rfl)⟩
    rw [← hres, hk.added, hlog, hev, List.map_append]
    cases result <;> rfl
  · refine ⟨hk.represents, ?_⟩
    have hnone : t.event.written = none := by
      cases hev : t.event with
      | write bytes result => exact absurd hev (hother bytes result)
      | _ => rfl
    rw [hlog, hnone, Option.map_none, Option.toList_none, List.append_nil]
    exact hk.records

/-- So it is along every run.
Source: `main.c`, the file operations
Kind: L -/
theorem kept_of_run (hrun : serverRun K steps = some s) : Kept K steps s := by
  refine run_induction (P := Kept K) ⟨represents_init K, rfl⟩ ?_ hrun
  intro steps s t s' hrun' hk hstep
  exact hk.step (fun i => appends_of_run (handleConnection_of_run hrun' i)) hstep

/-- **No packet is lost, torn or reordered.** In every state the server can reach, through any
interleaving of any number of connections and whatever fails: nothing is pending in the device; the
retained entries are the last ten of the payloads written, in the order of the `write` calls, and
nothing else was ever added; and for each connection these are, in its order, the payloads for which
`append_packet` has returned zero, and after them the one, if any, for which it is about to; so one
for which it returned −1 has added nothing.
Source: `handler.c`, `handle_connection` and `append_packet`; `main.c`, `aesd_write`
Kind: P -/
theorem packets_kept_in_order (hrun : serverRun K steps = some s) :
    s.dev.pending = [] ∧
    s.dev.commands = ((packetLog steps).map Prod.snd).rtake 10 ∧
    s.dev.added = (packetLog steps).map Prod.snd ∧
    ∀ i, ((packetLog steps).filter (·.1 = i)).map Prod.snd =
      (eventsOf i steps).filterMap Event.acknowledged ++ (s.conns i).pc.inFlight (s.conns i).data := by
  have hk := kept_of_run hrun
  refine ⟨congrArg Records.pending hk.records, hk.commands, hk.added, fun i => ?_⟩
  rw [packetLog_of_conn]
  exact (appends_of_run (handleConnection_of_run hrun i)).written

/-- The steps of a connection up to its first chunk.
Source: `handler.c`, `handle_connection`; `main.c`, the file operations
Kind: D -/
def arrive (i : ℕ) (chunk : List UInt8) : List ServerStep :=
  [⟨i, .undisturbed, .malloc .moved fun _ => 0⟩, ⟨i, .undisturbed, .openDevice true⟩,
    ⟨i, .undisturbed, .recv (some chunk)⟩]

/-- The steps of a connection through `append_packet`.
Source: `handler.c`, `handle_connection`; `main.c`, the file operations
Kind: D -/
def commit (i : ℕ) (payload : List UInt8) : List ServerStep :=
  [⟨i, .undisturbed, .openAppend true⟩, ⟨i, .undisturbed, .write payload (some payload.length)⟩,
    ⟨i, .undisturbed, .closeAppend⟩, ⟨i, .undisturbed, .appendReturns payload true⟩]

/-- Two clients: the one whose line arrives first is the second to write it.
Source: `handler.c`, `handle_connection` and `append_packet`; `main.c`, the file operations
Kind: N+ -/
theorem packets_kept_in_order_two_clients :
    ∃ s, serverRun .pages4K (arrive 0 [97, 10] ++ arrive 1 [98, 10] ++ commit 1 [98, 10] ++
      commit 0 [97, 10]) = some s ∧ s.dev.commands = [[98, 10], [97, 10]] := by
  obtain ⟨s, hs⟩ := Option.isSome_iff_exists.mp (show (serverRun .pages4K (arrive 0 [97, 10] ++
    arrive 1 [98, 10] ++ commit 1 [98, 10] ++ commit 0 [97, 10])).isSome = true by decide +kernel)
  exact ⟨s, hs, (packets_kept_in_order hs).2.1⟩

end packets

end Aesd.Server
