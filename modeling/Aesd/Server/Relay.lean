import Aesd.Lib.Concat
import Aesd.Server.Delivery
import Aesd.Server.FileContent
import Aesd.Server.Progress

/-!
# What a client receives

The descriptor from which `write_to_client` reads is opened once for a connection and keeps its
position from reply to reply, so what a client is sent over the whole connection is one walk through
what the server stores. Where that only grows, the client receives a prefix of it, without gaps and
without repetitions, whatever the other clients and the timer append in the meantime:

* `Relayed` — the bytes sent to a client are those read for it, in order, and all of them until a
  `send` falls short;
* `replies_follow_file` — the data file of the file-backed build;
* `replies_follow_history` — the device, until an entry is evicted.
-/

namespace Aesd.Server

open Aesd.Lib Aesd.Driver

/-! ### From the read to the client -/

/-- The places from which the handler reads no more.
Source: `handler.c`, `handle_connection` and `write_to_client`
Kind: D -/
def Pc.over : Pc → Bool
  | .reply _ (.returned false) | .closeDevice | .freeLast | .closeClient | .abortClose _ | .abortFree
  | .setDone | .finished => true
  | _ => false

/-- A step between these places may neither read nor send.
Source: `handler.c`, `handle_connection`
Kind: D -/
def Pc.relays (pc pc' : Pc) : Bool := (!pc.over || pc'.over) && (pc.setup || !pc'.setup)

/-- What was sent is what was read, up to a `send` that fell short; nothing was read before the
descriptor was opened.
Source: `handler.c`, `handle_connection` and `write_to_client`
Kind: D -/
structure Relayed (events : List Event) (pc : Pc) : Prop where
  sent : delivered events <+: fetched events
  all : pc.over = false → delivered events ++ pc.unsent = fetched events
  fresh : pc.setup = true → fetched events = []

section relayed

variable {build : Build} {events : List Event} {ev : Event} {h h' : Handler} {pc pc' : Pc}

/-- A step that neither reads nor sends.
Source: `handler.c`, `write_to_client`
Kind: L -/
theorem Relayed.next (hr : Relayed events h.pc) (hpc : h.pc = pc) (hfetched : ev.fetched = [])
    (hdelivered : ev.delivered = []) (hunsent : pc'.unsent = pc.unsent)
    (hrelays : pc.relays pc' = true) : Relayed (events ++ [ev]) pc' := by
  subst hpc
  rw [Pc.relays, Bool.and_eq_true] at hrelays
  obtain ⟨hover, hsetup⟩ := hrelays
  have hf : fetched (events ++ [ev]) = fetched events := by
    rw [fetched_concat, hfetched, List.append_nil]
  have hd : delivered (events ++ [ev]) = delivered events := by
    rw [delivered_concat, hdelivered, List.append_nil]
  refine ⟨?_, fun hgoes => ?_, fun hnew => ?_⟩
  · rw [hf, hd]
    exact hr.sent
  · rw [hgoes, Bool.or_false, Bool.not_eq_true'] at hover
    rw [hf, hd, hunsent]
    exact hr.all hover
  · rw [hnew, Bool.not_true, Bool.or_false] at hsetup
    rw [hf]
    exact hr.fresh hsetup

/-- A read fetches a chunk, ends the reply, or fails.
Source: `handler.c`, `write_to_client`
Kind: L -/
theorem Relayed.read {site : ReplySite} (hr : Relayed events (.reply site .read))
    {result : Option (List UInt8)} {rpc : ReplyPc}
    (hev : writeToClient .read (.read result) = some rpc) :
    Relayed (events ++ [.read result]) (.reply site rpc) := by
  have hall : delivered events ++ [] = fetched events := hr.all rfl
  rw [List.append_nil] at hall
  have hd : delivered (events ++ [.read result]) = delivered events := by
    rw [delivered_concat]
    exact List.append_nil _
  have hunsent : (Pc.reply site rpc).unsent = (Event.read result).fetched := by
    rcases result with _ | (_ | ⟨b, bytes⟩)
    · cases hev
      rfl
    · cases hev
      rfl
    · rw [writeToClient, Option.ite_none_right_eq_some] at hev
      cases hev.2
      rfl
  refine ⟨?_, fun _ => ?_, by rintro ⟨⟩⟩
  · rw [hd, fetched_concat, hall]
    exact List.prefix_append _ _
  · rw [hd, fetched_concat, hall, hunsent]

/-- A send delivers the chunk or ends the connection.
Source: `handler.c`, `write_to_client`
Kind: L -/
theorem Relayed.send {site : ReplySite} {chunk bytes : List UInt8} {sent : ℤ}
    (hr : Relayed events (.reply site (.send chunk))) {rpc : ReplyPc}
    (hev : writeToClient (.send chunk) (.send bytes sent) = some rpc) :
    Relayed (events ++ [.send bytes sent]) (.reply site rpc) := by
  have hall : delivered events ++ chunk = fetched events := hr.all rfl
  have hf : fetched (events ++ [.send bytes sent]) = fetched events := by
    rw [fetched_concat]
    exact List.append_nil _
  rw [writeToClient, Option.ite_none_right_eq_some, Option.some.injEq] at hev
  obtain ⟨rfl, rfl⟩ := hev
  refine ⟨?_, fun hgoes => ?_, by rintro ⟨⟩⟩
  · rw [hf, delivered_concat, ← hall, List.prefix_append_right_inj]
    exact List.take_prefix _ _
  · by_cases hshort : sent ≠ bytes.length
    · rw [if_pos hshort] at hgoes
      cases hgoes
    · obtain rfl : sent = bytes.length := not_ne_iff.mp hshort
      rw [if_neg hshort, hf, delivered_concat, Event.delivered, Int.toNat_natCast, List.take_length]
      exact (List.append_nil _).trans hall

/-- **Every call keeps what was sent and what was read in step.**
Source: `handler.c`, `handle_connection` and `write_to_client`
Kind: L -/
theorem Relayed.step (hr : Relayed events h.pc) (hstep : h.Steps build ev h') :
    Relayed (events ++ [ev]) h'.pc := by
  cases hstep with
  | @replies site rpc rpc' _ hpc hev =>
      rw [hpc] at hr
      rcases writeToClient_event hev with ⟨result, rfl⟩ | ⟨bytes, sent, rfl⟩
      · cases rpc with
        | read => exact hr.read hev
        | send chunk => cases hev
        | returned ok => cases hev
      · cases rpc with
        | read => cases hev
        | send chunk => exact hr.send hev
        | returned ok => cases hev
  | @recvFits chunk hpc _ _ _ =>
      obtain ⟨hunsent, hsetup⟩ := accept_unsent build h chunk
      exact hr.next hpc rfl rfl hunsent (by simp [Pc.relays, Pc.over, hsetup])
  | @grows chunk answer junk p heap hpc _ _ =>
      obtain ⟨hunsent, hsetup⟩ := accept_unsent build { h with dataBuffer := p, heap := heap } chunk
      exact hr.next hpc rfl rfl hunsent (by simp [Pc.relays, Pc.over, hsetup])
  | @appends apc apc' _ hpc hev =>
      rcases appendPacket_event hev with ⟨ok, rfl⟩ | ⟨bytes, result, rfl⟩ | rfl <;>
        exact hr.next hpc rfl rfl rfl rfl
  | @opens ok hpc => cases ok <;> exact hr.next hpc rfl rfl rfl rfl
  | @ioctls request ok hpc => cases ok <;> exact hr.next hpc rfl rfl rfl rfl
  | @appendReturns ok hpc => cases build <;> cases ok <;> exact hr.next hpc rfl rfl rfl rfl
  | @unlocks ok hpc => cases ok <;> exact hr.next hpc rfl rfl rfl rfl
  | @remallocs site answer junk hpc _ => cases site <;> exact hr.next hpc rfl rfl rfl rfl
  | @replyReturns site ok hpc => cases ok <;> cases site <;> exact hr.next hpc rfl rfl rfl rfl
  | @abortCloses allocated hpc => cases allocated <;> exact hr.next hpc rfl rfl rfl rfl
  | mallocFails hpc | mallocs hpc _ | recvEnds hpc | recvGrows hpc _ _ _ | growFails hpc _
  | locks hpc | resets hpc | remallocFails hpc | closesDevice hpc | freesLast hpc
  | closesClient hpc | abortFrees hpc | setsDone hpc => exact hr.next hpc rfl rfl rfl rfl

/-- What is sent follows what is read along every run.
Source: `handler.c`, `handle_connection` and `write_to_client`
Kind: L -/
theorem relayed_of_run (hrun : handleConnection build events = some h) : Relayed events h.pc := by
  refine run_induction (P := fun events h => Relayed events h.pc)
    ⟨List.prefix_rfl, fun _ => rfl, fun _ => rfl⟩ ?_ hrun
  intro events h ev h' _ hr hstep
  exact hr.step (Handler.steps_of_step hstep)

/-- Where the handler reads, everything read before has been sent.
Source: `handler.c`, `write_to_client`
Kind: L -/
theorem delivered_eq_fetched (hrun : handleConnection build events = some h)
    {result : Option (List UInt8)} (hstep : h.step build (.read result) = some h') :
    delivered events = fetched events := by
  have hr := relayed_of_run hrun
  cases Handler.steps_of_step hstep with
  | appends hpc hev =>
      rcases appendPacket_event hev with ⟨_, hev'⟩ | ⟨_, _, hev'⟩ | hev' <;> cases hev'
  | @replies site rpc rpc' _ hpc hev =>
      rw [hpc] at hr
      cases rpc with
      | read => exact (List.append_nil _).symm.trans (hr.all rfl)
      | send chunk => cases hev
      | returned ok => cases hev

end relayed

/-! ### The data file -/

section file

variable {s s' : FileServer} {t : FileStep} {steps : List FileStep} {file : Option (List UInt8)}
  {sent : ℕ → List UInt8} {i : ℕ}

/-- Opening the file for appending moves no position.
Source: `handler.c`, `append_packet`; `aesdsocket.c`, `alarm_handler`
Kind: L -/
theorem FileServer.openAppend_fPos (s : FileServer) (ok : Bool) :
    (s.openAppend ok).fPos = s.fPos := by cases ok <;> rfl

/-- An event without the file fetches nothing.
Source: `handler.c`, `handle_connection` and `write_to_client`
Kind: L -/
theorem Event.fetched_of_idle (ev : Event) (hidle : ev.idle = true) : ev.fetched = [] := by
  cases ev with
  | read result =>
      cases result with
      | none => rfl
      | some bytes => cases hidle
  | _ => rfl

/-- A `read` delivers what stands at the position.
Source: `handler.c`, `write_to_client`
Kind: L -/
theorem FileServer.read_step {bytes : List UInt8}
    (hstep : s.step (.conn i (.read (some bytes))) = some s') :
    bytes = ((s.file.getD []).drop (s.fPos i)).take bufferSize := by
  obtain ⟨h, -, hrest⟩ := Option.bind_eq_some_iff.mp hstep
  obtain ⟨s₁, hans, -⟩ := Option.map_eq_some_iff.mp hrest
  rw [FileServer.answer, Option.ite_none_right_eq_some] at hans
  exact hans.1

/-- What a step does to the position of a connection.
Source: `handler.c`, `handle_connection` and `write_to_client`
Kind: L -/
theorem FileServer.fPos_step (hstep : s.step t = some s') (i : ℕ) :
    (∃ ok, t = .conn i (.openDevice ok) ∧ s'.fPos i = 0) ∨
    (∃ bytes, t = .conn i (.read (some bytes)) ∧ s'.fPos i = s.fPos i + bytes.length) ∨
    (((t.ofConn i).map Event.fetched).getD [] = [] ∧ s'.fPos i = s.fPos i) := by
  cases t with
  | alarm k ev =>
      obtain ⟨pc, s₁, -, hans, rfl⟩ := FileServer.step_alarm hstep
      refine Or.inr (Or.inr ⟨rfl, ?_⟩)
      cases hans <;> simp [FileServer.append, FileServer.openAppend_fPos]
  | conn j ev =>
      obtain ⟨h, s₁, -, hanswers, rfl⟩ := FileServer.step_conn hstep
      by_cases hj : j = i
      · subst hj
        cases hanswers with
        | @opens ok _ => exact Or.inl ⟨ok, rfl, Function.update_self _ _ _⟩
        | @reads bytes => exact Or.inr (Or.inl ⟨bytes, rfl, Function.update_self _ _ _⟩)
        | opensAppend =>
            refine Or.inr (Or.inr ⟨by simp [FileStep.ofConn, Event.fetched], ?_⟩)
            exact congrFun (s.openAppend_fPos _) j
        | @idles ev hidle =>
            exact Or.inr (Or.inr ⟨by simp [FileStep.ofConn, ev.fetched_of_idle hidle], rfl⟩)
        | receives _ | locks _ | unlocks | writes _ =>
            exact Or.inr (Or.inr ⟨by simp [FileStep.ofConn, Event.fetched], rfl⟩)
      · refine Or.inr (Or.inr ⟨by simp [FileStep.ofConn, hj], ?_⟩)
        cases hanswers with
        | opensAppend => exact congrFun (s.openAppend_fPos _) i
        | opens _ | reads => exact Function.update_of_ne (Ne.symm hj) _ _
        | receives _ | locks _ | unlocks | writes _ | idles _ => rfl

/-- The handler opens the file before it does anything else with it.
Source: `handler.c`, `handle_connection`
Kind: L -/
theorem Handler.Steps.setup_of_open {build : Build} {h h' : Handler} {ok : Bool}
    (hstep : h.Steps build (.openDevice ok) h') : h.pc.setup = true := by
  cases hstep with
  | opens hpc => rw [hpc]; rfl
  | appends hpc hev =>
      rcases appendPacket_event hev with ⟨_, hev'⟩ | ⟨_, _, hev'⟩ | hev' <;> cases hev'
  | replies hpc hev =>
      rcases writeToClient_event hev with ⟨_, hev'⟩ | ⟨_, _, hev'⟩ <;> cases hev'

/-- What one more step has fetched for a connection.
Source: none: infrastructure
Kind: L -/
theorem fetched_connEvents_concat (i : ℕ) (steps : List FileStep) (t : FileStep) :
    fetched (connEvents i (steps ++ [t])) =
      fetched (connEvents i steps) ++ ((t.ofConn i).map Event.fetched).getD [] := by
  rw [connEvents_concat]
  cases t.ofConn i with
  | none => simp
  | some ev => exact fetched_concat _ _

/-- What a connection has read is the file up to the position of its descriptor.
Source: `handler.c`, `write_to_client`
Kind: L -/
theorem readUpTo_of_fileRun (hrun : fileRun file sent steps = some s) (i : ℕ) :
    ReadUpTo (s.file.getD []) (fetched (connEvents i steps)) (s.fPos i) := by
  refine run_induction (P := fun steps s =>
    ReadUpTo (s.file.getD []) (fetched (connEvents i steps)) (s.fPos i)) (.start _) ?_ hrun
  intro steps s t s' hrun' hr hstep
  have hfile := FileServer.file_step hstep
  rw [hfile, fetched_connEvents_concat]
  rcases FileServer.fPos_step hstep i with ⟨ok, rfl, hpos⟩ | ⟨bytes, rfl, hpos⟩ | ⟨hnone, hpos⟩
  · obtain ⟨h, s₁, hh, -, -⟩ := FileServer.step_conn hstep
    have hfresh := (relayed_of_run (handleConnection_of_fileRun hrun' i)).fresh
      (Handler.steps_of_step hh).setup_of_open
    rw [hfresh, hpos]
    simpa [FileStep.ofConn, Event.fetched] using ReadUpTo.start _
  · have hpiece : bytes <+: (s.file.getD []).drop (s.fPos i) := by
      rw [FileServer.read_step hstep]
      exact List.take_prefix _ _
    have hread := (hr.read hpiece).append
      (content (FileStep.conn i (.read (some bytes))).appended.toList)
    rw [hpos]
    simpa [FileStep.ofConn, Event.fetched] using hread
  · rw [hnone, hpos, List.append_nil]
    exact hr.append _

/-- **A client receives the data file from its beginning.** In every run of the file-backed server,
through any interleaving with other clients and with the timer and whatever fails: all that a client
has been sent over its connection is a prefix of the file, without a gap and without a repetition;
and where the handler reads the end of the file, the client has been sent all of the file.
Source: `handler.c`, `handle_connection`, `write_to_client` and `append_packet`; `aesdsocket.c`,
`alarm_handler`
Kind: P -/
theorem replies_follow_file (hrun : fileRun file sent steps = some s) (i : ℕ) :
    delivered (connEvents i steps) <+: s.file.getD [] ∧
    ∀ s', s.step (.conn i (.read (some []))) = some s' →
      delivered (connEvents i steps) = s.file.getD [] := by
  have hread := readUpTo_of_fileRun hrun i
  have hconn := handleConnection_of_fileRun hrun i
  refine ⟨(relayed_of_run hconn).sent.trans hread.isPrefix, fun s' hstep => ?_⟩
  obtain ⟨h, s₁, hh, -, -⟩ := FileServer.step_conn hstep
  rw [delivered_eq_fetched hconn hh]
  apply hread.eq_log
  have hlen := congrArg List.length (FileServer.read_step hstep)
  rw [List.length_nil, List.length_take, List.length_drop] at hlen
  change 0 = min 1024 _ at hlen
  omega

end file

/-- The steps of a connection from the unlock after a packet to the first `send` of the reply.
Source: `handler.c`, `write_to_client`
Kind: D -/
def fileReply (i : ℕ) (piece : List UInt8) : List FileStep :=
  [.conn i .free, .conn i (.malloc .moved fun _ => 0), .conn i (.read (some piece)),
    .conn i (.send piece piece.length)]

/-- A client that sends `"a\n"` to a server with `"x\n"` in its file.
Source: `handler.c`, `write_to_client`
Kind: N+ -/
theorem replies_follow_file_one_line :
    ∃ s, fileRun (some [120, 10]) (fun _ => [97, 10]) (arriveAndLock 0 [97, 10] ++
        appendAndUnlock 0 [97, 10] ++ fileReply 0 [120, 10, 97, 10]) = some s ∧
      delivered (connEvents 0 (arriveAndLock 0 [97, 10] ++ appendAndUnlock 0 [97, 10] ++
        fileReply 0 [120, 10, 97, 10])) <+: s.file.getD [] := by
  obtain ⟨s, hs⟩ := Option.isSome_iff_exists.mp (show (fileRun (some [120, 10]) (fun _ => [97, 10])
    (arriveAndLock 0 [97, 10] ++ appendAndUnlock 0 [97, 10] ++
      fileReply 0 [120, 10, 97, 10])).isSome = true by decide +kernel)
  exact ⟨s, hs, (replies_follow_file hs 0).1⟩

/-! ### The device -/

/-- Everything written to the device, in order.
Source: `handler.c`, `append_packet`
Kind: D -/
def history (steps : List ServerStep) : List UInt8 := ((packetLog steps).map Prod.snd).flatten

section device

variable {K : KernelLimits} {s s' : Aesdsocket} {t : ServerStep} {steps : List ServerStep} {i : ℕ}

/-- What one more step has written.
Source: none: infrastructure
Kind: L -/
theorem history_concat (steps : List ServerStep) (t : ServerStep) :
    history (steps ++ [t]) = history steps ++ (t.event.written).getD [] := by
  unfold history
  rw [packetLog_concat, List.map_append, List.flatten_append]
  cases t.event.written <;> simp

/-- As long as nothing was evicted the content of the device is the history.
Source: `handler.c`, `append_packet`; `main.c`, the file operations
Kind: L -/
theorem content_eq_history (hrun : serverRun K steps = some s)
    (hroom : (packetLog steps).length ≤ 10) : s.dev.content = history steps := by
  rw [(kept_of_run hrun).content, rtake_of_length_le (by rwa [List.length_map])]
  rfl

/-- What an answer of the device does to the position: it is set when the descriptor is opened and
by a seek, and moves by what is read.
Source: `main.c`, the file operations
Kind: L -/
theorem deviceAnswer_position {env : KernelEnv} {ev : Event} {fPos pos : ℤ} {dev dev' : AesdDev}
    (ha : Accounted K dev) (hans : deviceAnswer K env ev fPos dev = some (pos, dev')) :
    (∃ ok, ev = .openDevice ok ∧ pos = 0) ∨ (∃ request, ev = .ioctl request true) ∨
    (ev.fetched <+: dev.content.drop (sizeOfLoff fPos) ∧
      sizeOfLoff pos = sizeOfLoff fPos + ev.fetched.length) := by
  have hstays : pos = fPos → ev.fetched = [] →
      ev.fetched <+: dev.content.drop (sizeOfLoff fPos) ∧
        sizeOfLoff pos = sizeOfLoff fPos + ev.fetched.length := by
    rintro rfl hnil
    rw [hnil]
    exact ⟨List.nil_prefix, rfl⟩
  cases ev with
  | openDevice ok =>
      cases hans
      exact Or.inl ⟨ok, rfl, rfl⟩
  | read result =>
      obtain ⟨hres, rfl, -⟩ := deviceAnswer_read hans
      obtain ⟨hpiece, hsize, -, -⟩ := aesdRead_moves ha hres
      have hfetched : (Event.read result).fetched = result.getD [] := by cases result <;> rfl
      rw [hfetched]
      exact Or.inr (Or.inr ⟨hpiece, hsize⟩)
  | ioctl request ok =>
      rw [deviceAnswer, Option.ite_none_right_eq_some] at hans
      obtain ⟨hok, hans⟩ := hans
      cases hans
      rcases ha.ioctl_range ⟨if env.ioctlFaults then none else some request, env.ioctlInterrupted⟩
        aesdcharIocseekto fPos with ⟨e, hfail⟩ | ⟨pos, hseek, -, -⟩
      · rw [hfail] at hstays ⊢
        exact Or.inr (Or.inr (hstays rfl rfl))
      · rw [hseek] at hok
        obtain rfl : ok = true := hok
        exact Or.inr (Or.inl ⟨request, rfl⟩)
  | write bytes result =>
      rcases deviceAnswer_cases hans with ⟨_, _, _, _, hpos, _⟩ | ⟨hother, _⟩
      · exact Or.inr (Or.inr (hstays hpos rfl))
      · exact absurd rfl (hother bytes result)
  | _ =>
      cases hans
      exact Or.inr (Or.inr (hstays rfl rfl))

/-- What a connection has got of the history, after a step in which its descriptor is neither opened
nor repositioned.
Source: `handler.c`, `append_packet` and `write_to_client`
Kind: L -/
theorem readUpTo_step {got : List UInt8} (hrun : serverRun K steps = some s)
    (hr : ReadUpTo (history steps) got (sizeOfLoff (s.fPos i))) (hstep : s.step K t = some s')
    (hopen : t.conn = i → ∀ ok, t.event ≠ .openDevice ok)
    (hseek : t.conn = i → ∀ request, t.event ≠ .ioctl request true)
    (hroom : (packetLog steps).length ≤ 10) :
    ReadUpTo (history (steps ++ [t])) (got ++ if t.conn = i then t.event.fetched else [])
      (sizeOfLoff (s'.fPos i)) := by
  rw [history_concat]
  apply ReadUpTo.append
  by_cases hi : t.conn = i
  · obtain ⟨-, hans⟩ := Aesdsocket.step_self hstep
    have ha := (kept_of_run hrun).represents.toAccounted
    rw [if_pos hi]
    rcases deviceAnswer_position ha hans with ⟨ok, hev, -⟩ | ⟨request, hev⟩ | ⟨hpiece, hmove⟩
    · exact absurd hev (hopen hi ok)
    · exact absurd hev (hseek hi request)
    · rw [hi, content_eq_history hrun hroom] at hpiece
      rw [hi] at hmove
      rw [hmove]
      exact hr.read hpiece
  · obtain ⟨-, hpos⟩ := Aesdsocket.step_other hstep hi
    rw [if_neg hi, hpos, List.append_nil]
    exact hr

/-- A log with room for one more packet had room before.
Source: `handler.c`, `append_packet`
Kind: L -/
theorem packetLog_length_le {t : ServerStep} (hroom : (packetLog (steps ++ [t])).length ≤ 10) :
    (packetLog steps).length ≤ 10 := by
  rw [packetLog_concat, List.length_append] at hroom
  omega

/-- What a connection that has not been repositioned has read is the history up to the position of
its descriptor.
Source: `handler.c`, `append_packet`; `main.c`, the file operations
Kind: L -/
theorem readUpTo_of_serverRun (hrun : serverRun K steps = some s)
    (hseek : ∀ request, Event.ioctl request true ∉ eventsOf i steps)
    (hroom : (packetLog steps).length ≤ 10) :
    ReadUpTo (history steps) (fetched (eventsOf i steps)) (sizeOfLoff (s.fPos i)) := by
  refine run_induction (P := fun steps s =>
      (∀ request, Event.ioctl request true ∉ eventsOf i steps) → (packetLog steps).length ≤ 10 →
      ReadUpTo (history steps) (fetched (eventsOf i steps)) (sizeOfLoff (s.fPos i)))
    (fun _ _ => .start _) ?_ hrun hseek hroom
  intro steps s t s' hrun' ih hstep hseek hroom
  have hroom' := packetLog_length_le hroom
  by_cases hi : t.conn = i
  · subst hi
    rw [eventsOf_concat_self] at hseek ⊢
    have hr := ih (fun request hmem => hseek request (List.mem_append_left _ hmem)) hroom'
    rw [fetched_concat]
    by_cases hopen : ∃ ok, t.event = .openDevice ok
    · obtain ⟨ok, hev⟩ := hopen
      obtain ⟨hsteps, hans⟩ := Aesdsocket.step_self hstep
      rw [hev] at hsteps hans
      have hfresh := (relayed_of_run (handleConnection_of_run hrun' t.conn)).fresh
        hsteps.setup_of_open
      have hpos : s'.fPos t.conn = 0 := (Prod.mk.inj (Option.some.inj hans)).1.symm
      rw [hfresh, hev, hpos]
      exact .start _
    · have hnext := readUpTo_step hrun' hr hstep (fun _ ok hev => hopen ⟨ok, hev⟩)
        (fun _ request hev => hseek request (List.mem_append_right _ (by rw [hev]; simp))) hroom'
      rwa [if_pos rfl] at hnext
  · rw [eventsOf_concat_of_ne steps hi] at hseek ⊢
    have hnext := readUpTo_step hrun' (ih hseek hroom') hstep (fun hi' => absurd hi' hi)
      (fun hi' => absurd hi' hi) hroom'
    rwa [if_neg hi, List.append_nil] at hnext

/-- Where a handler reads the end of the device, its descriptor is past the content.
Source: `main.c`, the file operations
Kind: L -/
theorem length_content_le_of_end (hrun : serverRun K steps = some s) (hstep : s.step K t = some s')
    (hev : t.event = .read (some [])) : s.dev.content.length ≤ sizeOfLoff (s.fPos t.conn) := by
  obtain ⟨-, hans⟩ := Aesdsocket.step_self hstep
  rw [hev] at hans
  obtain ⟨hres, -, -⟩ := deviceAnswer_read hans
  have hend := (aesdRead_moves (kept_of_run hrun).represents.toAccounted hres).2.2.2 rfl
  exact hend.resolve_left (by decide)

/-- **Until an entry is evicted, a client receives the history from its beginning.** In every run of
the server in which at most ten packets have been written, through any interleaving and whatever
fails, all that a client that has made no seek has been sent over its connection, in however many
replies, is a prefix of everything ever written; and where its handler reads the end of the device,
it has been sent all of it.
Source: `handler.c`, `handle_connection`, `write_to_client` and `append_packet`; `main.c`,
`aesd_read` and `aesd_write`
Kind: P -/
theorem replies_follow_history (hrun : serverRun K steps = some s)
    (hseek : ∀ request, Event.ioctl request true ∉ eventsOf i steps)
    (hroom : (packetLog steps).length ≤ 10) :
    delivered (eventsOf i steps) <+: history steps ∧
    ∀ t s', t.conn = i → t.event = .read (some []) → s.step K t = some s' →
      delivered (eventsOf i steps) = history steps := by
  have hread := readUpTo_of_serverRun hrun hseek hroom
  have hconn := handleConnection_of_run hrun i
  refine ⟨(relayed_of_run hconn).sent.trans hread.isPrefix, ?_⟩
  rintro t s' rfl hev hstep
  obtain ⟨h, pos, dev, hh, -, -⟩ := Aesdsocket.step_cases hstep
  rw [hev] at hh
  rw [delivered_eq_fetched hconn hh]
  apply hread.eq_log
  rw [← content_eq_history hrun hroom]
  exact length_content_le_of_end hrun hstep hev

end device

/-- One client sends two lines and is answered twice.
Source: `handler.c`, `write_to_client`; `main.c`, the file operations
Kind: N+ -/
theorem replies_follow_history_two_lines :
    ∃ s, serverRun .pages4K (secondLine ++ ⟨0, .undisturbed, .write [98, 10] (some 2)⟩ ::
        reply 0 [98, 10] [98, 10]) = some s ∧
      delivered (eventsOf 0 (secondLine ++ ⟨0, .undisturbed, .write [98, 10] (some 2)⟩ ::
        reply 0 [98, 10] [98, 10])) <+: [97, 10, 98, 10] := by
  obtain ⟨s, hs⟩ := Option.isSome_iff_exists.mp (show (serverRun .pages4K (secondLine ++
    ⟨0, .undisturbed, .write [98, 10] (some 2)⟩ :: reply 0 [98, 10] [98, 10])).isSome = true by
      decide +kernel)
  have hseek : ∀ request, Event.ioctl request true ∉ eventsOf 0 (secondLine ++
      ⟨0, .undisturbed, .write [98, 10] (some 2)⟩ :: reply 0 [98, 10] [98, 10]) := by
    intro request
    simp [eventsOf, secondLine, firstLine, arrive, reply]
  exact ⟨s, hs, (replies_follow_history hs hseek (by decide)).1⟩

end Aesd.Server
