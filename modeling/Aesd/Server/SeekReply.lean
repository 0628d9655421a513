import Aesd.Driver.Seek
import Aesd.Server.Relay

/-!
# The reply after a seek

A client that asks for `AESDCHAR_IOCSEEKTO:X,Y` wants to be answered from byte `Y` of packet `X` on.
As long as nothing was evicted the order of the array is the order of the packets, and this is what
it gets, whatever the other clients write in the meantime:

* `Accounted.aligned_of_length` — the slots are in order until the ring has wrapped;
* `deviceAnswer_seek` — a seek that succeeds names a byte of a packet and goes to it;
* `replies_follow_seek` — all that is sent from there on, up to the next seek.
-/

namespace Aesd.Server

open Aesd.Lib Aesd.Driver

/-! ### The position of a seek -/

section position

variable {K : KernelLimits} {dev dev' : AesdDev}

/-- A seek that succeeds names a byte of a command, and goes to its place in the content.
Source: `main.c`, `aesd_ioctl`
Kind: L -/
theorem deviceAnswer_seek {env : KernelEnv} {request : AesdSeekto} {fPos pos : ℤ}
    (ha : Accounted K dev) (hal : dev.buffer.Aligned)
    (hans : deviceAnswer K env (.ioctl request true) fPos dev = some (pos, dev')) :
    ∃ cmd, dev.commands[request.writeCmd.toNat]? = some cmd ∧
      request.writeCmdOffset.toNat < cmd.length ∧ sizeOfLoff pos < dev.content.length ∧
      sizeOfLoff pos = ((dev.commands.map List.length).take request.writeCmd.toNat).sum +
        request.writeCmdOffset.toNat := by
  rw [deviceAnswer, Option.ite_none_right_eq_some, Option.some.injEq, Prod.mk.injEq] at hans
  obtain ⟨hok, rfl, rfl⟩ := hans
  rcases aesdIoctl_cases ⟨if env.ioctlFaults then none else some request, env.ioctlInterrupted⟩
    aesdcharIocseekto fPos dev with ⟨e, hfail⟩ | ⟨seekto, henv, -⟩
  · rw [hfail] at hok
    cases hok
  · -- the request was copied in, and the lock was taken
    obtain ⟨harg, hlock⟩ := IoctlEnv.mk.inj henv
    have hrequest : seekto = request := by
      by_cases hfault : env.ioctlFaults = true
      · rw [if_pos hfault] at harg
        cases harg
      · rw [if_neg hfault] at harg
        exact (Option.some.inj harg).symm
    subst hrequest
    rw [harg, hlock] at hok ⊢
    have hres : (aesdIoctl ⟨some seekto, false⟩ aesdcharIocseekto fPos dev).1 = .ok () := by
      cases hr : (aesdIoctl ⟨some seekto, false⟩ aesdcharIocseekto fPos dev).1 with
      | ok u => rfl
      | error e =>
          rw [hr] at hok
          cases hok
    have hslot := (aesdIoctl_ok_iff ha seekto fPos).mp hres
    obtain ⟨cmd, hcmd, hin⟩ := ((ha.addresses_iff fun _ => fPos).mpr hal 0 seekto).mp hres
    rw [aesdIoctl_eq ha, if_pos hslot]
    obtain ⟨j, hj, huse, hoff⟩ := hslot
    have hle := bytesBefore_add_size_le ha j
    have hsmall := ha.length_content_lt
    rw [hj] at hle huse
    rw [sizeOfLoff_of_nonneg (by omega)]
    refine ⟨cmd, hcmd, hin, by omega, ?_⟩
    rw [ha.bytesBefore_eq hal huse.le]

end position

/-! ### Reading on from a position -/

section runs

variable {K : KernelLimits} {i : ℕ} {s s₀ : Aesdsocket} {pre rest : List ServerStep}

/-- The events of a connection in two parts of a run.
Source: none: infrastructure
Kind: L -/
theorem eventsOf_append (i : ℕ) (pre rest : List ServerStep) :
    eventsOf i (pre ++ rest) = eventsOf i pre ++ eventsOf i rest := by
  simp [eventsOf]

/-- What was fetched in two parts of a run.
Source: none: infrastructure
Kind: L -/
theorem fetched_append (pre rest : List Event) :
    fetched (pre ++ rest) = fetched pre ++ fetched rest := by
  simp [fetched]

/-- What was delivered in two parts of a run.
Source: none: infrastructure
Kind: L -/
theorem delivered_append (pre rest : List Event) :
    delivered (pre ++ rest) = delivered pre ++ delivered rest := by
  simp [delivered]

/-- No call leads back to before the descriptor was opened.
Source: `handler.c`, `handle_connection`
Kind: L -/
theorem Handler.Steps.setup_back {build : Build} {h h' : Handler} {ev : Event}
    (hstep : h.Steps build ev h') (hopen : h.pc.setup = false) : h'.pc.setup = false := by
  cases hstep with
  | mallocFails hpc => rfl
  | mallocs hpc _ =>
      rw [hpc] at hopen
      cases hopen
  | @opens ok hpc => cases ok <;> rfl
  | @recvFits chunk _ _ _ _ => exact (accept_unsent build h chunk).2
  | @grows chunk _ _ _ _ _ _ _ => exact (accept_unsent build _ chunk).2
  | @ioctls request ok hpc => cases ok <;> rfl
  | @appendReturns ok hpc => cases build <;> cases ok <;> rfl
  | @unlocks ok hpc => cases ok <;> rfl
  | @remallocs site _ _ _ _ => cases site <;> rfl
  | @replyReturns site ok hpc => cases ok <;> cases site <;> rfl
  | @abortCloses allocated hpc => cases allocated <;> rfl
  | recvEnds _ | recvGrows _ _ _ _ | growFails _ _ | locks _ | appends _ _ | resets _
  | remallocFails _ | replies _ _ | closesDevice _ | freesLast _ | closesClient _ | abortFrees _
  | setsDone _ => rfl

/-- A seek that succeeds is followed by a reply.
Source: `handler.c`, `handle_connection` and `write_to_client`
Kind: L -/
theorem Handler.Steps.seek_cases {build : Build} {h h' : Handler} {request : AesdSeekto}
    (hstep : h.Steps build (.ioctl request true) h') : h'.pc = .reply .afterSeek .read := by
  cases hstep with
  | ioctls hpc => rfl
  | appends hpc hev =>
      rcases appendPacket_event hev with ⟨_, hev'⟩ | ⟨_, _, hev'⟩ | hev' <;> cases hev'
  | replies hpc hev =>
      rcases writeToClient_event hev with ⟨_, hev'⟩ | ⟨_, _, hev'⟩ <;> cases hev'

/-- What a connection reads from a state on, in which its descriptor is open, is the history from
the position in that state on.
Source: `handler.c`, `handle_connection`
Kind: L -/
theorem readUpTo_from (hpre : serverRun K pre = some s₀)
    (hrest : run (Aesdsocket.step K) s₀ rest = some s) (hopen : (s₀.conns i).pc.setup = false)
    (hpos : sizeOfLoff (s₀.fPos i) ≤ (history pre).length)
    (hseek : ∀ request, Event.ioctl request true ∉ eventsOf i rest)
    (hroom : (packetLog (pre ++ rest)).length ≤ 10) :
    (s.conns i).pc.setup = false ∧
    ReadUpTo (history (pre ++ rest))
      ((history pre).take (sizeOfLoff (s₀.fPos i)) ++ fetched (eventsOf i rest))
      (sizeOfLoff (s.fPos i)) := by
  refine run_induction (P := fun rest s => (∀ request, Event.ioctl request true ∉ eventsOf i rest) →
      (packetLog (pre ++ rest)).length ≤ 10 → (s.conns i).pc.setup = false ∧
      ReadUpTo (history (pre ++ rest))
        ((history pre).take (sizeOfLoff (s₀.fPos i)) ++ fetched (eventsOf i rest))
        (sizeOfLoff (s.fPos i))) ?_ ?_ hrest hseek hroom
  · intro _ _
    rw [List.append_nil, show fetched (eventsOf i []) = [] from rfl, List.append_nil]
    exact ⟨hopen, .startAt hpos⟩
  · intro rest s t s' hrun' ih hstep hseek hroom
    have hreach : serverRun K (pre ++ rest) = some s := run_append.mpr ⟨s₀, hpre, hrun'⟩
    rw [← List.append_assoc] at hroom ⊢
    have hroom' := packetLog_length_le hroom
    by_cases hi : t.conn = i
    · subst hi
      rw [eventsOf_concat_self] at hseek ⊢
      obtain ⟨hopen', hr⟩ :=
        ih (fun request hmem => hseek request (List.mem_append_left _ hmem)) hroom'
      have hsteps := (Aesdsocket.step_self hstep).1
      have hnext := readUpTo_step hreach hr hstep
        (fun _ ok hev => by
          rw [hev] at hsteps
          rw [hsteps.setup_of_open] at hopen'
          cases hopen')
        (fun _ request hev => hseek request (List.mem_append_right _ (by rw [hev]; simp))) hroom'
      rw [if_pos rfl] at hnext
      rw [fetched_concat, ← List.append_assoc]
      exact ⟨hsteps.setup_back hopen', hnext⟩
    · rw [eventsOf_concat_of_ne rest hi] at hseek ⊢
      obtain ⟨hopen', hr⟩ := ih hseek hroom'
      have hnext := readUpTo_step hreach hr hstep (fun hi' => absurd hi' hi)
        (fun hi' => absurd hi' hi) hroom'
      rw [if_neg hi, List.append_nil] at hnext
      exact ⟨(Aesdsocket.step_other hstep hi).1 ▸ hopen', hnext⟩

/-- What a client is sent from a state on, in which a reply begins, is the history from the position
in that state on.
Source: `handler.c`, `handle_connection` and `write_to_client`
Kind: L -/
theorem replies_from (hpre : serverRun K pre = some s₀)
    (hrest : run (Aesdsocket.step K) s₀ rest = some s) {site : ReplySite}
    (hpc : (s₀.conns i).pc = .reply site .read)
    (hpos : sizeOfLoff (s₀.fPos i) ≤ (history pre).length)
    (hseek : ∀ request, Event.ioctl request true ∉ eventsOf i rest)
    (hroom : (packetLog (pre ++ rest)).length ≤ 10) :
    delivered (eventsOf i rest) <+: (history (pre ++ rest)).drop (sizeOfLoff (s₀.fPos i)) ∧
    ∀ t s', t.conn = i → t.event = .read (some []) → s.step K t = some s' →
      delivered (eventsOf i rest) = (history (pre ++ rest)).drop (sizeOfLoff (s₀.fPos i)) := by
  have hrun : serverRun K (pre ++ rest) = some s := run_append.mpr ⟨s₀, hpre, hrest⟩
  have hconn := handleConnection_of_run hrun i
  obtain ⟨-, hr⟩ := readUpTo_from hpre hrest (by rw [hpc]; rfl) hpos hseek hroom
  have hstart : ((history pre).take (sizeOfLoff (s₀.fPos i))).length = sizeOfLoff (s₀.fPos i) := by
    rw [List.length_take]
    exact Nat.min_eq_left hpos
  -- before the reply all that was read has been sent
  have hbefore : delivered (eventsOf i pre) = fetched (eventsOf i pre) := by
    have hrelay := (relayed_of_run (handleConnection_of_run hpre i)).all
    rw [hpc] at hrelay
    exact (List.append_nil _).symm.trans (hrelay rfl)
  rw [← hstart]
  refine ⟨?_, ?_⟩
  · have hsent := (relayed_of_run hconn).sent
    rw [eventsOf_append, delivered_append, fetched_append, hbefore,
      List.prefix_append_right_inj] at hsent
    exact hsent.trans hr.isPrefix_drop
  · rintro t s' rfl hev hstep
    obtain ⟨h, pos, dev, hh, -, -⟩ := Aesdsocket.step_cases hstep
    rw [hev] at hh
    have hsent := delivered_eq_fetched hconn hh
    rw [eventsOf_append, delivered_append, fetched_append, hbefore, List.append_right_inj] at hsent
    rw [hsent]
    apply hr.eq_drop
    rw [← content_eq_history hrun hroom]
    exact length_content_le_of_end hrun hstep hev

/-! ### From a seek on -/

/-- As long as nothing was evicted the commands of the device are the packets written.
Source: `handler.c`, `append_packet`; `main.c`, the file operations
Kind: L -/
theorem commands_eq_packets (hrun : serverRun K pre = some s₀)
    (hroom : (packetLog pre).length ≤ 10) : s₀.dev.commands = (packetLog pre).map Prod.snd := by
  rw [(kept_of_run hrun).commands, rtake_of_length_le (by rwa [List.length_map])]

/-- The packets of two parts of a run.
Source: none: infrastructure
Kind: L -/
theorem packetLog_append (pre rest : List ServerStep) :
    packetLog (pre ++ rest) = packetLog pre ++ packetLog rest := by
  simp [packetLog]

/-- Where a piece of a concatenation starts does not depend on the pieces behind it.
Source: none: infrastructure
Kind: L -/
theorem drop_flatten_append {L M : List (List UInt8)} {k : ℕ} (hk : k ≤ L.length) (n : ℕ) :
    (L ++ M).flatten.drop (((L.map List.length).take k).sum + n) =
      ((L ++ M).drop k).flatten.drop n := by
  have hsum : ((L.map List.length).take k).sum = (((L ++ M).map List.length).take k).sum := by
    rw [List.map_append, List.take_append_of_le_length (by rwa [List.length_map])]
  rw [hsum, ← List.drop_drop, List.drop_sum_flatten]

/-- **A seek is answered from the byte asked for.** In every run of the server in which at most ten
packets have been written, through any interleaving and whatever fails: a seek that succeeds names a
byte `Y` of a packet `X` that has been written, all that its client is sent from there on, up to its
next seek, is a prefix of the packets from that byte on, those written after the seek included; and
where its handler reads the end of the device, it has been sent all of that.
Source: `handler.c`, `handle_connection`, the SEEKTO branch, and `write_to_client`; `main.c`,
`aesd_ioctl` and `aesd_read`
Kind: P -/
theorem replies_follow_seek {env : KernelEnv} {request : AesdSeekto}
    (hrun : serverRun K (pre ++ ⟨i, env, .ioctl request true⟩ :: rest) = some s)
    (hseek : ∀ request, Event.ioctl request true ∉ eventsOf i rest)
    (hroom : (packetLog (pre ++ rest)).length ≤ 10) :
    let X := request.writeCmd.toNat
    let Y := request.writeCmdOffset.toNat
    let wanted := (((packetLog (pre ++ rest)).map Prod.snd).drop X).flatten.drop Y
    (∃ packet, ((packetLog pre).map Prod.snd)[X]? = some packet ∧ Y < packet.length) ∧
    delivered (eventsOf i rest) <+: wanted ∧
    ∀ t s', t.conn = i → t.event = .read (some []) → s.step K t = some s' →
      delivered (eventsOf i rest) = wanted := by
  intro X Y wanted
  set w : ServerStep := ⟨i, env, .ioctl request true⟩ with hw
  obtain ⟨s₀, hpre, hrest⟩ := run_append.mp hrun
  obtain ⟨s₁, hstep, hrest⟩ := run_cons.mp hrest
  have hpre₁ : serverRun K (pre ++ [w]) = some s₁ := run_concat.mpr ⟨s₀, hpre, hstep⟩
  obtain ⟨hsteps, hans⟩ := Aesdsocket.step_self hstep
  -- the seek itself writes nothing
  have hlog : ∀ l, packetLog (pre ++ [w] ++ l) = packetLog (pre ++ l) := by
    intro l
    rw [packetLog_append, packetLog_append pre l, packetLog_append pre [w]]
    exact congrArg (· ++ packetLog l) (List.append_nil _)
  have hlog₀ : packetLog (pre ++ [w]) = packetLog pre := by simpa using hlog []
  have hroom₀ : (packetLog pre).length ≤ 10 := by
    rw [packetLog_append, List.length_append] at hroom
    omega
  -- where it goes
  have hk := kept_of_run hpre
  have ha := hk.represents.toAccounted
  have hal := ha.aligned_of_length (by rw [hk.added, List.length_map]; exact hroom₀)
  obtain ⟨packet, hpacket, hin, hinside, hpos⟩ := deviceAnswer_seek ha hal hans
  rw [commands_eq_packets hpre hroom₀] at hpacket hpos
  rw [content_eq_history hpre hroom₀] at hinside
  have hX : X < ((packetLog pre).map Prod.snd).length := (List.getElem?_eq_some_iff.mp hpacket).1
  have hwanted : wanted = (history (pre ++ [w] ++ rest)).drop (sizeOfLoff (s₁.fPos i)) := by
    have hall : (packetLog (pre ++ rest)).map Prod.snd =
        (packetLog pre).map Prod.snd ++ (packetLog rest).map Prod.snd := by
      rw [packetLog_append, List.map_append]
    rw [hpos, history, hlog, hall, drop_flatten_append hX.le, ← hall]
  rw [hwanted]
  refine ⟨⟨packet, hpacket, hin⟩, ?_⟩
  apply replies_from hpre₁ hrest hsteps.seek_cases ?_ hseek
  · rw [hlog]
    exact hroom
  · rw [history, hlog₀]
    exact hinside.le

end runs

/-- `"abc\n"` is written by one client, and `AESDCHAR_IOCSEEKTO:0,1` arrives from another.
Source: `handler.c`, `handle_connection`
Kind: D -/
def seekArrives : List ServerStep :=
  arrive 0 [97, 98, 99, 10] ++ commit 0 [97, 98, 99, 10] ++ arrive 1 (seekto ++ [48, 44, 49, 10])

/-- A reply of one piece.
Source: `handler.c`, `handle_connection`
Kind: D -/
def sendPiece (i : ℕ) (piece : List UInt8) : List ServerStep :=
  [⟨i, .undisturbed, .read (some piece)⟩, ⟨i, .undisturbed, .send piece piece.length⟩]

/-- The second client is sent `"bc\n"`.
Source: `handler.c`, `handle_connection` and `write_to_client`
Kind: N+ -/
theorem replies_follow_seek_one_byte :
    ∃ s, serverRun .pages4K (seekArrives ++ ⟨1, .undisturbed, .ioctl ⟨0, 1⟩ true⟩ ::
        sendPiece 1 [98, 99, 10]) = some s ∧
      delivered (eventsOf 1 (sendPiece 1 [98, 99, 10])) <+:
        (((packetLog (seekArrives ++ sendPiece 1 [98, 99, 10])).map Prod.snd).drop 0).flatten.drop
          1 := by
  obtain ⟨s, hs⟩ := Option.isSome_iff_exists.mp (show (serverRun .pages4K (seekArrives ++
    ⟨1, .undisturbed, .ioctl ⟨0, 1⟩ true⟩ :: sendPiece 1 [98, 99, 10])).isSome = true by
      decide +kernel)
  refine ⟨s, hs, (replies_follow_seek hs ?_ (by decide)).2.1⟩
  intro request
  simp [eventsOf, sendPiece]

end Aesd.Server
