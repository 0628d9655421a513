import Aesd.Server.System
import Aesd.Driver.Reading

/-!
# The reply after a packet

After each packet the handler sends the client what is left of the device from the position of its
descriptor on (`replying_of_run`). The descriptor is opened once for a connection and its position
is never set back, so that only the first packet is answered with the full content
(`full_reply_iff`).
-/

namespace Aesd.Server

open Aesd.Lib Aesd.Driver

/-- The bytes sent in the events of a connection.
Source: `handler.c`, `handle_connection` and `write_to_client`
Kind: D -/
def sentBy (events : List Event) : List UInt8 := (events.map Event.sent).flatten

section reply

variable {K : KernelLimits} {env : KernelEnv} {ev : Event} {fPos pos : ℤ} {dev dev' : AesdDev}

/-! ### The device's part -/

/-- A read of a connection is one of the device.
Source: `main.c`, the file operations
Kind: L -/
theorem deviceAnswer_read {result : Option (List UInt8)}
    (hans : deviceAnswer K env (.read result) fPos dev = some (pos, dev')) :
    result = (aesdRead env.read bufferSize fPos dev).1.toOption ∧
      pos = (aesdRead env.read bufferSize fPos dev).2 ∧ dev' = dev := by
  rw [deviceAnswer, Option.ite_none_right_eq_some] at hans
  cases hans.2
  exact ⟨hans.1, rfl, rfl⟩

/-- The event does not reach the device.
Source: `handler.c`, `handle_connection`
Kind: D -/
def Event.Private : Event → Prop
  | .openDevice _ | .read _ | .ioctl _ _ | .write _ _ => False
  | _ => True

/-- A private event moves neither the position nor the device.
Source: `main.c`, the file operations
Kind: L -/
theorem deviceAnswer_private (hans : deviceAnswer K env ev fPos dev = some (pos, dev'))
    (hpriv : ev.Private) : pos = fPos ∧ dev' = dev := by
  cases ev with
  | openDevice ok => exact absurd hpriv id
  | read result => exact absurd hpriv id
  | ioctl request ok => exact absurd hpriv id
  | write bytes result => exact absurd hpriv id
  | _ =>
      cases hans
      exact ⟨rfl, rfl⟩

/-! ### From the append to the end of the reply -/

/-- The places from a successful `write` to the end of the reply.
Source: `handler.c`, `handle_connection` and `write_to_client`
Kind: D -/
def Pc.inReply : Pc → Bool
  | .append (.close true) | .append (.returned true) | .reset .afterPacket
  | .remalloc .afterPacket | .reply .afterPacket .read | .reply .afterPacket (.send _)
  | .reply .afterPacket (.returned true) | .recv => true
  | _ => false

/-- The reply has been sent.
Source: `handler.c`, `handle_connection` and `write_to_client`
Kind: D -/
def Pc.replied : Pc → Bool
  | .reply .afterPacket (.returned _) | .recv => true
  | _ => false

/-- What has been read for a reply and not yet sent.
Source: `handler.c`, `handle_connection` and `write_to_client`
Kind: D -/
def Pc.unsent : Pc → List UInt8
  | .reply _ (.send chunk) => chunk
  | _ => []

/-- What has been sent is the content from position `p` on, as far as it has been read.
Source: `handler.c`, `handle_connection` and `write_to_client`
Kind: D -/
structure Replying (content : List UInt8) (p : ℕ) (events : List Event) (pc : Pc) (fPos : ℤ) :
    Prop where
  place : pc.inReply = true
  sent : sentBy events ++ pc.unsent <+: content.drop p
  position : sizeOfLoff fPos = p + (sentBy events ++ pc.unsent).length
  complete : pc.replied = true → sentBy events = content.drop p

variable {content : List UInt8} {p : ℕ} {events : List Event} {pc pc' : Pc} {h h' : Handler}

/-- What one more event has sent.
Source: none: infrastructure
Kind: L -/
theorem sentBy_concat (events : List Event) (ev : Event) :
    sentBy (events ++ [ev]) = sentBy events ++ ev.sent := by
  simp [sentBy]

/-- A step that sends nothing and leaves the position.
Source: `handler.c`, `write_to_client`
Kind: L -/
theorem Replying.next (hr : Replying content p events pc fPos) (hsent : ev.sent = [])
    (hplace : pc'.inReply = true) (hunsent : pc'.unsent = pc.unsent)
    (hreplied : (pc.replied || !pc'.replied) = true) :
    Replying content p (events ++ [ev]) pc' fPos := by
  refine ⟨hplace, ?_, ?_, fun hdone => ?_⟩
  · rw [sentBy_concat, hsent, List.append_nil, hunsent]
    exact hr.sent
  · rw [sentBy_concat, hsent, List.append_nil, hunsent]
    exact hr.position
  · rw [hdone, Bool.not_true, Bool.or_false] at hreplied
    rw [sentBy_concat, hsent, List.append_nil]
    exact hr.complete hreplied

/-- A read of the reply: it delivers what comes next, or the reply is complete.
Source: `handler.c`, `write_to_client`; `main.c`, the file operations
Kind: L -/
theorem Replying.read (hr : Replying content p events (.reply .afterPacket .read) fPos)
    (ha : Accounted K dev) (hcontent : dev.content = content) {result : Option (List UInt8)}
    {rpc : ReplyPc} (hev : writeToClient .read (.read result) = some rpc)
    (hread : result ≠ none)
    (hans : deviceAnswer K env (.read result) fPos dev = some (pos, dev')) :
    Replying content p (events ++ [.read result]) (.reply .afterPacket rpc) pos := by
  obtain ⟨hres, rfl, -⟩ := deviceAnswer_read hans
  obtain ⟨hpiece, hmove, -, hend⟩ := aesdRead_moves ha hres
  have hsent := hr.sent
  have hposition := hr.position
  rw [show Pc.unsent (.reply .afterPacket .read) = [] from rfl, List.append_nil] at hsent hposition
  have hsame : sentBy (events ++ [.read result]) = sentBy events := by
    rw [sentBy_concat]
    exact List.append_nil _
  -- the bytes read follow those sent
  have hnext : sentBy events ++ result.getD [] <+: content.drop p := by
    rw [hcontent, hposition, ← List.drop_drop] at hpiece
    obtain ⟨rest, hrest⟩ := hsent
    rw [← hrest, List.drop_left] at hpiece
    rw [← hrest]
    exact (List.prefix_append_right_inj _).mpr hpiece
  rcases result with _ | (_ | ⟨b, bytes⟩)
  · exact absurd rfl hread
  · cases hev
    refine ⟨rfl, ?_, ?_, fun _ => ?_⟩
    · rw [hsame]
      exact hnext
    · rw [hsame, hmove, hposition]
      simp [Pc.unsent]
    · -- the end of the device: nothing is left of the content
      have hpast : content.length ≤ p + (sentBy events).length := by
        rw [← hposition, ← hcontent]
        exact (hend rfl).resolve_left (by decide)
      rw [hsame]
      apply hsent.eq_of_length_le
      rw [List.length_drop]
      omega
  · rw [writeToClient, Option.ite_none_right_eq_some] at hev
    cases hev.2
    refine ⟨rfl, ?_, ?_, fun hdone => by cases hdone⟩
    · rw [hsame]
      exact hnext
    · rw [hsame, hmove, hposition, Nat.add_assoc, ← List.length_append]
      rfl

/-- A send of the reply.
Source: `handler.c`, `write_to_client`
Kind: L -/
theorem Replying.send {chunk bytes : List UInt8} {sent : ℤ}
    (hr : Replying content p events (.reply .afterPacket (.send chunk)) fPos) {rpc : ReplyPc}
    (hev : writeToClient (.send chunk) (.send bytes sent) = some rpc)
    (hok : (Event.send bytes sent).Succeeds) :
    Replying content p (events ++ [.send bytes sent]) (.reply .afterPacket rpc) fPos := by
  rw [writeToClient, Option.ite_none_right_eq_some, Option.some.injEq] at hev
  obtain ⟨rfl, rfl⟩ := hev
  have hfull : sent = bytes.length := hok
  rw [if_neg (not_not.mpr hfull)]
  have hsame : sentBy (events ++ [.send bytes sent]) = sentBy events ++ bytes := sentBy_concat _ _
  refine ⟨rfl, ?_, ?_, fun hdone => by cases hdone⟩
  · rw [hsame, show Pc.unsent (.reply .afterPacket .read) = [] from rfl, List.append_nil]
    exact hr.sent
  · rw [hsame, show Pc.unsent (.reply .afterPacket .read) = [] from rfl, List.append_nil]
    exact hr.position

/-- **A step of the connection between its append and the end of its reply.**
Source: `handler.c`, `handle_connection` and `write_to_client`
Kind: P -/
theorem Replying.step (hr : Replying content p events h.pc fPos) (ha : Accounted K dev)
    (hcontent : dev.content = content) (hstep : h.Steps .charDevice ev h')
    (hans : deviceAnswer K env ev fPos dev = some (pos, dev')) (hok : ev.Succeeds)
    (hread : ev ≠ .read none) (hrecv : ∀ c, ev ≠ .recv c) :
    Replying content p (events ++ [ev]) h'.pc pos ∧ ev.written = none := by
  have hplace := hr.place
  cases hstep with
  | recvEnds _ => exact absurd rfl (hrecv none)
  | @recvGrows chunk _ _ _ _ => exact absurd rfl (hrecv (some chunk))
  | @recvFits chunk _ _ _ _ => exact absurd rfl (hrecv (some chunk))
  | @appends apc apc' _ hpc hev =>
      rw [hpc] at hr hplace
      cases apc with
      | close ok =>
          cases ok with
          | false => cases hplace
          | true =>
              cases ev with
              | closeAppend =>
                  cases hev
                  obtain ⟨rfl, -⟩ := deviceAnswer_private hans trivial
                  exact ⟨hr.next rfl rfl rfl rfl, rfl⟩
              | _ => cases hev
      | returned ok => cases ev <;> cases hev
      | _ => cases hplace
  | @appendReturns ok hpc =>
      rw [hpc] at hr hplace
      obtain ⟨rfl, -⟩ := deviceAnswer_private hans trivial
      cases ok with
      | false => cases hplace
      | true => exact ⟨hr.next rfl rfl rfl rfl, rfl⟩
  | @resets site hpc =>
      rw [hpc] at hr hplace
      obtain ⟨rfl, -⟩ := deviceAnswer_private hans trivial
      cases site with
      | afterSeek => cases hplace
      | afterPacket => exact ⟨hr.next rfl rfl rfl rfl, rfl⟩
  | remallocFails hpc => exact absurd rfl hok
  | @remallocs site answer junk hpc _ =>
      rw [hpc] at hr hplace
      obtain ⟨rfl, -⟩ := deviceAnswer_private hans trivial
      cases site with
      | afterSeek => cases hplace
      | afterPacket => exact ⟨hr.next rfl rfl rfl rfl, rfl⟩
  | @replies site rpc rpc' _ hpc hev =>
      rw [hpc] at hr hplace
      refine ⟨?_, (writeToClient_appends_nothing hev).1⟩
      cases site with
      | afterSeek => cases hplace
      | afterPacket =>
          cases rpc with
          | returned ok => cases hev
          | read =>
              cases ev with
              | read result => exact hr.read ha hcontent hev (fun h => hread (congrArg _ h)) hans
              | _ => cases hev
          | send chunk =>
              cases ev with
              | send bytes sent =>
                  obtain ⟨rfl, -⟩ := deviceAnswer_private hans trivial
                  exact hr.send hev hok
              | _ => cases hev
  | @replyReturns site ok hpc =>
      rw [hpc] at hr hplace
      obtain ⟨rfl, -⟩ := deviceAnswer_private hans trivial
      cases site with
      | afterSeek => cases hplace
      | afterPacket =>
          cases ok with
          | false => cases hplace
          | true => exact ⟨hr.next rfl rfl rfl rfl, rfl⟩
  | mallocFails hpc | mallocs hpc _ | opens hpc | growFails hpc _ | grows hpc _ _ | ioctls hpc
  | locks hpc | unlocks hpc | closesDevice hpc | freesLast hpc | closesClient hpc
  | abortCloses hpc | abortFrees hpc | setsDone hpc =>
      rw [hpc] at hplace
      cases hplace

/-! ### The position before a packet -/

/-- The places before the descriptor is opened.
Source: `handler.c`, `handle_connection`
Kind: D -/
def Pc.setup : Pc → Bool
  | .malloc | .openDevice => true
  | _ => false

/-- The places from a `write` to the end of the reply.
Source: `handler.c`, `handle_connection` and `write_to_client`
Kind: D -/
def Pc.afterWrite : Pc → Bool
  | .append (.close true) | .append (.returned true) | .unlock true | .reset .afterPacket
  | .remalloc .afterPacket | .reply .afterPacket _ => true
  | _ => false

/-- The places from a `write` to the first read of the reply.
Source: `handler.c`, `handle_connection` and `write_to_client`
Kind: D -/
def Pc.unread : Pc → Bool
  | .append (.close true) | .append (.returned true) | .unlock true | .reset .afterPacket
  | .remalloc .afterPacket | .reply .afterPacket .read => true
  | _ => false

/-- The places of a reply to a seek.
Source: `handler.c`, `handle_connection` and `write_to_client`
Kind: D -/
def Pc.seeking : Pc → Bool
  | .reply .afterSeek _ => true
  | _ => false

/-- The code may go from one place to the other without a `write` or a read.
Source: `handler.c`, `handle_connection`
Kind: D -/
def Pc.carries (pc pc' : Pc) : Bool :=
  (pc.setup || !pc'.setup) && (pc.afterWrite || !pc'.afterWrite) && (pc'.unread || !pc.unread) &&
    !pc'.seeking

/-- Where the descriptor of a connection that never seeks is: at the start until the connection has
written a packet, and past it as soon as that packet has been answered.
Source: `handler.c`, `handle_connection`
Kind: D -/
structure Positioned (events : List Event) (pc : Pc) (fPos : ℤ) : Prop where
  nonneg : 0 ≤ fPos
  small : fPos < 2 ^ 36
  unsought : pc.seeking = false
  fresh : events.filterMap Event.written = [] → fPos = 0 ∧ pc.afterWrite = false
  moved : events.filterMap Event.written ≠ [] → pc.setup = false ∧ (0 < fPos ∨ pc.unread = true)

/-- An event that writes nothing.
Source: none: infrastructure
Kind: L -/
theorem filterMap_written_concat (events : List Event) (hev : ev.written = none) :
    (events ++ [ev]).filterMap Event.written = events.filterMap Event.written := by
  rw [filterMap_concat, hev, Option.toList_none, List.append_nil]

/-- A step that neither writes nor reads.
Source: `handler.c`, `handle_connection`
Kind: L -/
theorem Positioned.next (hp : Positioned events pc fPos) (hwritten : ev.written = none)
    (hcarries : pc.carries pc' = true) : Positioned (events ++ [ev]) pc' fPos := by
  simp only [Pc.carries, Bool.and_eq_true, Bool.or_eq_true, Bool.not_eq_true'] at hcarries
  obtain ⟨⟨⟨hsetup, hafter⟩, hunread⟩, hseek⟩ := hcarries
  refine ⟨hp.nonneg, hp.small, hseek, ?_, ?_⟩
  · rw [filterMap_written_concat events hwritten]
    intro hnone
    obtain ⟨hzero, hbefore⟩ := hp.fresh hnone
    exact ⟨hzero, hafter.resolve_left (by rw [hbefore]; decide)⟩
  · rw [filterMap_written_concat events hwritten]
    intro hsome
    obtain ⟨hopen, hmoved⟩ := hp.moved hsome
    refine ⟨hsetup.resolve_left (by rw [hopen]; decide), hmoved.imp id fun hu => ?_⟩
    exact hunread.resolve_right (by rw [hu]; decide)

/-- A step that does not reach the device and does not write.
Source: `main.c`, the file operations
Kind: L -/
theorem Positioned.idle (hp : Positioned events h.pc fPos) (hpc : h.pc = pc)
    (hans : deviceAnswer K env ev fPos dev = some (pos, dev')) (hpriv : ev.Private)
    (hwritten : ev.written = none) (hcarries : pc.carries pc' = true) :
    Positioned (events ++ [ev]) pc' pos := by
  obtain ⟨rfl, -⟩ := deviceAnswer_private hans hpriv
  rw [hpc] at hp
  exact hp.next hwritten hcarries

/-- A stored chunk carries the place of the position on.
Source: `handler.c`, `handle_connection`
Kind: L -/
theorem carries_dispatch (h : Handler) (hnew : pc.unread = false) :
    pc.carries (h.dispatch .charDevice) = true := by
  rw [Pc.carries, hnew]
  rcases h.dispatch_cases .charDevice with ⟨request, hpc⟩ | hpc | ⟨-, hpc⟩ | hpc
  · simp [hpc, Pc.setup, Pc.afterWrite, Pc.seeking]
  · simp [hpc, Pc.setup, Pc.afterWrite, Pc.seeking]
  · simp [hpc, packetBranch, Pc.setup, Pc.afterWrite, Pc.seeking]
  · simp [hpc, Pc.setup, Pc.afterWrite, Pc.seeking]

/-- The position is the number of bytes it stands for.
Source: `handler.c`, `handle_connection`
Kind: L -/
theorem Positioned.sizeOfLoff_eq (hp : Positioned events pc fPos) : (sizeOfLoff fPos : ℤ) = fPos := by
  have := hp.nonneg
  have := hp.small
  unfold sizeOfLoff
  omega

/-- The `write` of a packet.
Source: `main.c`, the file operations
Kind: L -/
theorem Positioned.write (hp : Positioned events (.append .write) fPos) {bytes : List UInt8}
    {result : Option ℕ} (hok : (Event.write bytes result).Succeeds)
    (hans : deviceAnswer K env (.write bytes result) fPos dev = some (pos, dev')) :
    Positioned (events ++ [.write bytes result]) (.append (.close result.isSome)) pos := by
  obtain ⟨n, rfl⟩ := Option.isSome_iff_exists.mp (show result.isSome = true from hok)
  obtain ⟨_, _, _, _, rfl, _⟩ | ⟨hother, _⟩ := deviceAnswer_cases hans
  · refine ⟨hp.nonneg, hp.small, rfl, fun hnone => ?_, fun _ => ⟨rfl, Or.inr rfl⟩⟩
    rw [List.filterMap_append, List.append_eq_nil_iff] at hnone
    cases hnone.2
  · exact absurd rfl (hother bytes (some n))

/-- A read of the reply to a packet: the device is not empty, so that the position is past the
start after the first one.
Source: `handler.c`, `write_to_client`; `main.c`, the file operations
Kind: L -/
theorem Positioned.read (hp : Positioned events (.reply .afterPacket .read) fPos)
    (ha : Accounted K dev) (hne : events.filterMap Event.written ≠ [] → dev.content ≠ [])
    {result : Option (List UInt8)} {rpc : ReplyPc}
    (hev : writeToClient .read (.read result) = some rpc) (hread : result ≠ none)
    (hans : deviceAnswer K env (.read result) fPos dev = some (pos, dev')) :
    Positioned (events ++ [.read result]) (.reply .afterPacket rpc) pos := by
  obtain ⟨hres, rfl, -⟩ := deviceAnswer_read hans
  obtain ⟨hpiece, -, hmove, hend⟩ := aesdRead_moves ha hres
  have hwritten : events.filterMap Event.written ≠ [] := by
    intro hnone
    cases (hp.fresh hnone).2
  have hcontent : 0 < dev.content.length := List.length_pos_of_ne_nil (hne hwritten)
  have hsmall := ha.length_content_lt
  have hpos := hp.sizeOfLoff_eq
  have hlen := hpiece.length_le
  rw [List.length_drop] at hlen
  -- either way the position ends inside or at the end of a content that is not empty
  have hbound : 0 < fPos + (result.getD []).length ∧ fPos + (result.getD []).length < 2 ^ 36 := by
    have := hp.small
    rcases result with _ | (_ | ⟨b, bytes⟩)
    · exact absurd rfl hread
    · have hpast := (hend rfl).resolve_left (by decide)
      simp only [Option.getD_some, List.length_nil]
      omega
    · simp only [Option.getD_some, List.length_cons] at hlen ⊢
      omega
  rw [hmove]
  refine ⟨hbound.1.le, hbound.2, rfl, fun hnone => ?_, fun _ => ⟨rfl, Or.inl hbound.1⟩⟩
  rw [filterMap_written_concat events rfl] at hnone
  exact absurd hnone hwritten

/-- A connection that never seeks replies to packets only.
Source: `handler.c`, `handle_connection` and `write_to_client`
Kind: L -/
theorem Positioned.afterPacket {site : ReplySite} {rpc : ReplyPc}
    (hp : Positioned events pc fPos) (hpc : pc = .reply site rpc) : site = .afterPacket := by
  have hunsought := hp.unsought
  rw [hpc] at hunsought
  cases site with
  | afterSeek => cases hunsought
  | afterPacket => rfl

/-- **A step of a connection that never seeks and on which nothing fails.**
Source: `handler.c`, `handle_connection`
Kind: P -/
theorem Positioned.step (hp : Positioned events h.pc fPos) (ha : Accounted K dev)
    (hne : events.filterMap Event.written ≠ [] → dev.content ≠ [])
    (hstep : h.Steps .charDevice ev h')
    (hans : deviceAnswer K env ev fPos dev = some (pos, dev')) (hok : ev.Succeeds)
    (hread : ev ≠ .read none) (hseek : ∀ request ok, ev ≠ .ioctl request ok) :
    Positioned (events ++ [ev]) h'.pc pos := by
  cases hstep with
  | mallocFails hpc => exact absurd rfl hok
  | mallocs hpc _ => exact hp.idle hpc hans trivial rfl rfl
  | @opens ok hpc =>
      obtain rfl : ok = true := hok
      cases hans
      rw [hpc] at hp
      have hnone : events.filterMap Event.written = [] := by
        by_contra hsome
        cases (hp.moved hsome).1
      refine ⟨le_refl 0, by decide, rfl, fun _ => ⟨rfl, rfl⟩, fun hsome => ?_⟩
      rw [filterMap_written_concat events rfl] at hsome
      exact absurd hnone hsome
  | recvEnds hpc => exact hp.idle hpc hans trivial rfl rfl
  | recvGrows hpc _ _ _ => exact hp.idle hpc hans trivial rfl rfl
  | recvFits hpc _ _ _ => exact hp.idle hpc hans trivial rfl (carries_dispatch _ rfl)
  | growFails hpc _ => exact hp.idle hpc hans trivial rfl rfl
  | grows hpc _ _ => exact hp.idle hpc hans trivial rfl (carries_dispatch _ rfl)
  | @ioctls request ok hpc => exact absurd rfl (hseek request ok)
  | locks hpc => exact hp.idle hpc hans trivial rfl rfl
  | @appends apc apc' _ hpc hev =>
      cases apc with
      | openFile =>
          cases ev with
          | openAppend ok =>
              obtain rfl : ok = true := hok
              cases hev
              exact hp.idle hpc hans trivial rfl rfl
          | _ => cases hev
      | write =>
          cases ev with
          | write bytes result =>
              rw [appendPacket, Option.ite_none_right_eq_some] at hev
              cases hev.2
              rw [hpc] at hp
              exact hp.write hok hans
          | _ => cases hev
      | close ok =>
          cases ev with
          | closeAppend =>
              cases hev
              cases ok <;> exact hp.idle hpc hans trivial rfl rfl
          | _ => cases hev
      | returned ok => cases ev <;> cases hev
  | @appendReturns ok hpc => cases ok <;> exact hp.idle hpc hans trivial rfl rfl
  | @unlocks ok hpc => cases ok <;> exact hp.idle hpc hans trivial rfl rfl
  | @resets site hpc => cases site <;> exact hp.idle hpc hans trivial rfl rfl
  | remallocFails hpc => exact absurd rfl hok
  | @remallocs site answer junk hpc _ => cases site <;> exact hp.idle hpc hans trivial rfl rfl
  | @replies site rpc rpc' _ hpc hev =>
      obtain rfl := hp.afterPacket hpc
      cases rpc with
      | returned ok => cases hev
      | read =>
          cases ev with
          | read result =>
              rw [hpc] at hp
              exact hp.read ha hne hev (fun h => hread (congrArg _ h)) hans
          | _ => cases hev
      | send chunk =>
          cases ev with
          | send bytes sent => exact hp.idle hpc hans trivial rfl (by cases rpc' <;> rfl)
          | _ => cases hev
  | @replyReturns site ok hpc =>
      obtain rfl := hp.afterPacket hpc
      cases ok <;> exact hp.idle hpc hans trivial rfl rfl
  | closesDevice hpc => exact hp.idle hpc hans trivial rfl rfl
  | freesLast hpc => exact hp.idle hpc hans trivial rfl rfl
  | closesClient hpc => exact hp.idle hpc hans trivial rfl rfl
  | @abortCloses allocated hpc => cases allocated <;> exact hp.idle hpc hans trivial rfl rfl
  | abortFrees hpc => exact hp.idle hpc hans trivial rfl rfl
  | setsDone hpc => exact hp.idle hpc hans trivial rfl rfl

end reply

/-! ### Runs -/

section runs

variable {K : KernelLimits} {i : ℕ} {s s₀ : Aesdsocket} {pre rest steps : List ServerStep}
  {payload : List UInt8}

/-- All calls of a connection succeed, its reads included.
Source: `handler.c`, `handle_connection`
Kind: D -/
def AllSucceed (events : List Event) : Prop :=
  ∀ ev ∈ events, ev.Succeeds ∧ ev ≠ .read none

/-- The connection has made no seek.
Source: `handler.c`, `handle_connection`
Kind: D -/
def SeeksNothing (events : List Event) : Prop := ∀ request ok, Event.ioctl request ok ∉ events

/-- A step of another connection leaves a connection as it was.
Source: `handler.c`, `handle_connection`
Kind: L -/
theorem Aesdsocket.step_other {t : ServerStep} {s' : Aesdsocket} (hstep : s.step K t = some s')
    (hne : t.conn ≠ i) : s'.conns i = s.conns i ∧ s'.fPos i = s.fPos i := by
  obtain ⟨h, pos, dev, -, -, rfl⟩ := step_cases hstep
  exact ⟨Function.update_of_ne (Ne.symm hne) _ _, Function.update_of_ne (Ne.symm hne) _ _⟩

/-- A step of a connection, as one of its handler and the answer of the device to it.
Source: `handler.c`, `handle_connection`; `main.c`, the file operations
Kind: L -/
theorem Aesdsocket.step_self {t : ServerStep} {s' : Aesdsocket} (hstep : s.step K t = some s') :
    (s.conns t.conn).Steps .charDevice t.event (s'.conns t.conn) ∧
      deviceAnswer K t.env t.event (s.fPos t.conn) s.dev = some (s'.fPos t.conn, s'.dev) := by
  obtain ⟨h, pos, dev, hh, hans, rfl⟩ := step_cases hstep
  simp only [Function.update_self]
  exact ⟨Handler.steps_of_step hh, hans⟩

/-- A connection that has written something finds the device not empty.
Source: `handler.c`, `append_packet`; `main.c`, the file operations
Kind: L -/
theorem content_ne_nil (hrun : serverRun K steps = some s)
    (hwritten : (eventsOf i steps).filterMap Event.written ≠ []) : s.dev.content ≠ [] := by
  have hk := kept_of_run hrun
  have hlog : packetLog steps ≠ [] := by
    rintro hnil
    rw [← packetLog_of_conn, hnil] at hwritten
    exact hwritten rfl
  obtain ⟨older, ⟨j, last⟩, hlast⟩ := List.eq_nil_or_concat (packetLog steps) |>.resolve_left hlog
  have hadded : s.dev.added = older.map Prod.snd ++ [last] := by rw [hk.added, hlast]; simp
  have hmem : last ∈ s.dev.commands := by
    rw [hk.represents.commands_eq, hadded, List.rtake_concat_succ]
    simp
  have hnl := hk.represents.terminated last (by rw [hadded]; simp)
  intro hnil
  rw [AesdDev.content, List.flatten_eq_nil_iff] at hnil
  rw [hnil last hmem] at hnl
  exact List.not_mem_nil hnl

/-- Where the descriptor of a connection is, in every run in which the connection makes no seek and
all its calls succeed.
Source: `handler.c`, `handle_connection`; `main.c`, the file operations
Kind: L -/
theorem positioned_of_run (hrun : serverRun K steps = some s) (hok : AllSucceed (eventsOf i steps))
    (hseek : SeeksNothing (eventsOf i steps)) :
    Positioned (eventsOf i steps) (s.conns i).pc (s.fPos i) := by
  refine run_induction (P := fun steps s => AllSucceed (eventsOf i steps) →
      SeeksNothing (eventsOf i steps) → Positioned (eventsOf i steps) (s.conns i).pc (s.fPos i))
    ?_ ?_ hrun hok hseek
  · intro _ _
    have hsmall : (0 : ℤ) < 2 ^ 36 := by decide
    exact ⟨le_refl 0, hsmall, rfl, fun _ => ⟨rfl, rfl⟩, fun h => absurd rfl h⟩
  · intro steps s t s' hrun' ih hstep hok hseek
    by_cases hi : t.conn = i
    · subst hi
      rw [eventsOf_concat_self] at hok hseek ⊢
      have hok' := List.forall_mem_append.mp hok
      obtain ⟨hsteps, hans⟩ := Aesdsocket.step_self hstep
      have hlast := hok'.2 t.event List.mem_cons_self
      refine (ih hok'.1 fun r o h => hseek r o (List.mem_append_left _ h)).step
        (kept_of_run hrun').represents.toAccounted (content_ne_nil hrun') hsteps hans hlast.1
        hlast.2 fun r o h => hseek r o ?_
      rw [← h]
      exact List.mem_append_right _ List.mem_cons_self
    · rw [eventsOf_concat_of_ne steps hi] at hok hseek ⊢
      obtain ⟨hconn, hpos⟩ := Aesdsocket.step_other hstep hi
      rw [hconn, hpos]
      exact ih hok hseek

/-- What a connection sends between the `write` of a packet and the end of the reply, when its calls
succeed and no other connection writes.
Source: `handler.c`, `handle_connection` and `write_to_client`
Kind: L -/
theorem replying_of_run {env : KernelEnv} {n : ℕ} (hpre : serverRun K pre = some s₀)
    (hrun : serverRun K (pre ++ ⟨i, env, .write payload (some n)⟩ :: rest) = some s)
    (hone : ∀ c, Event.recv c ∉ eventsOf i rest) (hok : AllSucceed (eventsOf i rest))
    (halone : ∀ t ∈ rest, t.conn ≠ i → t.event.written = none) :
    packetLog (pre ++ ⟨i, env, .write payload (some n)⟩ :: rest) =
        packetLog pre ++ [(i, payload)] ∧
      Replying (((packetLog pre).map Prod.snd ++ [payload]).rtake 10).flatten
        (sizeOfLoff (s₀.fPos i)) (eventsOf i rest) (s.conns i).pc (s.fPos i) := by
  set w : ServerStep := ⟨i, env, .write payload (some n)⟩ with hw
  obtain ⟨t₀, ht₀, hrest⟩ := run_append.mp hrun
  obtain rfl : t₀ = s₀ := Option.some.inj (ht₀.symm.trans hpre)
  obtain ⟨sw, hstep, hrest⟩ := run_cons.mp hrest
  refine run_induction (P := fun rest s => (∀ c, Event.recv c ∉ eventsOf i rest) →
      AllSucceed (eventsOf i rest) → (∀ t ∈ rest, t.conn ≠ i → t.event.written = none) →
      packetLog (pre ++ w :: rest) = packetLog pre ++ [(i, payload)] ∧
      Replying (((packetLog pre).map Prod.snd ++ [payload]).rtake 10).flatten
        (sizeOfLoff (t₀.fPos i)) (eventsOf i rest) (s.conns i).pc (s.fPos i))
    ?_ ?_ hrest hone hok halone
  · intro _ _ _
    obtain ⟨hsteps, hans⟩ := Aesdsocket.step_self hstep
    obtain ⟨hpc, hdata, hclose⟩ := hsteps.write_cases
    refine ⟨packetLog_concat pre w, ?_⟩
    obtain ⟨_, _, _, _, hpos, _⟩ | ⟨hother, _⟩ := deviceAnswer_cases hans
    · change Replying _ _ [] (sw.conns w.conn).pc (sw.fPos w.conn)
      rw [hclose, hpos]
      exact ⟨rfl, List.nil_prefix, (Nat.add_zero _).symm, fun h => by cases h⟩
    · exact absurd rfl (hother payload (some n))
  · intro rest' s' t s'' hrun' ih hstep' hone hok halone
    have hreach : serverRun K (pre ++ w :: rest') = some s' :=
      run_append.mpr ⟨t₀, hpre, run_cons.mpr ⟨sw, hstep, hrun'⟩⟩
    rw [List.forall_mem_append, List.forall_mem_singleton] at halone
    have happend : pre ++ w :: (rest' ++ [t]) = (pre ++ w :: rest') ++ [t] := by simp
    by_cases hi : t.conn = i
    · rw [← hi, eventsOf_concat_self, hi] at hone hok ⊢
      have hok' := List.forall_mem_append.mp hok
      have hlast := hok'.2 t.event List.mem_cons_self
      obtain ⟨hlog, hr⟩ := ih (fun c h => hone c (List.mem_append_left _ h)) hok'.1 halone.1
      obtain ⟨hsteps, hans⟩ := Aesdsocket.step_self hstep'
      rw [hi] at hsteps hans
      have hk := kept_of_run hreach
      have hcontent : s'.dev.content =
          (((packetLog pre).map Prod.snd ++ [payload]).rtake 10).flatten := by
        rw [hk.content, hlog, List.map_append]
        rfl
      obtain ⟨hnext, hnone⟩ := hr.step hk.represents.toAccounted hcontent hsteps hans hlast.1
        hlast.2 fun c h => hone c (h ▸ List.mem_append_right _ List.mem_cons_self)
      refine ⟨?_, hnext⟩
      rw [happend, packetLog_concat, hlog, hnone, Option.map_none, Option.toList_none,
        List.append_nil]
    · rw [eventsOf_concat_of_ne rest' hi] at hone hok ⊢
      obtain ⟨hlog, hr⟩ := ih hone hok halone.1
      obtain ⟨hconn, hpos⟩ := Aesdsocket.step_other hstep' hi
      refine ⟨?_, ?_⟩
      · rw [happend, packetLog_concat, hlog, halone.2 hi, Option.map_none, Option.toList_none,
          List.append_nil]
      · rw [hconn, hpos]
        exact hr

/-- **When the reply after a packet is the full content.** In every run of the server, for every
connection and every packet it writes, from the `write` to the end of the reply: when the calls of
the connection succeed, it has made no seek, and no other connection writes in between, the content
is the last ten packets up to this one, and it is what the reply sends exactly when the packet is
the first one that the connection has written.
Source: `handler.c`, `handle_connection` and `write_to_client`
Kind: P -/
theorem full_reply_iff {env : KernelEnv} {n : ℕ}
    (hrun : serverRun K (pre ++ ⟨i, env, .write payload (some n)⟩ :: rest) = some s)
    (hend : (s.conns i).pc = .recv) (hone : ∀ c, Event.recv c ∉ eventsOf i rest)
    (hok : AllSucceed (eventsOf i pre ++ eventsOf i rest))
    (hseek : SeeksNothing (eventsOf i pre ++ eventsOf i rest))
    (halone : ∀ t ∈ rest, t.conn ≠ i → t.event.written = none) :
    s.dev.content = (((packetLog pre).map Prod.snd ++ [payload]).rtake 10).flatten ∧
      (sentBy (eventsOf i rest) = s.dev.content ↔
        (eventsOf i pre).filterMap Event.written = []) := by
  obtain ⟨s₀, hpre, hrest⟩ := run_append.mp hrun
  obtain ⟨sw, hstep, -⟩ := run_cons.mp hrest
  have hok' := List.forall_mem_append.mp hok
  obtain ⟨hlog, hr⟩ := replying_of_run hpre hrun hone hok'.2 halone
  have hk := kept_of_run hrun
  have hcontent : s.dev.content =
      (((packetLog pre).map Prod.snd ++ [payload]).rtake 10).flatten := by
    rw [hk.content, hlog, List.map_append]
    rfl
  refine ⟨hcontent, ?_⟩
  have hsent := hr.complete (by rw [hend]; rfl)
  rw [← hcontent] at hsent
  -- where the descriptor was when the packet was written
  have hp := positioned_of_run hpre hok'.1 fun r o h => hseek r o (List.mem_append_left _ h)
  obtain ⟨hpc, -, -⟩ := (Aesdsocket.step_self hstep).1.write_cases
  rw [hpc] at hp
  have hpos := hp.sizeOfLoff_eq
  rw [hsent]
  constructor
  · intro hfull
    by_contra hsome
    have hmoved := (hp.moved hsome).2.resolve_right (by decide)
    have hne : s.dev.content ≠ [] := by
      apply content_ne_nil (i := i) hrun
      rw [← packetLog_of_conn, hlog, List.filter_append, List.map_append]
      simp
    have hlen := congrArg List.length hfull
    rw [List.length_drop] at hlen
    have := List.length_pos_of_ne_nil hne
    omega
  · intro hnone
    have hzero : sizeOfLoff (s₀.fPos i) = 0 := by
      rw [(hp.fresh hnone).1]
      rfl
    rw [hzero, List.drop_zero]

/-- The steps of a connection from the `write` of a packet, which is left out, through a reply of one
piece.
Source: `handler.c`, `handle_connection`
Kind: D -/
def reply (i : ℕ) (payload piece : List UInt8) : List ServerStep :=
  [⟨i, .undisturbed, .closeAppend⟩, ⟨i, .undisturbed, .appendReturns payload true⟩,
    ⟨i, .undisturbed, .free⟩, ⟨i, .undisturbed, .malloc .moved fun _ => 0⟩,
    ⟨i, .undisturbed, .read (some piece)⟩, ⟨i, .undisturbed, .send piece piece.length⟩,
    ⟨i, .undisturbed, .read (some [])⟩, ⟨i, .undisturbed, .replyReturns true⟩]

/-- The steps of a connection on which `"a\n"` arrives, up to the `write`.
Source: `handler.c`, `handle_connection` and `append_packet`
Kind: D -/
def firstLine : List ServerStep := arrive 0 [97, 10] ++ [⟨0, .undisturbed, .openAppend true⟩]

/-- The first line of a connection is answered with the content.
Source: `handler.c`, `write_to_client`; `main.c`, the file operations
Kind: N+ -/
theorem full_reply_first :
    ∃ s, serverRun .pages4K (firstLine ++ ⟨0, .undisturbed, .write [97, 10] (some 2)⟩ ::
        reply 0 [97, 10] [97, 10]) = some s ∧
      sentBy (eventsOf 0 (reply 0 [97, 10] [97, 10])) = s.dev.content := by
  obtain ⟨s, hs, hpc⟩ := Option.map_eq_some_iff.mp (show (serverRun .pages4K (firstLine ++
    ⟨0, .undisturbed, .write [97, 10] (some 2)⟩ :: reply 0 [97, 10] [97, 10])).map
      (fun s => (s.conns 0).pc) = some .recv by decide +kernel)
  refine ⟨s, hs, (full_reply_iff hs hpc ?_ ?_ ?_ ?_).2.mpr rfl⟩
  · simp [eventsOf, reply]
  · simp [AllSucceed, eventsOf, firstLine, arrive, reply, Event.Succeeds]
  · simp [SeeksNothing, eventsOf, firstLine, arrive, reply]
  · simp [reply]

/-- The steps of a connection on which `"a\n"` was answered and `"b\n"` arrives, up to the `write`.
Source: `handler.c`, `handle_connection`
Kind: D -/
def secondLine : List ServerStep :=
  firstLine ++ ⟨0, .undisturbed, .write [97, 10] (some 2)⟩ :: reply 0 [97, 10] [97, 10] ++
    [⟨0, .undisturbed, .recv (some [98, 10])⟩, ⟨0, .undisturbed, .openAppend true⟩]

/-- The second line of a connection is not: the client is sent `"b\n"` and the device holds
`"a\nb\n"`.
Source: `handler.c`, `handle_connection`; `main.c`, the file operations
Kind: N− -/
theorem full_reply_second :
    ¬ ∀ (K : KernelLimits) (i : ℕ) (pre rest : List ServerStep) (payload : List UInt8)
      (env : KernelEnv) (n : ℕ) (s : Aesdsocket),
      serverRun K (pre ++ ⟨i, env, .write payload (some n)⟩ :: rest) = some s →
      (s.conns i).pc = .recv → (∀ c, Event.recv c ∉ eventsOf i rest) →
      AllSucceed (eventsOf i pre ++ eventsOf i rest) →
      SeeksNothing (eventsOf i pre ++ eventsOf i rest) →
      (∀ t ∈ rest, t.conn ≠ i → t.event.written = none) →
      sentBy (eventsOf i rest) = s.dev.content := by
  intro h
  have hrun : (serverRun .pages4K (secondLine ++
      ⟨0, .undisturbed, .write [98, 10] (some 2)⟩ :: reply 0 [98, 10] [98, 10])).map
      (fun s => ((s.conns 0).pc, s.dev.content)) = some (.recv, [97, 10, 98, 10]) := by
    decide +kernel
  obtain ⟨s, hs, hend⟩ := Option.map_eq_some_iff.mp hrun
  rw [Prod.mk.injEq] at hend
  have hsent := h .pages4K 0 secondLine (reply 0 [98, 10] [98, 10]) [98, 10] .undisturbed 2 s hs
    hend.1 (by simp [eventsOf, reply])
    (by simp [AllSucceed, eventsOf, secondLine, firstLine, arrive, reply, Event.Succeeds])
    (by simp [SeeksNothing, eventsOf, secondLine, firstLine, arrive, reply]) (by simp [reply])
  rw [hend.2] at hsent
  exact absurd hsent (by decide)

end runs

end Aesd.Server
