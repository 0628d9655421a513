import Aesd.Server.FullReply
import Aesd.Server.Resources
import Aesd.Driver.Reposition

/-!
# Every reply ends

`write_to_client` reads until the device has nothing more, while other clients go on writing to it.
It ends all the same: the device holds at most ten entries of bounded size, and a position that is
never set back but by a seek passes that bound in finitely many reads. So no client keeps another
one's handler busy (`calls_bounded`).

The position is the potential that pays for the reads (`Charged`): a read that delivers `n` bytes
moves it `n` bytes on, and a seek takes back at most the size of the device.
-/

namespace Aesd.Server

open Aesd.Lib Aesd.Driver

/-- The most that ten entries can hold.
Source: `handler.c`, `handle_connection`
Kind: D -/
def contentMax (K : KernelLimits) : ℕ := 10 * K.kmallocMaxSize

/-- The content is bounded by the ring and the allocator.
Source: `main.c`, the file operations
Kind: L -/
theorem length_content_le {K : KernelLimits} {dev : AesdDev} (ha : Accounted K dev) :
    dev.content.length ≤ contentMax K := by
  have hsum : (dev.commands.map List.length).sum ≤
      (dev.commands.map List.length).length * K.kmallocMaxSize := by
    apply List.sum_le_card_nsmul
    intro n hn
    obtain ⟨bytes, hbytes, rfl⟩ := List.mem_map.mp hn
    exact ha.length_command_le hbytes
  rw [List.length_map] at hsum
  rw [AesdDev.content, List.length_flatten]
  exact hsum.trans (Nat.mul_le_mul_right _ ha.length_commands_le)

/-! ### What a connection has been sent -/

/-- The event is a read that delivers something.
Source: `handler.c`, `handle_connection`
Kind: D -/
def Event.delivers : Event → Bool
  | .read (some (_ :: _)) => true
  | _ => false

/-- The event is a chunk from the client.
Source: `handler.c`, `handle_connection`
Kind: D -/
def Event.receives : Event → Bool
  | .recv (some _) => true
  | _ => false

/-- The event is a seek that succeeds.
Source: `handler.c`, `handle_connection`
Kind: D -/
def Event.seeks : Event → Bool
  | .ioctl _ true => true
  | _ => false

/-- The position pays for what has been sent and is about to be: it is set back by the seeks
only.
Source: `handler.c`, `handle_connection`
Kind: D -/
structure Charged (K : KernelLimits) (events : List Event) (pc : Pc) (fPos : ℤ) : Prop where
  nonneg : 0 ≤ fPos
  le : fPos ≤ contentMax K
  fresh : pc.setup = true → fPos = 0
  reads : events.countP Event.delivers ≤ (sentBy events ++ pc.unsent).length
  sent : ((sentBy events ++ pc.unsent).length : ℤ) ≤
    fPos + contentMax K * events.countP Event.seeks

section charged

variable {K : KernelLimits} {env : KernelEnv} {ev : Event} {fPos pos : ℤ} {dev dev' : AesdDev}
  {events : List Event} {h h' : Handler} {pc pc' : Pc}

/-- A step that neither reads nor seeks.
Source: `handler.c`, `handle_connection`
Kind: L -/
theorem Charged.next (hc : Charged K events pc fPos) (hdelivers : ev.delivers = false)
    (hseeks : ev.seeks = false) (hsent : ev.sent ++ pc'.unsent = pc.unsent)
    (hsetup : (pc.setup || !pc'.setup) = true) : Charged K (events ++ [ev]) pc' fPos := by
  have hbytes : sentBy (events ++ [ev]) ++ pc'.unsent = sentBy events ++ pc.unsent := by
    rw [sentBy_concat, List.append_assoc, hsent]
  refine ⟨hc.nonneg, hc.le, fun hnew => hc.fresh ?_, ?_, ?_⟩
  · rw [hnew, Bool.not_true, Bool.or_false] at hsetup
    exact hsetup
  · rw [countP_concat, hdelivers, hbytes]
    exact hc.reads
  · rw [countP_concat, hseeks, hbytes]
    exact hc.sent

/-- A step the device has no part in.
Source: `main.c`, the file operations
Kind: L -/
theorem Charged.idle (hc : Charged K events h.pc fPos) (hpc : h.pc = pc)
    (hans : deviceAnswer K env ev fPos dev = some (pos, dev')) (hpriv : ev.Private)
    (hsent : ev.sent ++ pc'.unsent = pc.unsent) (hsetup : (pc.setup || !pc'.setup) = true) :
    Charged K (events ++ [ev]) pc' pos := by
  obtain ⟨rfl, -⟩ := deviceAnswer_private hans hpriv
  rw [hpc] at hc
  refine hc.next ?_ ?_ hsent hsetup
  · cases ev <;> first | rfl | exact absurd hpriv id
  · cases ev <;> first | rfl | exact absurd hpriv id

/-- Nothing is left to be sent where a chunk leads to.
Source: `handler.c`, `handle_connection`
Kind: L -/
theorem accept_unsent (build : Build) (h : Handler) (chunk : List UInt8) :
    (h.accept build chunk).pc.unsent = [] ∧ (h.accept build chunk).pc.setup = false := by
  apply Handler.accept_pc (P := fun pc => pc.unsent = [] ∧ pc.setup = false)
  · exact fun _ => ⟨rfl, rfl⟩
  · exact ⟨rfl, rfl⟩
  · cases build <;> exact ⟨rfl, rfl⟩
  · exact ⟨rfl, rfl⟩

/-- A read moves the position by what it delivers.
Source: `handler.c`, `write_to_client`; `main.c`, the file operations
Kind: L -/
theorem Charged.read {site : ReplySite} (hc : Charged K events (.reply site .read) fPos)
    (ha : Accounted K dev) {result : Option (List UInt8)} {rpc : ReplyPc}
    (hev : writeToClient .read (.read result) = some rpc)
    (hans : deviceAnswer K env (.read result) fPos dev = some (pos, dev')) :
    Charged K (events ++ [.read result]) (.reply site rpc) pos := by
  obtain ⟨hres, rfl, -⟩ := deviceAnswer_read hans
  obtain ⟨hpiece, hsize, hmove, -⟩ := aesdRead_moves ha hres
  have hcontent := length_content_le ha
  have hle := hpiece.length_le
  rw [List.length_drop] at hle
  have hpos : (sizeOfLoff fPos : ℤ) = fPos := by
    have hnonneg := hc.nonneg
    have hsmall := hc.le
    have := K.kmallocMaxSize_lt
    have := K.maxRwCount_lt
    unfold contentMax at hsmall
    unfold sizeOfLoff
    omega
  have hunsent : (Pc.reply site rpc).unsent = result.getD [] ∧
      (Event.read result).delivers.toNat ≤ (result.getD []).length := by
    rcases result with _ | (_ | ⟨b, bytes⟩)
    · cases hev
      exact ⟨rfl, le_rfl⟩
    · cases hev
      exact ⟨rfl, le_rfl⟩
    · rw [writeToClient, Option.ite_none_right_eq_some] at hev
      cases hev.2
      exact ⟨rfl, Nat.succ_le_succ (Nat.zero_le _)⟩
  have hsent : sentBy (events ++ [.read result]) = sentBy events := by
    rw [sentBy_concat]
    exact List.append_nil _
  have hold : (Pc.reply site .read).unsent = [] := rfl
  have hreads := hc.reads
  have hpaid := hc.sent
  have hnonneg := hc.nonneg
  have hsmall := hc.le
  rw [hold, List.append_nil] at hreads hpaid
  have hseeks : (events ++ [Event.read result]).countP Event.seeks = events.countP Event.seeks := by
    rw [countP_concat]
    rfl
  refine ⟨by omega, by omega, by rintro ⟨⟩, ?_, ?_⟩
  · rw [countP_concat, hsent, hunsent.1, List.length_append]
    omega
  · rw [hseeks, hsent, hunsent.1, List.length_append, hmove]
    push_cast
    omega

/-- A seek sets the position back by no more than the size of the device.
Source: `handler.c`, `write_to_client`
Kind: L -/
theorem Charged.seek {request : AesdSeekto} (hc : Charged K events (.ioctl request) fPos)
    (hnonneg : 0 ≤ pos) (hle : pos ≤ contentMax K) :
    Charged K (events ++ [.ioctl request true]) (.reply .afterSeek .read) pos := by
  have hpaid := hc.sent
  have hsmall := hc.le
  have hbytes : sentBy (events ++ [.ioctl request true]) ++
      (Pc.reply .afterSeek .read).unsent = sentBy events ++ (Pc.ioctl request).unsent := by
    rw [sentBy_concat]
    exact congrArg (· ++ _) (List.append_nil _)
  refine ⟨hnonneg, hle, by rintro ⟨⟩, ?_, ?_⟩
  · rw [countP_concat, hbytes]
    exact hc.reads
  · have hcount : (events ++ [Event.ioctl request true]).countP Event.seeks =
        events.countP Event.seeks + 1 := countP_concat _ _ _
    rw [hbytes, hcount]
    push_cast
    rw [mul_add, mul_one]
    omega

/-- A seek that succeeds is charged for the reply behind it.
Source: `main.c`, the file operations
Kind: L -/
theorem Charged.ioctl {request : AesdSeekto} {ok : Bool}
    (hc : Charged K events (.ioctl request) fPos) (ha : Accounted K dev)
    (hans : deviceAnswer K env (.ioctl request ok) fPos dev = some (pos, dev')) :
    Charged K (events ++ [.ioctl request ok])
      (if ok then .reply .afterSeek .read else .closeDevice) pos := by
  rw [deviceAnswer, Option.ite_none_right_eq_some] at hans
  obtain ⟨hok, hans⟩ := hans
  cases hans
  rcases ha.ioctl_range ⟨if env.ioctlFaults then none else some request, env.ioctlInterrupted⟩
    aesdcharIocseekto fPos with ⟨e, hfail⟩ | ⟨pos, hseek, hnonneg, hlt⟩
  · rw [hfail] at hok ⊢
    obtain rfl : ok = false := hok
    exact hc.next rfl rfl rfl rfl
  · rw [hseek] at hok ⊢
    obtain rfl : ok = true := hok
    have hcontent := length_content_le ha
    exact hc.seek hnonneg (by omega)

/-- **A step of a connection is paid for.**
Source: `handler.c`, `handle_connection` and `write_to_client`
Kind: L -/
theorem Charged.step (hc : Charged K events h.pc fPos) (ha : Accounted K dev)
    (hstep : h.Steps .charDevice ev h')
    (hans : deviceAnswer K env ev fPos dev = some (pos, dev')) :
    Charged K (events ++ [ev]) h'.pc pos := by
  cases hstep with
  | @opens ok hpc =>
      cases hans
      rw [hpc] at hc
      have hzero := hc.fresh rfl
      subst hzero
      cases ok <;> exact hc.next rfl rfl rfl rfl
  | @recvFits chunk hpc _ _ _ =>
      obtain ⟨hunsent, hsetup⟩ := accept_unsent .charDevice h chunk
      exact hc.idle hpc hans trivial hunsent (by rw [hsetup]; rfl)
  | @grows chunk answer junk p heap hpc _ _ =>
      obtain ⟨hunsent, hsetup⟩ :=
        accept_unsent .charDevice { h with dataBuffer := p, heap := heap } chunk
      exact hc.idle hpc hans trivial hunsent (by rw [hsetup]; rfl)
  | @ioctls request ok hpc =>
      rw [hpc] at hc
      exact hc.ioctl ha hans
  | @appends apc apc' _ hpc hev =>
      have hpos : pos = fPos := by
        rcases deviceAnswer_cases hans with ⟨_, _, _, _, hpos, _⟩ | ⟨hother, _⟩
        · exact hpos
        · rcases appendPacket_event hev with ⟨ok, rfl⟩ | ⟨bytes, result, rfl⟩ | rfl
          · exact (deviceAnswer_private hans trivial).1
          · exact absurd rfl (hother bytes result)
          · exact (deviceAnswer_private hans trivial).1
      subst hpos
      rw [hpc] at hc
      rcases appendPacket_event hev with ⟨ok, rfl⟩ | ⟨bytes, result, rfl⟩ | rfl <;>
        exact hc.next rfl rfl rfl rfl
  | @replies site rpc rpc' _ hpc hev =>
      rcases writeToClient_event hev with ⟨result, rfl⟩ | ⟨bytes, sent, rfl⟩
      · cases rpc with
        | read =>
            rw [hpc] at hc
            exact hc.read ha hev hans
        | send chunk => cases hev
        | returned ok => cases hev
      · cases rpc with
        | read => cases hev
        | send chunk =>
            rw [writeToClient, Option.ite_none_right_eq_some, Option.some.injEq] at hev
            obtain ⟨rfl, rfl⟩ := hev
            refine hc.idle hpc hans trivial ?_ rfl
            split_ifs <;> exact List.append_nil _
        | returned ok => cases hev
  | @appendReturns ok hpc => cases ok <;> exact hc.idle hpc hans trivial rfl rfl
  | @unlocks ok hpc => cases ok <;> exact hc.idle hpc hans trivial rfl rfl
  | @remallocs site answer junk hpc _ => cases site <;> exact hc.idle hpc hans trivial rfl rfl
  | @replyReturns site ok hpc =>
      cases ok <;> cases site <;> exact hc.idle hpc hans trivial rfl rfl
  | @abortCloses allocated hpc => cases allocated <;> exact hc.idle hpc hans trivial rfl rfl
  | mallocFails hpc | mallocs hpc _ | recvEnds hpc | recvGrows hpc _ _ _ | growFails hpc _
  | locks hpc | resets hpc | remallocFails hpc | closesDevice hpc | freesLast hpc
  | closesClient hpc | abortFrees hpc | setsDone hpc => exact hc.idle hpc hans trivial rfl rfl

end charged

/-! ### Runs -/

section runs

variable {K : KernelLimits} {s : Aesdsocket} {steps : List ServerStep}

/-- The reads are charged along every run.
Source: `handler.c`, `handle_connection`; `main.c`, the file operations
Kind: L -/
theorem charged_of_run (hrun : serverRun K steps = some s) (i : ℕ) :
    Charged K (eventsOf i steps) (s.conns i).pc (s.fPos i) := by
  refine run_induction (P := fun steps s => Charged K (eventsOf i steps) (s.conns i).pc (s.fPos i))
    ?_ ?_ hrun
  · exact ⟨le_rfl, Int.natCast_nonneg _, fun _ => rfl, le_rfl, by simp [eventsOf, sentBy,
      Aesdsocket.start, Handler.start, Pc.unsent]⟩
  · intro steps s t s' hrun' hc hstep
    by_cases hi : t.conn = i
    · subst hi
      obtain ⟨hsteps, hans⟩ := Aesdsocket.step_self hstep
      rw [eventsOf_concat_self]
      exact hc.step (kept_of_run hrun').represents.toAccounted hsteps hans
    · obtain ⟨hconn, hpos⟩ := Aesdsocket.step_other hstep hi
      rw [eventsOf_concat_of_ne steps hi, hconn, hpos]
      exact hc

/-- What is fetched is received from the client or delivered by the device.
Source: `handler.c`, `handle_connection`
Kind: L -/
theorem countP_fetches (events : List Event) : events.countP Event.fetches =
    events.countP Event.receives + events.countP Event.delivers := by
  induction events with
  | nil => rfl
  | cons ev events ih =>
      have hone : ev.fetches.toNat = ev.receives.toNat + ev.delivers.toNat := by
        rcases ev with _ | _ | _ | _ | (_ | _) | _ | (_ | (_ | _)) | _ | _ | _ | _ | _ | _ | _ | _ | _ |
          _ | _ <;> rfl
      have hcons : ∀ p : Event → Bool, (ev :: events).countP p = events.countP p + (p ev).toNat := by
        intro p
        rw [List.countP_cons]
        cases p ev <;> rfl
      rw [hcons, hcons, hcons, ih, hone]
      omega

/-- **What a connection does is bounded by what its client asks for.** In every run of the server,
through any interleaving with any number of other clients that write as they like: the bytes a
connection is sent are no more than ten entries can hold for each of its seeks and once more; and
the calls of its handler are bounded by the chunks it has received and that many reads.
Source: `handler.c`, `handle_connection` and `write_to_client`; `main.c`, `aesd_read`, `aesd_ioctl`
Kind: P -/
theorem calls_bounded (hrun : serverRun K steps = some s) (i : ℕ) :
    (sentBy (eventsOf i steps)).length ≤
        contentMax K * ((eventsOf i steps).countP Event.seeks + 1) ∧
    (eventsOf i steps).length ≤ 7 + 12 * ((eventsOf i steps).countP Event.receives +
      contentMax K * ((eventsOf i steps).countP Event.seeks + 1)) := by
  have hc := charged_of_run hrun i
  have hle := hc.le
  have hreads := hc.reads
  have hpaid := hc.sent
  have hsent : (sentBy (eventsOf i steps) ++ (s.conns i).pc.unsent).length ≤
      contentMax K * ((eventsOf i steps).countP Event.seeks + 1) := by
    rw [Nat.mul_add, Nat.mul_one]
    omega
  have hcalls := length_add_rank_le (handleConnection_of_run hrun i)
  rw [countP_fetches] at hcalls
  refine ⟨?_, by omega⟩
  rw [List.length_append] at hsent
  omega

end runs

/-- A connection that has sent one line and was answered.
Source: `handler.c`, `write_to_client`; `main.c`, the file operations
Kind: N+ -/
theorem calls_bounded_one_line :
    ∃ s, serverRun .pages4K (firstLine ++ ⟨0, .undisturbed, .write [97, 10] (some 2)⟩ ::
        reply 0 [97, 10] [97, 10]) = some s ∧
      (sentBy (eventsOf 0 (firstLine ++ ⟨0, .undisturbed, .write [97, 10] (some 2)⟩ ::
        reply 0 [97, 10] [97, 10]))).length ≤ contentMax .pages4K := by
  obtain ⟨s, hs⟩ := Option.isSome_iff_exists.mp (show (serverRun .pages4K (firstLine ++
    ⟨0, .undisturbed, .write [97, 10] (some 2)⟩ :: reply 0 [97, 10] [97, 10])).isSome = true by
      decide +kernel)
  exact ⟨s, hs, (calls_bounded hs 0).1⟩

end Aesd.Server
