import Aesd.Lib.Table
import Aesd.Server.DataFile
import Aesd.Server.Lifetime
import Aesd.Server.Resources

/-!
# The descriptors of the process

All threads of the process share one table of descriptors, and a number that one thread closes may
be given to another by the next `open` or `accept`. A descriptor that is closed twice, or used after
it was closed, is then another thread's. This module runs `main`, the connection handlers and
`alarm_handler` over such a table, which gives out any number that is free:

* `Holder` — for what a descriptor is open, and `Process.has` the number that the code has for it
  in its variables;
* `Process.call` — the calls on descriptors; one with a number that is not open, or open for
  something else, is recorded as a misuse;
* `descriptors_held` — in every interleaving nothing is misused, and the descriptors open are exactly
  those that the places of `main`, the handlers and the timer say.
-/

namespace Aesd.Server

open Aesd.Lib Aesd.Driver

/-! ### Who holds a descriptor -/

/-- The descriptors of a connection handler: its client's socket, the one it reads from, and the one
of `append_packet`.
Source: `aesdsocket.c`, `main`; `handler.c`, `handle_connection`
Kind: D -/
inductive Slot where
  | client
  | device
  | append
  deriving DecidableEq

/-- What a descriptor is open for.
Source: `aesdsocket.c`, `main`; `handler.c`, `handle_connection`
Kind: D -/
inductive Holder where
  /-- `sockfd` -/
  | listening
  /-- `clfd` of `main`, until a thread is created for it -/
  | accepted
  | thread (tid : ℕ) (slot : Slot)
  /-- `fd` of an activation of `alarm_handler` -/
  | alarm (k : ℕ)
  deriving DecidableEq

/-- The descriptor is open at a place of the handler.
Source: `aesdsocket.c`, `main`; `handler.c`, `handle_connection`
Kind: D -/
def Holdings.get (held : Holdings) : Slot → Bool
  | .client => held.client
  | .device => held.device
  | .append => held.append

/-- The listening socket is open at these places of `main`.
Source: `aesdsocket.c`, `main`
Kind: D -/
def MainPc.listens : MainPc → Bool
  | .destroyMutex | .unlink | .returned => false
  | _ => true

/-- The descriptor that `main` has accepted and given to no thread.
Source: `aesdsocket.c`, `main`
Kind: D -/
def MainPc.accepted : MainPc → Option ℕ
  | .malloc clfd | .insertHead clfd _ | .create clfd _ | .rollback clfd _ | .rollbackFree clfd _
  | .closeClient clfd => some clfd
  | _ => none

/-- The file is open at these places of `alarm_handler`.
Source: `aesdsocket.c`, `alarm_handler`; `handler.c`, `handle_connection`
Kind: D -/
def AlarmPc.fileOpen : AlarmPc → Bool
  | .dprintf | .close => true
  | _ => false

/-- The process: its threads, the activations of `alarm_handler`, the variables that hold the
numbers of `sockfd` and of the files opened, and the table of descriptors.
Source: `aesdsocket.c`, `main`; `handler.c`, `handle_connection`
Kind: D -/
structure Process where
  main : MainState
  alarms : ℕ → AlarmPc
  var : Holder → ℕ
  table : ℕ → Option Holder
  misused : Bool

/-- The accept loop is about to begin, with the listening socket open.
Source: `aesdsocket.c`, `main`; `handler.c`, `handle_connection`
Kind: D -/
def Process.start (sockfd : ℕ) : Process where
  main := .start
  alarms := fun _ => .lock
  var := fun _ => sockfd
  table := Function.update (fun _ => none) sockfd (some .listening)
  misused := false

/-- `conn_info->clfd` of a thread.
Source: `aesdsocket.c`, `main`; `handler.c`, `handle_connection`
Kind: D -/
def Process.clfd (s : Process) (tid : ℕ) : ℕ :=
  ((s.main.threads tid).bind fun th => s.main.store.val? th.connInfo).elim 0 ConnNode.clfd

/-- The number that the code has for a holder's descriptor.
Source: `aesdsocket.c`, `main`; `handler.c`, `handle_connection`
Kind: D -/
def Process.number (s : Process) : Holder → ℕ
  | .accepted => s.main.pc.accepted.getD 0
  | .thread tid .client => s.clfd tid
  | k => s.var k

/-- The holder's descriptor is to be open.
Source: `aesdsocket.c`, `alarm_handler`
Kind: D -/
def Process.holds (build : Build) (s : Process) : Holder → Bool
  | .listening => s.main.pc.listens
  | .accepted => s.main.pc.accepted.isSome
  | .thread tid slot => (s.main.threads tid).any fun th => (th.handler.pc.holdings build).get slot
  | .alarm k => (s.alarms k).fileOpen

/-- The number a holder has, when its descriptor is to be open.
Source: `aesdsocket.c`, `main`; `handler.c`, `handle_connection`
Kind: D -/
def Process.has (build : Build) (s : Process) (k : Holder) : Option ℕ :=
  if s.holds build k then some (s.number k) else none

/-! ### The calls -/

/-- A call on a descriptor; `hands` is `pthread_create`, which makes the thread answerable for the
client's socket.
Source: `aesdsocket.c`, `main`; `handler.c`, `handle_connection`
Kind: D -/
inductive FdCall where
  | opens (k : Holder) (fd : ℕ)
  | closes (k : Holder)
  | uses (k : Holder)
  | hands (j k : Holder)

/-- The calls of a connection handler; `fd` is the number that a successful `open` returns.
Source: `handler.c`, `handle_connection`, `append_packet` and `write_to_client`
Kind: D -/
def Event.fdCall (tid fd : ℕ) : Event → Option FdCall
  | .openDevice true => some (.opens (.thread tid .device) fd)
  | .closeDevice => some (.closes (.thread tid .device))
  | .openAppend true => some (.opens (.thread tid .append) fd)
  | .closeAppend => some (.closes (.thread tid .append))
  | .closeClient => some (.closes (.thread tid .client))
  | .recv _ | .send _ _ => some (.uses (.thread tid .client))
  | .read _ | .ioctl _ _ => some (.uses (.thread tid .device))
  | .write _ _ => some (.uses (.thread tid .append))
  | _ => none

/-- The calls of `main`. An `accept` that succeeds uses the listening socket and opens another.
Source: `aesdsocket.c`, `main`
Kind: D -/
def MainState.fdCalls (s : MainState) : MainEvent → List FdCall
  | .accept (.ok clfd) => [.uses .listening, .opens .accepted clfd]
  | .accept (.error _) => [.uses .listening]
  | .create true => [.hands .accepted (.thread s.nextThread .client)]
  | .goOn =>
      match s.pc with
      | .closeClient _ => [.closes .accepted]
      | .closeSocket => [.closes .listening]
      | _ => []
  | _ => []

/-- The calls of `alarm_handler`.
Source: `aesdsocket.c`, `alarm_handler`
Kind: D -/
def AlarmEvent.fdCall (k fd : ℕ) : AlarmEvent → Option FdCall
  | .openAppend true => some (.opens (.alarm k) fd)
  | .dprintf _ _ => some (.uses (.alarm k))
  | .close => some (.closes (.alarm k))
  | _ => none

/-- What a call does to the table. The kernel gives out only numbers that are free; a call with a
number that is not open for its purpose is a misuse.
Source: `aesdsocket.c`, `main`; `handler.c`, `handle_connection`
Kind: D -/
def Process.call (s : Process) : FdCall → Option Process
  | .opens k fd =>
      if s.table fd = none then
        some { s with
          table := Function.update s.table fd (some k), var := Function.update s.var k fd }
      else none
  | .closes k =>
      some (if s.table (s.number k) = some k then
          { s with table := Function.update s.table (s.number k) none }
        else { s with misused := true })
  | .uses k => some (if s.table (s.number k) = some k then s else { s with misused := true })
  | .hands j k =>
      some (if s.table (s.number j) = some j then
          { s with table := Function.update s.table (s.number j) (some k) }
        else { s with misused := true })

/-- A step of `main`, of a thread or a signal, or one of `alarm_handler`, with the number that a
successful `open` in it returns.
Source: `aesdsocket.c`, `main`; `handler.c`, `handle_connection`
Kind: D -/
inductive ProcessStep where
  | main (t : MainStep) (fd : ℕ)
  | alarm (k : ℕ) (ev : AlarmEvent) (fd : ℕ)

/-- The calls on descriptors that a step of the threads makes.
Source: `aesdsocket.c`, `main`
Kind: D -/
def Process.calls (s : Process) (fd : ℕ) : MainStep → List FdCall
  | .main ev => s.main.fdCalls ev
  | .signal => []
  | .handler tid ev => (ev.fdCall tid fd).toList

/-- A step of the process. In the build for the device there is no `alarm_handler`.
Source: `aesdsocket.c` and `handler.c`, the calls on descriptors
Kind: D -/
def Process.step (build : Build) (s : Process) : ProcessStep → Option Process
  | .main t fd =>
      (s.main.step build t).bind fun m =>
        ((s.calls fd t).foldlM Process.call s).map fun s' => { s' with main := m }
  | .alarm k ev fd =>
      if build = .charDevice then none
      else
        (alarmHandler (s.alarms k) ev).bind fun pc =>
          ((ev.fdCall k fd).toList.foldlM Process.call s).map fun s' =>
            { s' with alarms := Function.update s'.alarms k pc }

/-- The number of the descriptor is in a variable of its own.
Source: `aesdsocket.c`, `main`; `handler.c`, `handle_connection`
Kind: D -/
def Holder.stored : Holder → Bool
  | .accepted | .thread _ .client => false
  | _ => true

/-- A call on one of some descriptors, which are to be open as `held` says before it and as `held'`
says after it.
Source: `aesdsocket.c`, `main`; `handler.c`, `handle_connection`
Kind: D -/
inductive CallOn {κ : Type} (on : κ → Holder) (fd : ℕ) (held held' : κ → Bool) :
    Option FdCall → Prop where
  | idles (hsame : ∀ i, held' i = held i) : CallOn on fd held held' none
  | uses {i : κ} (hopen : held i = true) (hsame : ∀ i, held' i = held i) :
      CallOn on fd held held' (some (.uses (on i)))
  | opens {i : κ} (hstored : (on i).stored = true) (hshut : held i = false)
      (hopen : held' i = true) (hother : ∀ j, j ≠ i → held' j = held j) :
      CallOn on fd held held' (some (.opens (on i) fd))
  | closes {i : κ} (hopen : held i = true) (hshut : held' i = false)
      (hother : ∀ j, j ≠ i → held' j = held j) :
      CallOn on fd held held' (some (.closes (on i)))

/-- A step of `main` and what it does with descriptors: the cases in which it does something, and
all the others.
Source: `aesdsocket.c`, `main`
Kind: D -/
inductive MainState.FdSteps (s : MainState) : MainEvent → MainState → Prop where
  | idles {ev : MainEvent} {s' : MainState} (hcalls : s.fdCalls ev = [])
      (hlistens : s'.pc.listens = s.pc.listens) (haccepted : s'.pc.accepted = s.pc.accepted)
      (hthreads : s'.threads = s.threads) : FdSteps s ev s'
  | refuses {eintr : Bool} (hpc : s.pc = .accept) :
      FdSteps s (.accept (.error eintr)) { s with pc := .acceptFailed eintr }
  | accepts {clfd : ℕ} (hpc : s.pc = .accept) :
      FdSteps s (.accept (.ok clfd)) { s with pc := .malloc clfd }
  | closesClient {clfd : ℕ} (hpc : s.pc = .closeClient clfd) : FdSteps s .goOn { s with pc := .loop }
  | closesSocket {pc' : MainPc} (hpc : s.pc = .closeSocket) (hlistens : pc'.listens = false)
      (haccepted : pc'.accepted = none) : FdSteps s .goOn { s with pc := pc' }
  | creates {clfd node : ℕ} {c : Cell ConnNode} (hpc : s.pc = .create clfd node)
      (hc : s.store node = some c) :
      FdSteps s (.create true) ((s.newThread node c).enterReap .inLoop)

section steps

variable {build : Build} {h h' : Handler} {ev : Event} {tid fd : ℕ}

/-- A call that opens and closes nothing.
Source: `aesdsocket.c`, `main`; `handler.c`, `handle_connection`
Kind: L -/
theorem CallOn.of_eq {κ : Type} {on : κ → Holder} {held held' : κ → Bool} (hsame : held' = held) :
    CallOn on fd held held' none := .idles fun _ => by rw [hsame]

/-- The calls of `append_packet`.
Source: `handler.c`, `handle_connection` and `append_packet`
Kind: L -/
theorem callOn_appendPacket {buf : List UInt8} {pc pc' : AppendPc}
    (hev : appendPacket buf pc ev = some pc') :
    CallOn (.thread tid) fd ((Pc.append pc).holdings build).get ((Pc.append pc').holdings build).get
      (ev.fdCall tid fd) := by
  unfold appendPacket at hev
  split at hev
  · rename_i ok
    cases hev
    cases ok with
    | false => exact .of_eq rfl
    | true =>
        refine .opens (i := Slot.append) rfl rfl rfl ?_
        rintro (_ | _ | _) hj
        exacts [rfl, rfl, absurd rfl hj]
  · rw [Option.ite_none_right_eq_some] at hev
    cases hev.2
    exact .uses (i := Slot.append) rfl fun j => by cases j <;> rfl
  · cases hev
    refine .closes (i := Slot.append) rfl rfl ?_
    rintro (_ | _ | _) hj
    exacts [rfl, rfl, absurd rfl hj]
  · cases hev

/-- **Every call of a handler on a descriptor is one with a descriptor that it is to have open.**
Source: `handler.c`, `handle_connection`
Kind: L -/
theorem Handler.Steps.callOn (hstep : h.Steps build ev h') (tid fd : ℕ) :
    CallOn (.thread tid) fd (h.pc.holdings build).get (h'.pc.holdings build).get
      (ev.fdCall tid fd) := by
  cases hstep with
  | @opens ok hpc =>
      rw [hpc]
      cases ok with
      | false => exact .of_eq rfl
      | true =>
          refine .opens (i := Slot.device) rfl rfl rfl ?_
          rintro (_ | _ | _) hj
          exacts [rfl, absurd rfl hj, rfl]
  | recvEnds hpc | recvGrows hpc _ _ _ =>
      rw [hpc]
      exact .uses (i := Slot.client) rfl fun j => rfl
  | recvFits hpc _ _ _ =>
      rw [Handler.holdings_accept, hpc]
      exact .uses (i := Slot.client) rfl fun j => rfl
  | grows hpc _ _ =>
      rw [Handler.holdings_accept, hpc]
      exact .of_eq rfl
  | @ioctls request ok hpc =>
      rw [hpc]
      cases ok <;> exact .uses (i := Slot.device) rfl fun j => rfl
  | appends hpc hev =>
      rw [hpc]
      exact callOn_appendPacket hev
  | @appendReturns ok hpc =>
      rw [hpc]
      cases build <;> cases ok <;> exact .of_eq rfl
  | replies hpc hev =>
      rw [hpc]
      rcases writeToClient_event hev with ⟨result, rfl⟩ | ⟨bytes, sent, rfl⟩
      · exact .uses (i := Slot.device) rfl fun j => rfl
      · exact .uses (i := Slot.client) rfl fun j => rfl
  | @remallocs site answer junk hpc _ =>
      rw [hpc]
      cases site <;> exact .of_eq rfl
  | @replyReturns site ok hpc =>
      rw [hpc]
      cases site <;> cases ok <;> exact .of_eq rfl
  | closesDevice hpc =>
      rw [hpc]
      refine .closes (i := Slot.device) rfl rfl ?_
      rintro (_ | _ | _) hj
      exacts [rfl, absurd rfl hj, rfl]
  | closesClient hpc =>
      rw [hpc]
      refine .closes (i := Slot.client) rfl rfl ?_
      rintro (_ | _ | _) hj
      exacts [absurd rfl hj, rfl, rfl]
  | @abortCloses allocated hpc =>
      rw [hpc]
      refine .closes (i := Slot.client) rfl (by cases allocated <;> rfl) ?_
      rintro (_ | _ | _) hj
      exacts [absurd rfl hj, by cases allocated <;> rfl, by cases allocated <;> rfl]
  | @unlocks ok hpc =>
      rw [hpc]
      cases ok <;> exact .idles fun j => by cases j <;> rfl
  | locks hpc | abortFrees hpc | setsDone hpc =>
      rw [hpc]
      exact .idles fun j => by cases j <;> rfl
  | mallocFails hpc | mallocs hpc _ | growFails hpc _ | resets hpc | remallocFails hpc
  | freesLast hpc =>
      rw [hpc]
      exact .of_eq rfl

variable {s s' : MainState} {t : MainStep} {l : List ℕ}

end steps

/-! ### The table and the code agree -/

/-- The node that is being set up and the descriptor it is for.
Source: `aesdsocket.c`, `main`
Kind: D -/
def MainPc.newNode : MainPc → Option (ℕ × ℕ)
  | .insertHead clfd node | .create clfd node => some (clfd, node)
  | _ => none

/-- The node that is being set up has the descriptor that was accepted.
Source: `aesdsocket.c`, `main`
Kind: D -/
def MainState.SetUp (s : MainState) : Prop :=
  ∀ clfd node, s.pc.newNode = some (clfd, node) →
    ∃ n, s.store.val? node = some n ∧ n.clfd = clfd

/-- The descriptors open are those the code has, and none was misused.
Source: `aesdsocket.c`, `main`; `handler.c`, `handle_connection`
Kind: D -/
structure Held (build : Build) (s : Process) : Prop where
  assigns : Assigns s.table (s.has build)
  proper : s.misused = false
  setUp : s.main.SetUp

section held

variable {build : Build} {s s' : Process} {k : Holder} {t : MainStep} {l : List ℕ} {m : MainState}

/-- Every step leaves the node that is being set up with its descriptor.
Source: `aesdsocket.c`, `main`
Kind: L -/
theorem MainState.SetUp.step {s s' : MainState} (hset : s.SetUp) (hstep : s.Steps build t s')
    (hsafe : ¬ s.Dangling t) : s'.SetUp := by
  have hnone : s'.pc.newNode = none → s'.SetUp := by
    intro hnew clfd node hpc
    rw [hnew] at hpc
    cases hpc
  cases hstep with
  | faults hbad => exact absurd hbad hsafe
  | @moves _ pc' _ hidle _ =>
      apply hnone
      cases pc' <;> first | rfl | cases hidle
  | mallocs _ =>
      intro clfd node hpc
      cases hpc
      exact ⟨_, Store.val?_update_self _ _ _, rfl⟩
  | @inserts _ clfd node store head hpc hop =>
      rintro clfd' node' ⟨⟩
      obtain ⟨n, hn, hclfd⟩ := hset clfd node (by rw [hpc]; rfl)
      exact ⟨n, (congrFun (Store.val?_of_insertHead hop) node).trans hn, hclfd⟩
  | signals => exact hset
  | @handles tid ev th h c hth hh hc =>
      intro clfd node hpc
      obtain ⟨n, hn, hclfd⟩ := hset clfd node hpc
      by_cases hnode : node = th.connInfo
      · subst hnode
        rw [Store.val?, hc, Option.map_some, Option.some.injEq] at hn
        refine ⟨ev.mark c.val, Store.val?_update_self _ _ _, ?_⟩
        rw [← hclfd, ← hn]
        cases ev <;> rfl
      · exact ⟨n, (Store.val?_update_of_ne _ hnode _).trans hn, hclfd⟩
  | @leaves _ site _ _ => cases site <;> exact hnone rfl
  | _ => exact hnone rfl

/-! #### Calls with the right descriptor -/

/-- A place that holds a descriptor has its number.
Source: `aesdsocket.c`, `main`; `handler.c`, `handle_connection`
Kind: L -/
theorem Process.has_of_holds (hk : s.holds build k = true) :
    s.has build k = some (s.number k) := if_pos hk

/-- Another place has none.
Source: `aesdsocket.c`, `main`; `handler.c`, `handle_connection`
Kind: L -/
theorem Process.has_of_not_holds (hk : s.holds build k = false) : s.has build k = none := by
  rw [has, hk]
  rfl

/-- A held descriptor can be used.
Source: `aesdsocket.c`, `main`; `handler.c`, `handle_connection`
Kind: L -/
theorem Held.call_uses (hh : Held build s) (hk : s.holds build k = true) :
    s.call (.uses k) = some s := by
  rw [Process.call, if_pos ((hh.assigns _ _).mpr (Process.has_of_holds hk))]

/-- A held descriptor can be closed.
Source: `aesdsocket.c`, `main`; `handler.c`, `handle_connection`
Kind: L -/
theorem Held.call_closes (hh : Held build s) (hk : s.holds build k = true) :
    s.call (.closes k) = some { s with table := Function.update s.table (s.number k) none } := by
  rw [Process.call, if_pos ((hh.assigns _ _).mpr (Process.has_of_holds hk))]

/-- A held descriptor can be handed on.
Source: `aesdsocket.c`, `main`; `handler.c`, `handle_connection`
Kind: L -/
theorem Held.call_hands (hh : Held build s) {j : Holder} (hj : s.holds build j = true) :
    s.call (.hands j k) = some { s with table := Function.update s.table (s.number j) (some k) } := by
  rw [Process.call, if_pos ((hh.assigns _ _).mpr (Process.has_of_holds hj))]

/-- A descriptor is opened with a number that is free.
Source: `aesdsocket.c`, `main`; `handler.c`, `handle_connection`
Kind: L -/
theorem Process.call_opens {fd : ℕ} (hcall : s.call (.opens k fd) = some s') :
    s.table fd = none ∧ s' = { s with
      table := Function.update s.table fd (some k), var := Function.update s.var k fd } := by
  rw [Process.call, Option.ite_none_right_eq_some, Option.some.injEq] at hcall
  exact ⟨hcall.1, hcall.2.symm⟩

/-! #### What a step leaves alone -/

/-- The clients' sockets are the same for all threads that have theirs in both states.
Source: `aesdsocket.c`, `main`; `handler.c`, `handle_connection`
Kind: D -/
def Process.SameClients (build : Build) (s s' : Process) : Prop :=
  ∀ tid, s.holds build (.thread tid .client) = true →
    s'.holds build (.thread tid .client) = true → s'.clfd tid = s.clfd tid

/-- A holder that is not `main` has what it had, if it has a descriptor as before.
Source: `aesdsocket.c`, `main`; `handler.c`, `handle_connection`
Kind: L -/
theorem Process.has_eq (hclients : s.SameClients build s')
    (hholds : s'.holds build k = s.holds build k) (hvar : s'.var k = s.var k)
    (haccepted : s'.main.pc.accepted = s.main.pc.accepted ∨ k ≠ .accepted) :
    s'.has build k = s.has build k := by
  rw [has, has, hholds]
  by_cases hk : s.holds build k = true
  · have hnumber : s'.number k = s.number k := by
      cases k with
      | accepted =>
          rw [number, number, haccepted.resolve_right (fun h => h rfl)]
      | thread tid slot =>
          cases slot with
          | client => exact hclients tid hk (hholds.trans hk)
          | device => exact hvar
          | append => exact hvar
      | listening => exact hvar
      | alarm k => exact hvar
    rw [hnumber]
  · rw [if_neg hk, if_neg hk]

/-- The number in the node of a thread that has not finished.
Source: `aesdsocket.c`, `main`
Kind: L -/
theorem Process.clfd_of_node {tid : ℕ} {th : Thread} {n : ConnNode}
    (hth : s.main.threads tid = some th) (hn : s.main.store.val? th.connInfo = some n) :
    s.clfd tid = n.clfd := by
  rw [clfd, hth, Option.bind_some, hn]
  rfl

/-- The thread that `pthread_create` makes takes over the socket that was accepted.
Source: `aesdsocket.c`, `main` and `reap_threads`
Kind: L -/
theorem Held.create {clfd node : ℕ} {c : Cell ConnNode} (hh : Held build s)
    (hpc : s.main.pc = .create clfd node) (hc : s.main.store node = some c)
    (hnew : s.main.threads s.main.nextThread = none)
    (hm : m = (s.main.newThread node c).enterReap .inLoop)
    (hclients : ∀ s' : Process, s'.main = m → s.SameClients build s') :
    Assigns (Function.update s.table (s.number .accepted)
      (some (.thread s.main.nextThread .client))) (Process.has build { s with main := m }) := by
  have haccepted : s.has build .accepted = some (s.number .accepted) := by
    apply Process.has_of_holds
    rw [Process.holds, hpc]
    rfl
  have hbefore : ∀ slot, s.has build (.thread s.main.nextThread slot) = none := by
    intro slot
    apply Process.has_of_not_holds
    rw [Process.holds, hnew]
    rfl
  have hthread : m.threads s.main.nextThread = some ⟨node, .start⟩ := by
    rw [hm]
    exact Function.update_self _ _ _
  have hnumber : s.number .accepted = clfd := by
    rw [Process.number, hpc]
    rfl
  refine hh.assigns.hand (by simp) haccepted (hbefore .client) ?_ ?_ ?_
  · apply Process.has_of_not_holds
    rw [Process.holds, hm]
    rfl
  · -- the node has the number that was accepted
    obtain ⟨n, hn, hclfd⟩ := hh.setUp clfd node (by rw [hpc]; rfl)
    rw [Store.val?, hc, Option.map_some, Option.some.injEq] at hn
    obtain ⟨n', hn', hsame⟩ : ∃ n', m.store.val? node = some n' ∧ n'.clfd = c.val.clfd := by
      rw [hm]
      exact ⟨_, Store.val?_update_self _ _ _, rfl⟩
    have hheld : ({ s with main := m } : Process).holds build
        (.thread s.main.nextThread .client) = true := by
      rw [Process.holds, hthread]
      rfl
    have hclient : ({ s with main := m } : Process).number (.thread s.main.nextThread .client) =
        n'.clfd := Process.clfd_of_node hthread hn'
    rw [Process.has_of_holds hheld, hclient, hnumber, hsame, hn, hclfd]
  · intro i hacc hi
    cases i with
    | accepted => exact absurd rfl hacc
    | listening =>
        refine Process.has_eq (hclients _ rfl) ?_ rfl (Or.inr hacc)
        rw [Process.holds, Process.holds, hm, hpc]
        rfl
    | alarm k => exact Process.has_eq (hclients _ rfl) rfl rfl (Or.inr hacc)
    | thread tid slot =>
        by_cases htid : tid = s.main.nextThread
        · subst htid
          rw [hbefore]
          apply Process.has_of_not_holds
          rw [Process.holds, hthread]
          cases slot with
          | client => exact absurd rfl hi
          | device => rfl
          | append => rfl
        · refine Process.has_eq (hclients _ rfl) ?_ rfl (Or.inr hacc)
          have hkept : m.threads tid = s.main.threads tid := by
            rw [hm]
            exact Function.update_of_ne htid _ _
          rw [Process.holds, Process.holds, hkept]

/-- **A step of `main`.**
Source: `aesdsocket.c`, `main`
Kind: P -/
theorem Held.mainStep {ev : MainEvent} {s₁ : Process} (hh : Held build s)
    (hfd : s.main.FdSteps ev m) (hnew : s.main.threads s.main.nextThread = none)
    (hclients : ∀ s' : Process, s'.main = m → s.SameClients build s')
    (hcalls : (s.main.fdCalls ev).foldlM Process.call s = some s₁) :
    Assigns s₁.table (Process.has build { s₁ with main := m }) ∧ s₁.misused = false := by
  -- what `main` does not touch
  have hothers : ∀ (s' : Process) (k : Holder), s'.main = m → m.threads = s.main.threads →
      s'.alarms = s.alarms → s'.var k = s.var k → k ≠ .listening → k ≠ .accepted →
      s'.has build k = s.has build k := by
    intro s' k hmain hthreads halarms hvar hk hacc
    refine Process.has_eq (hclients s' hmain) ?_ hvar (Or.inr hacc)
    cases k with
    | listening => exact absurd rfl hk
    | accepted => exact absurd rfl hacc
    | thread tid slot => rw [Process.holds, Process.holds, hmain, hthreads]
    | alarm k => rw [Process.holds, Process.holds, halarms]
  cases hfd with
  | idles hnone hlistens haccepted hthreads =>
      rw [hnone] at hcalls
      cases hcalls
      refine ⟨hh.assigns.congr fun k => ?_, hh.proper⟩
      refine Process.has_eq (hclients _ rfl) ?_ rfl (Or.inl haccepted)
      cases k with
      | listening => exact hlistens
      | accepted => exact congrArg Option.isSome haccepted
      | thread tid slot => rw [Process.holds, Process.holds, hthreads]
      | alarm k => rfl
  | refuses hpc =>
      have huses := hh.call_uses (k := .listening) (by rw [Process.holds, hpc]; rfl)
      rw [MainState.fdCalls, List.foldlM_cons, huses] at hcalls
      cases hcalls
      refine ⟨hh.assigns.congr fun k => ?_, hh.proper⟩
      refine Process.has_eq (hclients _ rfl) ?_ rfl (Or.inl (by rw [hpc]; rfl))
      cases k with
      | listening => rw [Process.holds, Process.holds, hpc]; rfl
      | accepted => rw [Process.holds, Process.holds, hpc]; rfl
      | thread tid slot => rfl
      | alarm k => rfl
  | @accepts clfd hpc =>
      have huses := hh.call_uses (k := .listening) (by rw [Process.holds, hpc]; rfl)
      rw [MainState.fdCalls, List.foldlM_cons, huses] at hcalls
      obtain ⟨hfree, rfl⟩ := Process.call_opens (by simpa using hcalls)
      refine ⟨hh.assigns.take hfree ?_ rfl fun k hk => ?_, hh.proper⟩
      · apply Process.has_of_not_holds
        rw [Process.holds, hpc]
        rfl
      · by_cases hlist : k = .listening
        · subst hlist
          refine Process.has_eq (hclients _ rfl) ?_ (Function.update_of_ne hk clfd s.var) (Or.inr hk)
          rw [Process.holds, Process.holds, hpc]
          rfl
        · exact hothers _ k rfl rfl rfl (Function.update_of_ne hk _ _) hlist hk
  | closesClient hpc =>
      have hheld : s.holds build .accepted = true := by
        rw [Process.holds, hpc]
        rfl
      have hcloses := hh.call_closes hheld
      rw [MainState.fdCalls, hpc, List.foldlM_cons, hcloses] at hcalls
      cases hcalls
      refine ⟨hh.assigns.giveBack (Process.has_of_holds hheld) rfl fun k hk => ?_, hh.proper⟩
      by_cases hlist : k = .listening
      · subst hlist
        refine Process.has_eq (hclients _ rfl) ?_ rfl (Or.inr hk)
        rw [Process.holds, Process.holds, hpc]
        rfl
      · exact hothers _ k rfl rfl rfl rfl hlist hk
  | closesSocket hpc hlistens haccepted =>
      have hheld : s.holds build .listening = true := by
        rw [Process.holds, hpc]
        rfl
      have hcloses := hh.call_closes hheld
      rw [MainState.fdCalls, hpc, List.foldlM_cons, hcloses] at hcalls
      cases hcalls
      refine ⟨hh.assigns.giveBack (Process.has_of_holds hheld) ?_ fun k hk => ?_, hh.proper⟩
      · exact Process.has_of_not_holds hlistens
      · by_cases hacc : k = .accepted
        · subst hacc
          rw [Process.has_of_not_holds, Process.has_of_not_holds]
          · rw [Process.holds, hpc]
            rfl
          · exact congrArg Option.isSome haccepted
        · exact hothers _ k rfl rfl rfl rfl hk hacc
  | creates hpc hc =>
      have hhands := hh.call_hands (j := .accepted) (k := .thread s.main.nextThread .client)
        (by rw [Process.holds, hpc]; rfl)
      rw [MainState.fdCalls, List.foldlM_cons, hhands] at hcalls
      cases hcalls
      exact ⟨hh.create hpc hc hnew rfl hclients, hh.proper⟩

/-- A call touches neither a thread nor an activation of `alarm_handler`.
Source: `aesdsocket.c`, `alarm_handler`
Kind: L -/
theorem Process.call_frame {call : FdCall} (hcall : s.call call = some s') :
    s'.main = s.main ∧ s'.alarms = s.alarms := by
  cases call with
  | opens k fd =>
      obtain ⟨-, rfl⟩ := call_opens hcall
      exact ⟨rfl, rfl⟩
  | closes k | uses k | hands j k =>
      rw [Process.call, Option.some.injEq] at hcall
      subst hcall
      split_ifs <;> exact ⟨rfl, rfl⟩

/-- A call on descriptors moves nobody.
Source: `aesdsocket.c`, `alarm_handler`
Kind: L -/
theorem Process.calls_frame {call : Option FdCall}
    (hcalls : call.toList.foldlM Process.call s = some s') :
    s'.main = s.main ∧ s'.alarms = s.alarms := by
  cases call with
  | none =>
      cases hcalls
      exact ⟨rfl, rfl⟩
  | some call => exact call_frame (by simpa using hcalls)

/-- **A call of a party on one of its own descriptors**, and the step of the party with it.
Source: `aesdsocket.c`, `main`; `handler.c`, `handle_connection`
Kind: P -/
theorem Held.callOn {κ : Type} {on : κ → Holder} {fd : ℕ} {held held' : κ → Bool}
    {call : Option FdCall} {s₁ : Process} (hh : Held build s) (hcall : CallOn on fd held held' call)
    (hcalls : call.toList.foldlM Process.call s = some s₁)
    (hheld : ∀ i, s.holds build (on i) = held i) (htable : s'.table = s₁.table)
    (hvar : s'.var = s₁.var) (hheld' : ∀ i, s'.holds build (on i) = held' i)
    (hother : ∀ k, (∀ i, k ≠ on i) → s'.holds build k = s.holds build k)
    (hclients : s.SameClients build s')
    (haccepted : s'.main.pc.accepted = s.main.pc.accepted) :
    Assigns s'.table (s'.has build) ∧ s₁.misused = false := by
  -- a holder whose descriptor is to be open as before
  have hkept : ∀ k, s'.var k = s.var k → (∀ i, k = on i → held' i = held i) →
      s'.has build k = s.has build k := by
    intro k hk hsame
    refine Process.has_eq hclients ?_ hk (Or.inl haccepted)
    by_cases hon : ∃ i, k = on i
    · obtain ⟨i, rfl⟩ := hon
      rw [hheld', hheld, hsame i rfl]
    · rw [not_exists] at hon
      exact hother k hon
  cases hcall with
  | idles hsame =>
      cases hcalls
      rw [htable]
      exact ⟨hh.assigns.congr fun k => hkept k (by rw [hvar]) fun i _ => hsame i, hh.proper⟩
  | @uses i hopen hsame =>
      rw [Option.toList_some, List.foldlM_cons, hh.call_uses ((hheld i).trans hopen)] at hcalls
      cases hcalls
      rw [htable]
      exact ⟨hh.assigns.congr fun k => hkept k (by rw [hvar]) fun i _ => hsame i, hh.proper⟩
  | @closes i hopen hshut hrest =>
      have hk := (hheld i).trans hopen
      rw [Option.toList_some, List.foldlM_cons, hh.call_closes hk] at hcalls
      cases hcalls
      rw [htable]
      refine ⟨hh.assigns.giveBack (Process.has_of_holds hk) ?_ fun k hne => ?_, hh.proper⟩
      · exact Process.has_of_not_holds ((hheld' i).trans hshut)
      · refine hkept k (by rw [hvar]) fun j hj => hrest j ?_
        rintro rfl
        exact hne hj
  | @opens i hstored hshut hopen hrest =>
      obtain ⟨hfree, rfl⟩ := Process.call_opens (by simpa using hcalls)
      rw [htable]
      refine ⟨hh.assigns.take hfree ?_ ?_ fun k hne => ?_, hh.proper⟩
      · exact Process.has_of_not_holds ((hheld i).trans hshut)
      · have hnumber : s'.number (on i) = s'.var (on i) := by
          generalize on i = k at hstored
          cases k with
          | accepted => cases hstored
          | thread tid slot =>
              cases slot with
              | client => cases hstored
              | device => rfl
              | append => rfl
          | listening => rfl
          | alarm k => rfl
        rw [Process.has_of_holds ((hheld' i).trans hopen), hnumber, hvar]
        exact congrArg some (Function.update_self _ _ _)
      · refine hkept k ?_ fun j hj => hrest j ?_
        · rw [hvar]
          exact Function.update_of_ne hne _ _
        · rintro rfl
          exact hne hj

/-- **A step of a handler.**
Source: `handler.c`, `handle_connection`
Kind: P -/
theorem Held.handlerStep {tid fd : ℕ} {ev : Event} {th : Thread} {h : Handler} {s₁ : Process}
    (hh : Held build s) (hth : s.main.threads tid = some th)
    (hstep : th.handler.Steps build ev h)
    (hclients : ∀ s' : Process, s'.main = m → s.SameClients build s')
    (hthreads : m.threads = Function.update s.main.threads tid (some { th with handler := h }))
    (hpc : m.pc = s.main.pc)
    (hcalls : (ev.fdCall tid fd).toList.foldlM Process.call s = some s₁) :
    Assigns s₁.table (Process.has build { s₁ with main := m }) ∧ s₁.misused = false := by
  have halarms := (Process.calls_frame hcalls).2
  have htable : Process.table { s₁ with main := m } = s₁.table := rfl
  refine hh.callOn (hstep.callOn tid fd) hcalls ?_ htable rfl ?_ ?_ (hclients _ rfl)
    (congrArg MainPc.accepted hpc)
  · intro slot
    rw [Process.holds, hth]
    rfl
  · intro slot
    rw [Process.holds, hthreads, Function.update_self]
    rfl
  · intro k hk
    cases k with
    | listening => exact congrArg MainPc.listens hpc
    | accepted => exact congrArg (fun pc => (MainPc.accepted pc).isSome) hpc
    | alarm k => exact congrArg (fun alarms => (alarms k).fileOpen) halarms
    | thread tid' slot =>
        have hne : tid' ≠ tid := by
          rintro rfl
          exact hk slot rfl
        rw [Process.holds, Process.holds, hthreads, Function.update_of_ne hne]

end held

end Aesd.Server
