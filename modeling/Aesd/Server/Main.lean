import Aesd.Lib.SList
import Aesd.Server.Handler

/-!
# The main thread (`server/aesdsocket.c`)

`main` from its accept loop on, with `reap_threads`, in any interleaving with the threads it creates
and with the signals that end it. A state is the place of `main` in its code with its local
variables, the connection nodes in memory, the list of them, and the threads. The environment
chooses the results of `accept`, `malloc` and `pthread_create`; every other step of `main` is
determined.

Three ledgers record what has been done and is not otherwise seen: the threads joined, the nodes
that `reap_threads` has taken out of the list, and the nodes freed. `fault` records that a pointer
to a node that is not there was followed or freed, or that a thread was joined which is not there or
was joined before; a step of a handler counts as an access to its node.

The client's address, which only log messages show, is left out; the mutex that a node points to is
in `Aesd.Server.DataFile`.
-/

namespace Aesd.Server

open Aesd.Lib Aesd.Driver

/-! ### Nodes, threads and places -/

/-- `conn_node_t`: the thread is set by `pthread_create`, the link is that of the cell.
Source: `aesdsocket.h`, `struct conn_node`
Kind: D -/
structure ConnNode where
  threadId : Option ℕ
  clfd : ℕ
  done : Bool

/-- A thread in `handle_connection`, with the node it was given.
Source: `aesdsocket.c`, `main`
Kind: D -/
structure Thread where
  connInfo : ℕ
  handler : Handler

/-- The places in `reap_threads`, with its local variables.
Source: `aesdsocket.c`, `reap_threads`
Kind: D -/
inductive ReapPc where
  /-- The test of the loop. -/
  | next (cur : Option ℕ)
  | test (cur : ℕ) (tmp : Option ℕ)
  | join (cur : ℕ) (tmp : Option ℕ)
  | remove (cur : ℕ) (tmp : Option ℕ)
  | free (cur : ℕ) (tmp : Option ℕ)
  deriving DecidableEq

/-- The two calls of `reap_threads`.
Source: `aesdsocket.c`, `reap_threads`
Kind: D -/
inductive ReapSite where
  | inLoop
  | final
  deriving DecidableEq

/-- The places in `main`, each before the step it is named after.
Source: `aesdsocket.c`, `main`
Kind: D -/
inductive MainPc where
  /-- The test of `server_running`. -/
  | loop
  | accept
  /-- `accept` has failed; whether `errno` is `EINTR`. -/
  | acceptFailed (eintr : Bool)
  | malloc (clfd : ℕ)
  | insertHead (clfd node : ℕ)
  | create (clfd node : ℕ)
  /-- The `SLIST_REMOVE` and the `free` after a failed `pthread_create`. -/
  | rollback (clfd node : ℕ)
  | rollbackFree (clfd node : ℕ)
  | closeClient (clfd : ℕ)
  | reap (site : ReapSite) (reapedCount : ℕ) (pc : ReapPc)
  | closeSocket
  | destroyMutex
  | unlink
  | returned
  deriving DecidableEq

/-- `main`, its list, and the threads.
Source: `aesdsocket.c`, `main`
Kind: D -/
structure MainState where
  pc : MainPc
  /-- `server_running` -/
  running : Bool
  store : Store ConnNode
  /-- `server_info.conn_node_head` -/
  head : Option ℕ
  nextNode : ℕ
  threads : ℕ → Option Thread
  nextThread : ℕ
  joined : List ℕ
  reaped : List ℕ
  freed : List ℕ
  fault : Bool

/-- The accept loop is about to begin.
Source: `aesdsocket.c`, `main`
Kind: D -/
def MainState.start : MainState where
  pc := .loop
  running := true
  store := fun _ => none
  head := none
  nextNode := 0
  threads := fun _ => none
  nextThread := 0
  joined := []
  reaped := []
  freed := []
  fault := false

/-- What the environment decides in a step of `main`.
Source: `aesdsocket.c`, `main`
Kind: D -/
inductive MainEvent where
  /-- The descriptor, or whether the call was interrupted. -/
  | accept (result : Except Bool ℕ)
  | malloc (ok : Bool)
  | create (ok : Bool)
  /-- Nothing. -/
  | goOn

/-- A step of `main`, a signal `SIGINT` or `SIGTERM`, or a step of a thread.
Source: `aesdsocket.c`, `main`
Kind: D -/
inductive MainStep where
  | main (ev : MainEvent)
  | signal
  | handler (tid : ℕ) (ev : Event)

/-! ### The steps -/

/-- A pointer to nothing has been used.
Source: `aesdsocket.c`, `main`
Kind: D -/
def MainState.faulty (s : MainState) : MainState := { s with fault := true }

/-- `free` of a node; `none` when there is no such node.
Source: `aesdsocket.c`, `main`
Kind: D -/
def MainState.free (s : MainState) (node : ℕ) : Option MainState :=
  (s.store node).map fun _ =>
    { s with store := Function.update s.store node none, freed := s.freed ++ [node] }

/-- What follows `reap_threads`.
Source: `aesdsocket.c`, `main` and `reap_threads`
Kind: D -/
def ReapSite.after : ReapSite → MainPc
  | .inLoop => .loop
  | .final => .closeSocket

/-- The call of `reap_threads`: the traversal starts with the head.
Source: `aesdsocket.c`, `main` and `reap_threads`
Kind: D -/
def MainState.enterReap (s : MainState) (site : ReapSite) : MainState :=
  { s with pc := .reap site 0 (.next s.head) }

/-- One step of `reap_threads`; `pthread_join` waits until the thread has returned.
Source: `aesdsocket.c`, `reap_threads`
Kind: D -/
def MainState.reapThreads (s : MainState) (site : ReapSite) (reapedCount : ℕ) :
    ReapPc → Option MainState
  | .next none => some { s with pc := site.after }
  | .next (some cur) =>
      some (((s.store cur).map fun c =>
        { s with pc := .reap site reapedCount (.test cur c.next) }).getD s.faulty)
  | .test cur tmp =>
      some (((s.store cur).map fun c =>
        { s with
          pc := .reap site reapedCount (if c.val.done then .join cur tmp else .next tmp) }).getD
          s.faulty)
  | .join cur tmp =>
      match (s.store cur).bind fun c => c.val.threadId with
      | none => some s.faulty
      | some tid =>
          match s.threads tid with
          | none => some s.faulty
          | some th =>
              if tid ∈ s.joined then some s.faulty
              else if th.handler.pc = .finished then
                some { s with
                  joined := s.joined ++ [tid], pc := .reap site reapedCount (.remove cur tmp) }
              else none
  | .remove cur tmp =>
      some (((s.store.remove s.nextNode s.head cur).map fun r =>
        { s with
          store := r.1, head := r.2, reaped := s.reaped ++ [cur]
          pc := .reap site reapedCount (.free cur tmp) }).getD s.faulty)
  | .free cur tmp =>
      some (((s.free cur).map fun s' =>
        { s' with pc := .reap site (reapedCount + 1) (.next tmp) }).getD s.faulty)

/-- A new node with its fields set.
Source: `aesdsocket.c`, `main`
Kind: D -/
def MainState.newNode (s : MainState) (clfd : ℕ) : MainState :=
  { s with
    store := Function.update s.store s.nextNode (some ⟨none, ⟨none, clfd, false⟩⟩)
    nextNode := s.nextNode + 1
    pc := .insertHead clfd s.nextNode }

/-- A new thread for a node, which is told its number.
Source: `aesdsocket.c`, `main`
Kind: D -/
def MainState.newThread (s : MainState) (node : ℕ) (c : Cell ConnNode) : MainState :=
  { s with
    store := Function.update s.store node
      (some { c with val := { c.val with threadId := some s.nextThread } })
    threads := Function.update s.threads s.nextThread (some ⟨node, .start⟩)
    nextThread := s.nextThread + 1 }

/-- One statement of `main` from the accept loop on, with the result of its call.
Source: `aesdsocket.c`, `main` from the accept loop on
Kind: D -/
def MainState.mainStep (build : Build) (s : MainState) (ev : MainEvent) : Option MainState :=
  match s.pc with
  | .loop =>
      match ev with
      | .goOn => some (if s.running then { s with pc := .accept } else s.enterReap .final)
      | _ => none
  | .accept =>
      match ev with
      | .accept (.ok clfd) => some { s with pc := .malloc clfd }
      | .accept (.error eintr) => some { s with pc := .acceptFailed eintr }
      | _ => none
  | .acceptFailed eintr =>
      match ev with
      | .goOn =>
          some (if eintr && !s.running then s.enterReap .final else { s with pc := .loop })
      | _ => none
  | .malloc clfd =>
      match ev with
      | .malloc ok => some (if ok then s.newNode clfd else { s with pc := .closeClient clfd })
      | _ => none
  | .insertHead clfd node =>
      match ev with
      | .goOn =>
          some (((s.store.insertHead s.head node).map fun r =>
            { s with store := r.1, head := r.2, pc := .create clfd node }).getD s.faulty)
      | _ => none
  | .create clfd node =>
      match ev with
      | .create true =>
          some (((s.store node).map fun c => (s.newThread node c).enterReap .inLoop).getD s.faulty)
      | .create false => some { s with pc := .rollback clfd node }
      | _ => none
  | .rollback clfd node =>
      match ev with
      | .goOn =>
          some (((s.store.remove s.nextNode s.head node).map fun r =>
            { s with store := r.1, head := r.2, pc := .rollbackFree clfd node }).getD s.faulty)
      | _ => none
  | .rollbackFree clfd node =>
      match ev with
      | .goOn =>
          some (((s.free node).map fun s' => { s' with pc := .closeClient clfd }).getD s.faulty)
      | _ => none
  | .closeClient _ =>
      match ev with
      | .goOn => some { s with pc := .loop }
      | _ => none
  | .reap site reapedCount pc =>
      match ev with
      | .goOn => s.reapThreads site reapedCount pc
      | _ => none
  | .closeSocket =>
      match ev with
      | .goOn =>
          some { s with pc := match build with
            | .charDevice => .returned
            | .dataFile => .destroyMutex }
      | _ => none
  | .destroyMutex =>
      match ev with
      | .goOn => some { s with pc := .unlink }
      | _ => none
  | .unlink =>
      match ev with
      | .goOn => some { s with pc := .returned }
      | _ => none
  | .returned => none

/-- What a step of a handler writes to its node: `done` is set by the last one.
Source: `aesdsocket.c`, `main`; `handler.c`, `handle_connection`
Kind: D -/
def Event.mark (ev : Event) (node : ConnNode) : ConnNode :=
  match ev with
  | .setDone => { node with done := true }
  | _ => node

/-- A step of a thread.
Source: `aesdsocket.c`, `main`
Kind: D -/
def MainState.handlerStep (build : Build) (s : MainState) (tid : ℕ) (ev : Event) :
    Option MainState :=
  (s.threads tid).bind fun th => (th.handler.step build ev).map fun h =>
    ((s.store th.connInfo).map fun c =>
      { s with
        threads := Function.update s.threads tid (some { th with handler := h })
        store := Function.update s.store th.connInfo (some { c with val := ev.mark c.val }) }).getD
      s.faulty

/-- A step of `main`, of a handler thread, or of a signal.
Source: `aesdsocket.c`, `main` and `signal_handler`; `handler.c`, `handle_connection`
Kind: D -/
def MainState.step (build : Build) (s : MainState) : MainStep → Option MainState
  | .main ev => s.mainStep build ev
  | .signal => some { s with running := false }
  | .handler tid ev => s.handlerStep build tid ev

/-- The process after the steps, from the start of the accept loop.
Source: `aesdsocket.c`, `main`
Kind: D -/
def mainRun (build : Build) (steps : List MainStep) : Option MainState :=
  run (MainState.step build) .start steps

/-! ### Everything a step can do -/

/-- The places of `main` at which it holds no node.
Source: `aesdsocket.c`, `main`
Kind: D -/
def MainPc.idle : MainPc → Bool
  | .loop | .accept | .acceptFailed _ | .malloc _ | .closeClient _ | .closeSocket | .destroyMutex
  | .unlink | .returned => true
  | _ => false

/-- The places behind the last `reap_threads`.
Source: `aesdsocket.c`, `main`
Kind: D -/
def MainPc.past : MainPc → Bool
  | .closeSocket | .destroyMutex | .unlink | .returned => true
  | _ => false

/-- The step uses a pointer to no node, joins no thread, or joins one again.
Source: `aesdsocket.c`, `main` and `reap_threads`
Kind: D -/
def MainState.Dangling (s : MainState) : MainStep → Prop
  | .signal => False
  | .handler tid _ =>
      ∃ th, s.threads tid = some th ∧ th.handler.pc ≠ .finished ∧ s.store th.connInfo = none
  | .main _ =>
      match s.pc with
      | .insertHead _ node | .create _ node | .rollbackFree _ node => s.store node = none
      | .rollback _ node => s.store.remove s.nextNode s.head node = none
      | .reap _ _ (.next (some cur)) | .reap _ _ (.test cur _) | .reap _ _ (.free cur _) =>
          s.store cur = none
      | .reap _ _ (.join cur _) =>
          ∀ c tid th, s.store cur = some c → c.val.threadId = some tid →
            s.threads tid = some th → tid ∈ s.joined
      | .reap _ _ (.remove cur _) => s.store.remove s.nextNode s.head cur = none
      | _ => False

/-- Everything a step can do.
Source: `aesdsocket.c`, `main`
Kind: D -/
inductive MainState.Steps (build : Build) (s : MainState) : MainStep → MainState → Prop where
  | moves {ev : MainEvent} {pc' : MainPc} (hpc : s.pc.idle = true) (hpc' : pc'.idle = true)
      (hpast : pc'.past = s.pc.past) : Steps build s (.main ev) { s with pc := pc' }
  | enters {ev : MainEvent} (hpc : s.pc.idle = true) (hpast : s.pc.past = false) :
      Steps build s (.main ev) (s.enterReap .final)
  | mallocs {ev : MainEvent} {clfd : ℕ} (hpc : s.pc = .malloc clfd) :
      Steps build s (.main ev) (s.newNode clfd)
  | inserts {ev : MainEvent} {clfd node : ℕ} {store : Store ConnNode} {head : Option ℕ}
      (hpc : s.pc = .insertHead clfd node)
      (hop : s.store.insertHead s.head node = some (store, head)) :
      Steps build s (.main ev) { s with store := store, head := head, pc := .create clfd node }
  | creates {ev : MainEvent} {clfd node : ℕ} {c : Cell ConnNode} (hpc : s.pc = .create clfd node)
      (hc : s.store node = some c) :
      Steps build s (.main ev) ((s.newThread node c).enterReap .inLoop)
  | createFails {ev : MainEvent} {clfd node : ℕ} (hpc : s.pc = .create clfd node) :
      Steps build s (.main ev) { s with pc := .rollback clfd node }
  | unlinks {ev : MainEvent} {clfd node : ℕ} {store : Store ConnNode} {head : Option ℕ}
      (hpc : s.pc = .rollback clfd node)
      (hop : s.store.remove s.nextNode s.head node = some (store, head)) :
      Steps build s (.main ev)
        { s with store := store, head := head, pc := .rollbackFree clfd node }
  | rollsBack {ev : MainEvent} {clfd node : ℕ} (hpc : s.pc = .rollbackFree clfd node)
      (hlive : s.store node ≠ none) :
      Steps build s (.main ev)
        { s with
          store := Function.update s.store node none, freed := s.freed ++ [node]
          pc := .closeClient clfd }
  | leaves {ev : MainEvent} {site : ReapSite} {reapedCount : ℕ}
      (hpc : s.pc = .reap site reapedCount (.next none)) :
      Steps build s (.main ev) { s with pc := site.after }
  | visits {ev : MainEvent} {site : ReapSite} {reapedCount cur : ℕ} {c : Cell ConnNode}
      (hpc : s.pc = .reap site reapedCount (.next (some cur))) (hc : s.store cur = some c) :
      Steps build s (.main ev) { s with pc := .reap site reapedCount (.test cur c.next) }
  | skips {site : ReapSite} {reapedCount cur : ℕ} {tmp : Option ℕ}
      {c : Cell ConnNode} (hpc : s.pc = .reap site reapedCount (.test cur tmp))
      (hc : s.store cur = some c) (hdone : c.val.done = false) :
      Steps build s (.main .goOn) { s with pc := .reap site reapedCount (.next tmp) }
  | finds {ev : MainEvent} {site : ReapSite} {reapedCount cur : ℕ} {tmp : Option ℕ}
      {c : Cell ConnNode} (hpc : s.pc = .reap site reapedCount (.test cur tmp))
      (hc : s.store cur = some c) (hdone : c.val.done = true) :
      Steps build s (.main ev) { s with pc := .reap site reapedCount (.join cur tmp) }
  | joins {ev : MainEvent} {site : ReapSite} {reapedCount cur tid : ℕ} {tmp : Option ℕ}
      {c : Cell ConnNode} {th : Thread} (hpc : s.pc = .reap site reapedCount (.join cur tmp))
      (hc : s.store cur = some c) (htid : c.val.threadId = some tid)
      (hth : s.threads tid = some th) (hnew : tid ∉ s.joined) (hend : th.handler.pc = .finished) :
      Steps build s (.main ev)
        { s with joined := s.joined ++ [tid], pc := .reap site reapedCount (.remove cur tmp) }
  | removes {ev : MainEvent} {site : ReapSite} {reapedCount cur : ℕ} {tmp head : Option ℕ}
      {store : Store ConnNode} (hpc : s.pc = .reap site reapedCount (.remove cur tmp))
      (hop : s.store.remove s.nextNode s.head cur = some (store, head)) :
      Steps build s (.main ev)
        { s with
          store := store, head := head, reaped := s.reaped ++ [cur]
          pc := .reap site reapedCount (.free cur tmp) }
  | frees {ev : MainEvent} {site : ReapSite} {reapedCount cur : ℕ} {tmp : Option ℕ}
      (hpc : s.pc = .reap site reapedCount (.free cur tmp)) (hlive : s.store cur ≠ none) :
      Steps build s (.main ev)
        { s with
          store := Function.update s.store cur none, freed := s.freed ++ [cur]
          pc := .reap site (reapedCount + 1) (.next tmp) }
  | signals : Steps build s .signal { s with running := false }
  | handles {tid : ℕ} {ev : Event} {th : Thread} {h : Handler} {c : Cell ConnNode}
      (hth : s.threads tid = some th) (hh : th.handler.step build ev = some h)
      (hc : s.store th.connInfo = some c) :
      Steps build s (.handler tid ev)
        { s with
          threads := Function.update s.threads tid (some { th with handler := h })
          store := Function.update s.store th.connInfo (some { c with val := ev.mark c.val }) }
  | faults {t : MainStep} {s' : MainState} (hbad : s.Dangling t) : Steps build s t s'

section steps

variable {build : Build} {s s' : MainState} {ev : MainEvent}

/-- A step that follows a pointer to nothing.
Source: `aesdsocket.c`, `main`
Kind: L -/
theorem MainState.steps_of_dangling {pc : MainPc} (hpc : s.pc = pc)
    (hbad : { s with pc := pc }.Dangling (.main ev)) : s.Steps build (.main ev) s' := by
  subst hpc
  exact .faults hbad

/-- A step of `main` where it holds no node.
Source: `aesdsocket.c`, `main`
Kind: L -/
theorem MainState.steps_moves {pc pc' : MainPc} (hpc : s.pc = pc) (hidle : pc.idle = true)
    (hidle' : pc'.idle = true) (hpast : pc'.past = pc.past) :
    s.Steps build (.main ev) { s with pc := pc' } := by
  subst hpc
  exact .moves hidle hidle' hpast

/-- A step to the last `reap_threads`.
Source: `aesdsocket.c`, `main` and `reap_threads`
Kind: L -/
theorem MainState.steps_enters {pc : MainPc} (hpc : s.pc = pc) (hidle : pc.idle = true)
    (hpast : pc.past = false) : s.Steps build (.main ev) (s.enterReap .final) := by
  subst hpc
  exact .enters hidle hpast

/-- The code of `reap_threads`, analysed once.
Source: `aesdsocket.c`, `reap_threads`
Kind: L -/
theorem MainState.steps_of_reapThreads {site : ReapSite} {reapedCount : ℕ} {pc : ReapPc}
    (hpc : s.pc = .reap site reapedCount pc)
    (hstep : s.reapThreads site reapedCount pc = some s') : s.Steps build (.main .goOn) s' := by
  cases pc with
  | next cur =>
      cases cur with
      | none =>
          cases hstep
          exact .leaves hpc
      | some cur =>
          cases hc : s.store cur with
          | none => exact steps_of_dangling hpc hc
          | some c =>
              rw [reapThreads, hc] at hstep
              cases hstep
              exact .visits hpc hc
  | test cur tmp =>
      cases hc : s.store cur with
      | none => exact steps_of_dangling hpc hc
      | some c =>
          rw [reapThreads, hc] at hstep
          cases hstep
          cases hdone : c.val.done with
          | false =>
              simp only [Option.map_some, Option.getD_some, hdone]
              exact .skips hpc hc hdone
          | true =>
              simp only [Option.map_some, Option.getD_some, hdone]
              exact .finds hpc hc hdone
  | join cur tmp =>
      rw [reapThreads] at hstep
      split at hstep
      · rename_i hnone
        apply steps_of_dangling hpc
        intro c tid th hc htid _
        rw [hc, Option.bind_some, htid] at hnone
        cases hnone
      · rename_i tid hsome
        obtain ⟨c, hc, htid⟩ := Option.bind_eq_some_iff.mp hsome
        split at hstep
        · rename_i hnone
          apply steps_of_dangling hpc
          intro c' tid' th hc' htid' hth
          cases hc.symm.trans hc'
          cases htid.symm.trans htid'
          rw [hnone] at hth
          cases hth
        · rename_i th hth
          split_ifs at hstep with hjoined hend
          · apply steps_of_dangling hpc
            intro c' tid' th' hc' htid' _
            cases hc.symm.trans hc'
            cases htid.symm.trans htid'
            exact hjoined
          · cases hstep
            exact .joins hpc hc htid hth hjoined hend
  | remove cur tmp =>
      cases hop : s.store.remove s.nextNode s.head cur with
      | none => exact steps_of_dangling hpc hop
      | some r =>
          rw [reapThreads, hop] at hstep
          cases hstep
          exact .removes hpc hop
  | free cur tmp =>
      cases hc : s.store cur with
      | none => exact steps_of_dangling hpc hc
      | some c =>
          rw [reapThreads, MainState.free, hc] at hstep
          cases hstep
          exact .frees hpc (by rw [hc]; exact nofun)

/-- **The code of `main`, analysed once.**
Source: `aesdsocket.c`, `main`
Kind: P -/
theorem MainState.steps_of_mainStep (hstep : s.mainStep build ev = some s') :
    s.Steps build (.main ev) s' := by
  cases hpc : s.pc with
  | reap site reapedCount pc =>
      simp only [mainStep, hpc] at hstep
      cases ev with
      | goOn => exact steps_of_reapThreads hpc hstep
      | _ => cases hstep
  | loop =>
      simp only [mainStep, hpc] at hstep
      cases ev with
      | goOn =>
          cases hstep
          split_ifs
          · exact steps_moves hpc rfl rfl rfl
          · exact steps_enters hpc rfl rfl
      | _ => cases hstep
  | accept =>
      simp only [mainStep, hpc] at hstep
      cases ev with
      | accept result =>
          cases result with
          | ok clfd =>
              cases hstep
              exact steps_moves hpc rfl rfl rfl
          | error eintr =>
              cases hstep
              exact steps_moves hpc rfl rfl rfl
      | _ => cases hstep
  | acceptFailed eintr =>
      simp only [mainStep, hpc] at hstep
      cases ev with
      | goOn =>
          cases hstep
          split_ifs
          · exact steps_enters hpc rfl rfl
          · exact steps_moves hpc rfl rfl rfl
      | _ => cases hstep
  | malloc clfd =>
      simp only [mainStep, hpc] at hstep
      cases ev with
      | malloc ok =>
          cases hstep
          split_ifs
          · exact .mallocs hpc
          · exact steps_moves hpc rfl rfl rfl
      | _ => cases hstep
  | insertHead clfd node =>
      simp only [mainStep, hpc] at hstep
      cases ev with
      | goOn =>
          cases hop : s.store.insertHead s.head node with
          | none => exact steps_of_dangling hpc (Option.map_eq_none_iff.mp hop)
          | some r =>
              rw [hop] at hstep
              cases hstep
              exact .inserts hpc hop
      | _ => cases hstep
  | create clfd node =>
      simp only [mainStep, hpc] at hstep
      cases ev with
      | create ok =>
          cases ok with
          | true =>
              cases hc : s.store node with
              | none => exact steps_of_dangling hpc hc
              | some c =>
                  rw [hc] at hstep
                  cases hstep
                  exact .creates hpc hc
          | false =>
              cases hstep
              exact .createFails hpc
      | _ => cases hstep
  | rollback clfd node =>
      simp only [mainStep, hpc] at hstep
      cases ev with
      | goOn =>
          cases hop : s.store.remove s.nextNode s.head node with
          | none => exact steps_of_dangling hpc hop
          | some r =>
              rw [hop] at hstep
              cases hstep
              exact .unlinks hpc hop
      | _ => cases hstep
  | rollbackFree clfd node =>
      simp only [mainStep, hpc] at hstep
      cases ev with
      | goOn =>
          cases hc : s.store node with
          | none => exact steps_of_dangling hpc hc
          | some c =>
              rw [MainState.free, hc] at hstep
              cases hstep
              exact .rollsBack hpc (by rw [hc]; exact nofun)
      | _ => cases hstep
  | returned =>
      simp only [mainStep, hpc] at hstep
      cases hstep
  | closeClient clfd =>
      simp only [mainStep, hpc] at hstep
      cases ev with
      | goOn =>
          cases hstep
          exact steps_moves hpc rfl rfl rfl
      | _ => cases hstep
  | closeSocket =>
      simp only [mainStep, hpc] at hstep
      cases ev with
      | goOn =>
          cases hstep
          cases build <;> exact steps_moves hpc rfl rfl rfl
      | _ => cases hstep
  | destroyMutex | unlink =>
      simp only [mainStep, hpc] at hstep
      cases ev with
      | goOn =>
          cases hstep
          exact steps_moves hpc rfl rfl rfl
      | _ => cases hstep

/-- The steps of the process, analysed once.
Source: `aesdsocket.c`, `main`
Kind: L -/
theorem MainState.steps_of_step {t : MainStep} (hstep : s.step build t = some s') :
    s.Steps build t s' := by
  cases t with
  | main ev => exact steps_of_mainStep hstep
  | signal =>
      cases hstep
      exact .signals
  | handler tid ev =>
      obtain ⟨th, hth, hrest⟩ := Option.bind_eq_some_iff.mp hstep
      obtain ⟨h, hh, rfl⟩ := Option.map_eq_some_iff.mp hrest
      cases hc : s.store th.connInfo with
      | none =>
          refine .faults ⟨th, hth, fun hend => ?_, hc⟩
          simp only [Handler.step, hend] at hh
          cases hh
      | some c => exact .handles hth hh hc

end steps

end Aesd.Server
