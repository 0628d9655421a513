import Aesd.Server.Main

/-!
# `main` from its first line (`server/aesdsocket.c`)

`Aesd.Server.Main` begins with the accept loop. Here the process is followed from the call of `main`
on: through the calls that set it up, each of which may fail, with `SIGINT` and `SIGTERM` at any
time, and then through the accept loop. A signal without a handler ends the process, and so does the
return of `main`, with all its threads. `SIGALRM` comes from the timer alone, and `SIGPIPE`, which has
no handler, from a `send` to a client that has closed the connection.

* `Starting.at` — before the accept loop, the place in `main` says all that has been set up;
* `startup_serves` — the accept loop is reached only with everything set up that the loop relies on,
  and each state that the process then reaches is one of `mainRun`, with the signals that came
  during the set-up; which of these signals can end the process, and when.

`daemon` leaves the new process in the place of the old one, which ends. The messages, the address
and the port are left out; the descriptors are in `Aesd.Server.Descriptors` and the mutexes in
`Aesd.Server.DataFile`.
-/

namespace Aesd.Server

open Aesd.Lib

/-! ### The set-up -/

/-- The signals that `main` sets a handler for, and the one that `send` raises.
Source: `aesdsocket.c`, `main`; `handler.c`, `write_to_client`
Kind: D -/
inductive Signal where
  | SIGINT
  | SIGTERM
  | SIGALRM
  | SIGPIPE
  deriving DecidableEq

/-- The places in `main` before the accept loop, each before the call it is named after.
Source: `aesdsocket.c`, `main`
Kind: D -/
inductive StartPc where
  | socket
  | bind
  | daemon
  | sigactionInt
  | sigactionTerm
  | sigactionAlrm
  | timerCreate
  | timerSettime
  | listen
  deriving DecidableEq

/-- What has been set up.
Source: `aesdsocket.c`, `main`
Kind: D -/
structure Starting where
  pc : StartPc
  /-- `server_running` -/
  running : Bool
  /-- The signals that have a handler. -/
  handled : Signal → Bool
  daemonized : Bool
  /-- The timer sends `SIGALRM`. -/
  timer : Bool
  listening : Bool

/-- The process, from the call of `main` to its end.
Source: `aesdsocket.c`, `main`
Kind: D -/
inductive Boot where
  | starting (s : Starting)
  | serving (s : Starting) (main : MainState)
  | exited (status : ℕ)
  | killed (sig : Signal)

/-- `"-d"`
Source: `aesdsocket.c`, `main`
Kind: D -/
def dashD : List UInt8 := [45, 100]

/-- The test of the arguments, at the first line and before `daemon`.
Source: `aesdsocket.c`, `main`
Kind: D -/
def Boot.start (argv : List (List UInt8)) : Boot :=
  if argv.length > 2 then .exited 1
  else .starting ⟨.socket, true, fun _ => false, false, false, false⟩

/-- The next call of the set-up, and whether it succeeds; `listen` is not checked.
Source: `aesdsocket.c`, `main` up to the accept loop
Kind: D -/
def Starting.call (build : Build) (argv : List (List UInt8)) (s : Starting) (ok : Bool) : Boot :=
  match s.pc, ok with
  | .listen, _ => .serving { s with listening := ok } { MainState.start with running := s.running }
  | _, false => .exited 1
  | .socket, true => .starting { s with pc := .bind }
  | .bind, true =>
      .starting { s with pc := if argv[1]? = some dashD then .daemon else .sigactionInt }
  | .daemon, true => .starting { s with pc := .sigactionInt, daemonized := true }
  | .sigactionInt, true =>
      .starting { s with
        pc := .sigactionTerm
        handled := Function.update s.handled .SIGINT true }
  | .sigactionTerm, true =>
      .starting { s with
        pc := match build with
          | .charDevice => .listen
          | .dataFile => .sigactionAlrm
        handled := Function.update s.handled .SIGTERM true }
  | .sigactionAlrm, true =>
      .starting { s with
        pc := .timerCreate
        handled := Function.update s.handled .SIGALRM true }
  | .timerCreate, true => .starting { s with pc := .timerSettime }
  | .timerSettime, true => .starting { s with pc := .listen, timer := true }

/-- `signal_handler` unsets `server_running`; what `alarm_handler` does is not seen by `main`.
Source: `aesdsocket.c`, `signal_handler` and `alarm_handler`
Kind: D -/
def Signal.handler (sig : Signal) (running : Bool) : Bool :=
  match sig with
  | .SIGINT | .SIGTERM => false
  | .SIGALRM | .SIGPIPE => running

/-- Who sends a signal: anybody sends `SIGINT` and `SIGTERM`, the timer `SIGALRM`, and a thread
`SIGPIPE` to itself.
Source: `aesdsocket.c`, `main`
Kind: D -/
def Starting.Sends (s : Starting) : Signal → Bool
  | .SIGINT | .SIGTERM => true
  | .SIGALRM => s.timer
  | .SIGPIPE => false

/-- The thread is about to call `send`.
Source: `handler.c`, `write_to_client`
Kind: D -/
def Pc.sending : Pc → Bool
  | .reply _ (.send _) => true
  | _ => false

/-- A call of the set-up, a signal, a step of `main` in or after its loop, a step of a thread, or the
`send` of a thread to a client that has closed the connection.
Source: `aesdsocket.c`, `main`; `handler.c`, `write_to_client`
Kind: D -/
inductive BootStep where
  | call (ok : Bool)
  | signal (sig : Signal)
  | main (ev : MainEvent)
  | handler (tid : ℕ) (ev : Event)
  | brokenPipe (tid : ℕ)

/-- `accept` gives out a connection only on a socket that listens.
Source: `aesdsocket.c`, `main`
Kind: D -/
def Starting.Allows (s : Starting) : MainEvent → Bool
  | .accept (.ok _) => s.listening
  | _ => true

/-- A step of the process, from its first line to its end.
Source: `aesdsocket.c`, `main`
Kind: D -/
def Boot.step (build : Build) (argv : List (List UInt8)) : Boot → BootStep → Option Boot
  | .starting s, .call ok => some (s.call build argv ok)
  | .starting s, .signal sig =>
      if s.Sends sig = false then none
      else if s.handled sig then some (.starting { s with running := sig.handler s.running })
      else some (.killed sig)
  | .serving s m, .signal sig =>
      if m.pc = .returned ∨ s.Sends sig = false then none
      else if s.handled sig then some (.serving s { m with running := sig.handler m.running })
      else some (.killed sig)
  | .serving s m, .main ev =>
      if s.Allows ev then (m.step build (.main ev)).map (.serving s) else none
  | .serving s m, .handler tid ev =>
      if m.pc = .returned then none else (m.step build (.handler tid ev)).map (.serving s)
  | .serving s m, .brokenPipe tid =>
      -- `send` is called without `MSG_NOSIGNAL`
      if m.pc = .returned ∨ s.handled .SIGPIPE then none
      else (m.threads tid).bind fun th =>
        if th.handler.pc.sending then some (.killed .SIGPIPE) else none
  | _, _ => none

/-- The process after the steps.
Source: `aesdsocket.c`, `main`
Kind: D -/
def bootRun (build : Build) (argv : List (List UInt8)) (steps : List BootStep) : Option Boot :=
  run (Boot.step build argv) (.start argv) steps

/-- The steps as the accept loop knows them.
Source: `aesdsocket.c`, `main`
Kind: D -/
def BootStep.mainStep : BootStep → Option MainStep
  | .call _ | .signal .SIGALRM | .signal .SIGPIPE | .brokenPipe _ => none
  | .signal _ => some .signal
  | .main ev => some (.main ev)
  | .handler tid ev => some (.handler tid ev)

/-! ### What the place says -/

/-- The place in the order of the calls.
Source: `aesdsocket.c`, `main`
Kind: D -/
def StartPc.index : StartPc → ℕ
  | .socket => 0
  | .bind => 1
  | .daemon => 2
  | .sigactionInt => 3
  | .sigactionTerm => 4
  | .sigactionAlrm => 5
  | .timerCreate => 6
  | .timerSettime => 7
  | .listen => 8

/-- `daemon` is called only when asked for, and the timer is set only without the device.
Source: `aesdsocket.c`, `main`
Kind: D -/
def StartPc.Reached (build : Build) (argv : List (List UInt8)) : StartPc → Prop
  | .daemon => argv[1]? = some dashD
  | .sigactionAlrm | .timerCreate | .timerSettime => build = .dataFile
  | _ => True

/-- What has been set up before each call.
Source: `aesdsocket.c`, `main`
Kind: D -/
def Starting.at (build : Build) (argv : List (List UInt8)) (pc : StartPc) (running : Bool) :
    Starting where
  pc := pc
  running := running
  handled
    | .SIGINT => decide (4 ≤ pc.index)
    | .SIGTERM => decide (5 ≤ pc.index)
    | .SIGALRM => decide (build = .dataFile ∧ 6 ≤ pc.index)
    | .SIGPIPE => false
  daemonized := decide (argv[1]? = some dashD ∧ 3 ≤ pc.index)
  timer := decide (build = .dataFile ∧ 8 ≤ pc.index)
  listening := false

/-- The handlers are known signal by signal.
Source: none: infrastructure
Kind: L -/
theorem Signal.funext_iff {f g : Signal → Bool} : f = g ↔
    f .SIGINT = g .SIGINT ∧ f .SIGTERM = g .SIGTERM ∧ f .SIGALRM = g .SIGALRM ∧
      f .SIGPIPE = g .SIGPIPE := by
  constructor
  · rintro rfl
    exact ⟨rfl, rfl, rfl, rfl⟩
  · rintro ⟨hint, hterm, halrm, hpipe⟩
    funext sig
    cases sig
    · exact hint
    · exact hterm
    · exact halrm
    · exact hpipe

section boot

variable {build : Build} {argv : List (List UInt8)} {steps : List BootStep} {p p' : Boot}

/-- A call that succeeds leads to the next one, with what it has set up.
Source: `aesdsocket.c`, `main`
Kind: L -/
theorem Starting.call_true {pc : StartPc} (hpc : pc.Reached build argv) (hne : pc ≠ .listen)
    (running : Bool) : ∃ pc' : StartPc, pc'.Reached build argv ∧
      (Starting.at build argv pc running).call build argv true =
        .starting (Starting.at build argv pc' running) := by
  cases pc with
  | socket => exact ⟨.bind, trivial, by simp [Starting.call, Starting.at, StartPc.index]⟩
  | bind =>
      by_cases hdaemon : argv[1]? = some dashD
      · refine ⟨.daemon, hdaemon, ?_⟩
        simp [Starting.call, Starting.at, StartPc.index, hdaemon]
      · refine ⟨.sigactionInt, trivial, ?_⟩
        simp [Starting.call, Starting.at, StartPc.index, hdaemon]
  | daemon =>
      have hdaemon : argv[1]? = some dashD := hpc
      refine ⟨.sigactionInt, trivial, ?_⟩
      simp [Starting.call, Starting.at, StartPc.index, hdaemon]
  | sigactionInt =>
      refine ⟨.sigactionTerm, trivial, ?_⟩
      simp [Starting.call, Starting.at, StartPc.index, Signal.funext_iff]
  | sigactionTerm =>
      cases build with
      | charDevice =>
          refine ⟨.listen, trivial, ?_⟩
          simp [Starting.call, Starting.at, StartPc.index, Signal.funext_iff]
      | dataFile =>
          refine ⟨.sigactionAlrm, rfl, ?_⟩
          simp [Starting.call, Starting.at, StartPc.index, Signal.funext_iff]
  | sigactionAlrm =>
      have hbuild : build = .dataFile := hpc
      refine ⟨.timerCreate, hbuild, ?_⟩
      simp [Starting.call, Starting.at, StartPc.index, Signal.funext_iff, hbuild]
  | timerCreate =>
      refine ⟨.timerSettime, hpc, ?_⟩
      simp [Starting.call, Starting.at, StartPc.index]
  | timerSettime =>
      have hbuild : build = .dataFile := hpc
      refine ⟨.listen, trivial, ?_⟩
      simp [Starting.call, Starting.at, StartPc.index, hbuild]
  | listen => exact absurd rfl hne

/-- The timer is set after the handler.
Source: `aesdsocket.c`, `main`
Kind: L -/
theorem Starting.handled_of_timer {pc : StartPc} {running : Bool}
    (htimer : (Starting.at build argv pc running).timer = true) :
    (Starting.at build argv pc running).handled .SIGALRM = true := by
  simp only [Starting.at, decide_eq_true_eq] at htimer ⊢
  exact ⟨htimer.1, by omega⟩

/-- A signal that comes without a handler being set is `SIGINT` or `SIGTERM`.
Source: `aesdsocket.c`, `main`
Kind: L -/
theorem Starting.sends_unhandled {pc : StartPc} {running : Bool} {sig : Signal}
    (hsends : (Starting.at build argv pc running).Sends sig = true)
    (hsig : (Starting.at build argv pc running).handled sig = false) :
    sig = .SIGINT ∨ sig = .SIGTERM := by
  cases sig with
  | SIGINT => exact .inl rfl
  | SIGTERM => exact .inr rfl
  | SIGALRM =>
      rw [Starting.handled_of_timer hsends] at hsig
      cases hsig
  | SIGPIPE => cases hsends

/-- A checked call that fails ends the process.
Source: `aesdsocket.c`, `main`
Kind: L -/
theorem Starting.call_false {s : Starting} (hne : s.pc ≠ .listen) :
    s.call build argv false = .exited 1 := by
  unfold Starting.call
  cases hpc : s.pc <;> simp_all

/-! ### A socket that does not listen -/

/-- The places that `main` reaches without a connection.
Source: `aesdsocket.c`, `main` and `reap_threads`
Kind: D -/
def MainPc.unserved : MainPc → Bool
  | .loop | .accept | .acceptFailed _ | .reap .final _ (.next none) | .closeSocket | .destroyMutex
  | .unlink | .returned => true
  | _ => false

/-- No connection has been accepted.
Source: `aesdsocket.c`, `main`
Kind: D -/
structure MainState.Unserved (m : MainState) : Prop where
  head : m.head = none
  threads : ∀ tid, m.threads tid = none
  pc : m.pc.unserved = true

/-- Without a connection `main` only goes round its loop, or returns.
Source: `aesdsocket.c`, `main`
Kind: L -/
theorem MainState.Unserved.mainStep {m m' : MainState} (hm : m.Unserved) {ev : MainEvent}
    (hev : ∀ clfd, ev ≠ .accept (.ok clfd)) (hstep : m.mainStep build ev = some m') :
    m'.Unserved := by
  obtain ⟨hhead, hthreads, hpc⟩ := hm
  unfold MainState.mainStep at hstep
  cases heq : m.pc with
  | loop =>
      cases ev <;> simp only [heq, Option.some_inj, reduceCtorEq] at hstep
      subst hstep
      split_ifs
      · exact ⟨hhead, hthreads, rfl⟩
      · exact ⟨hhead, hthreads, by simp [MainState.enterReap, hhead, MainPc.unserved]⟩
  | accept =>
      cases ev <;> simp only [heq, reduceCtorEq] at hstep
      rename_i result
      cases result with
      | ok clfd => exact absurd rfl (hev clfd)
      | error eintr =>
          obtain rfl := Option.some_inj.mp hstep
          exact ⟨hhead, hthreads, rfl⟩
  | acceptFailed eintr =>
      cases ev <;> simp only [heq, Option.some_inj, reduceCtorEq] at hstep
      subst hstep
      split_ifs
      · exact ⟨hhead, hthreads, by simp [MainState.enterReap, hhead, MainPc.unserved]⟩
      · exact ⟨hhead, hthreads, rfl⟩
  | reap site reapedCount pc =>
      rw [heq] at hpc
      obtain ⟨rfl, rfl⟩ : site = .final ∧ pc = .next none := by
        unfold MainPc.unserved at hpc
        split at hpc <;> simp_all
      cases ev <;> simp only [heq, MainState.reapThreads, Option.some_inj, reduceCtorEq] at hstep
      subst hstep
      exact ⟨hhead, hthreads, rfl⟩
  | closeSocket =>
      cases ev <;> simp only [heq, Option.some_inj, reduceCtorEq] at hstep
      subst hstep
      cases build <;> exact ⟨hhead, hthreads, rfl⟩
  | destroyMutex | unlink =>
      cases ev <;> simp only [heq, Option.some_inj, reduceCtorEq] at hstep
      subst hstep
      exact ⟨hhead, hthreads, rfl⟩
  | returned => simp [heq] at hstep
  | malloc _ | insertHead _ _ | create _ _ | rollback _ _ | rollbackFree _ _ | closeClient _ =>
      simp [heq, MainPc.unserved] at hpc

/-! ### The whole run -/

/-- What the steps so far say about the process.
Source: `aesdsocket.c`, `main`
Kind: D -/
inductive Boot.Holds (build : Build) (argv : List (List UInt8)) (steps : List BootStep) :
    Boot → Prop where
  | starting {pc : StartPc} {running : Bool} (hargs : argv.length ≤ 2)
      (hpc : pc.Reached build argv) (hok : .call false ∉ steps)
      (hmain : mainRun build (steps.filterMap BootStep.mainStep) =
        some { MainState.start with running := running }) :
      Holds build argv steps (.starting (.at build argv pc running))
  | serving {running listening : Bool} {m : MainState} (hargs : argv.length ≤ 2)
      (hok : listening = false ↔ .call false ∈ steps)
      (hmain : mainRun build (steps.filterMap BootStep.mainStep) = some m)
      (hnone : listening = false → m.Unserved) :
      Holds build argv steps
        (.serving { Starting.at build argv .listen running with listening := listening } m)
  | exited (hfail : 2 < argv.length ∨ .call false ∈ steps) : Holds build argv steps (.exited 1)
  | killed {before : List BootStep} {sig : Signal} {s : Starting}
      (hsteps : steps = before ++ [.signal sig])
      (hrun : bootRun build argv before = some (.starting s)) (hsig : s.handled sig = false)
      (hint : sig = .SIGINT ∨ sig = .SIGTERM) : Holds build argv steps (.killed sig)
  | brokenPipe {before : List BootStep} {tid : ℕ} {s : Starting} {m : MainState} {th : Thread}
      (hsteps : steps = before ++ [.brokenPipe tid])
      (hrun : bootRun build argv before = some (.serving s m)) (hth : m.threads tid = some th)
      (hsend : th.handler.pc.sending = true) : Holds build argv steps (.killed .SIGPIPE)

/-- A step of `main` or of a thread, seen from the accept loop.
Source: none: infrastructure
Kind: L -/
theorem mainRun_filterMap_concat {m m' : MainState} {e : BootStep} {t : MainStep}
    (hmain : mainRun build (steps.filterMap BootStep.mainStep) = some m)
    (he : e.mainStep = some t) (hstep : m.step build t = some m') :
    mainRun build ((steps ++ [e]).filterMap BootStep.mainStep) = some m' := by
  rw [filterMap_concat, he]
  exact run_concat.mpr ⟨m, hmain, hstep⟩

/-- What holds at the call of `main`.
Source: `aesdsocket.c`, `main`
Kind: L -/
theorem Boot.holds_start : (Boot.start argv).Holds build argv [] := by
  unfold Boot.start
  split_ifs with hargs
  · exact .exited (Or.inl hargs)
  · have hstart : (⟨.socket, true, fun _ => false, false, false, false⟩ : Starting) =
        .at build argv .socket true := by
      simp [Starting.at, StartPc.index, Signal.funext_iff]
    rw [hstart]
    exact .starting (by omega) trivial (by simp) rfl

/-- The set-up makes a call.
Source: `aesdsocket.c`, `main`
Kind: L -/
theorem Boot.Holds.call {pc : StartPc} {running : Bool} (hargs : argv.length ≤ 2)
    (hpc : pc.Reached build argv) (hok : .call false ∉ steps)
    (hmain : mainRun build (steps.filterMap BootStep.mainStep) =
      some { MainState.start with running := running }) (ok : Bool) :
    ((Starting.at build argv pc running).call build argv ok).Holds build argv
      (steps ++ [.call ok]) := by
  have hsame : (steps ++ [BootStep.call ok]).filterMap BootStep.mainStep =
      steps.filterMap BootStep.mainStep := by
    rw [filterMap_concat]
    exact List.append_nil _
  by_cases hlisten : pc = .listen
  · subst hlisten
    apply Boot.Holds.serving hargs
    · cases ok <;> simp [hok]
    · rw [hsame]
      exact hmain
    · exact fun _ => ⟨rfl, fun _ => rfl, rfl⟩
  cases ok with
  | false =>
      rw [Starting.call_false hlisten]
      exact .exited (Or.inr (by simp))
  | true =>
      obtain ⟨pc', hpc', hcall⟩ := Starting.call_true hpc hlisten running
      rw [hcall]
      refine .starting hargs hpc' (by simpa using hok) ?_
      rw [hsame]
      exact hmain

/-- A signal that has a handler.
Source: `aesdsocket.c`, `main`
Kind: L -/
theorem mainRun_signal {m : MainState} {sig : Signal}
    (hmain : mainRun build (steps.filterMap BootStep.mainStep) = some m) :
    mainRun build ((steps ++ [BootStep.signal sig]).filterMap BootStep.mainStep) =
      some { m with running := sig.handler m.running } := by
  cases sig with
  | SIGINT | SIGTERM => exact mainRun_filterMap_concat hmain rfl rfl
  | SIGALRM | SIGPIPE =>
      rw [filterMap_concat]
      exact (congrArg (mainRun build) (List.append_nil _)).trans hmain

/-- **Every step keeps to what the steps say.**
Source: `aesdsocket.c`, `main`
Kind: P -/
theorem Boot.Holds.step (hp : p.Holds build argv steps) (hrun : bootRun build argv steps = some p)
    {e : BootStep} (hstep : p.step build argv e = some p') : p'.Holds build argv (steps ++ [e]) := by
  cases hp with
  | exited _ => simp [Boot.step] at hstep
  | killed _ _ _ _ => simp [Boot.step] at hstep
  | brokenPipe _ _ _ _ => simp [Boot.step] at hstep
  | starting hargs hpc hok hmain =>
      cases e with
      | call ok =>
          obtain rfl := Option.some_inj.mp hstep
          exact Boot.Holds.call hargs hpc hok hmain ok
      | signal sig =>
          simp only [Boot.step] at hstep
          split_ifs at hstep with hsends hsig
          · obtain rfl := Option.some_inj.mp hstep
            exact .starting hargs hpc (by simpa using hok) (mainRun_signal hmain)
          · obtain rfl := Option.some_inj.mp hstep
            refine .killed rfl hrun (by simpa using hsig) ?_
            exact Starting.sends_unhandled (by simpa using hsends) (by simpa using hsig)
      | main ev => simp [Boot.step] at hstep
      | handler tid ev => simp [Boot.step] at hstep
      | brokenPipe tid => simp [Boot.step] at hstep
  | @serving running listening m hargs hok hmain hnone =>
      cases e with
      | call ok => simp [Boot.step] at hstep
      | signal sig =>
          simp only [Boot.step] at hstep
          split_ifs at hstep with hno hsig
          · obtain rfl := Option.some_inj.mp hstep
            refine .serving hargs (by simpa using hok) (mainRun_signal hmain) fun hl => ?_
            exact ⟨(hnone hl).head, (hnone hl).threads, (hnone hl).pc⟩
          · -- both handlers are set before `listen`
            rw [not_or, Bool.not_eq_false] at hno
            have hsig' : (Starting.at build argv .listen running).handled sig = false := by
              simpa using hsig
            rcases Starting.sends_unhandled hno.2 hsig' with rfl | rfl <;> cases hsig'
      | main ev =>
          simp only [Boot.step] at hstep
          split_ifs at hstep with hallow
          obtain ⟨m', hm', rfl⟩ := Option.map_eq_some_iff.mp hstep
          refine .serving hargs (by simpa using hok) (mainRun_filterMap_concat hmain rfl hm') ?_
          intro hl
          refine (hnone hl).mainStep ?_ hm'
          rintro clfd rfl
          simp [Starting.Allows, hl] at hallow
      | handler tid ev =>
          simp only [Boot.step] at hstep
          split_ifs at hstep with hret
          obtain ⟨m', hm', rfl⟩ := Option.map_eq_some_iff.mp hstep
          refine .serving hargs (by simpa using hok) (mainRun_filterMap_concat hmain rfl hm') ?_
          intro hl
          simp [MainState.step, MainState.handlerStep, (hnone hl).threads] at hm'
      | brokenPipe tid =>
          simp only [Boot.step] at hstep
          split_ifs at hstep with hret
          obtain ⟨th, hth, hstep⟩ := Option.bind_eq_some_iff.mp hstep
          split_ifs at hstep with hsend
          obtain rfl := Option.some_inj.mp hstep
          exact .brokenPipe rfl hrun hth hsend

/-- **`main` from its first line.** Whatever fails in the set-up and whenever signals come: the
process ends with `EXIT_FAILURE` only for its arguments or a call that failed. Of the four signals,
a `SIGINT` or `SIGTERM` kills it only when it comes in the set-up before its handler is set, a
`SIGPIPE` only when it serves and a thread is at its `send`, where it always may, and a `SIGALRM`
never. When it serves, no checked call has failed, the handlers are set (none for `SIGPIPE`), the
timer runs exactly in the build that writes time stamps, and it is a daemon exactly when asked to be;
and it is in a state of `mainRun`, reached by the signals since their handlers were set and the steps
since. Where `listen`, which is not checked, has failed, it never has a thread.
Source: `aesdsocket.c`, `main` and `signal_handler`; `handler.c`, `write_to_client`
Kind: P -/
theorem startup_serves (hrun : bootRun build argv steps = some p) :
    (∀ status, p = .exited status → status = 1 ∧ (2 < argv.length ∨ .call false ∈ steps)) ∧
    (∀ sig, p = .killed sig →
      ((sig = .SIGINT ∨ sig = .SIGTERM) ∧ ∃ before s, steps = before ++ [.signal sig] ∧
        bootRun build argv before = some (.starting s) ∧ s.handled sig = false) ∨
      (sig = .SIGPIPE ∧ ∃ before s m tid th, steps = before ++ [.brokenPipe tid] ∧
        bootRun build argv before = some (.serving s m) ∧ m.threads tid = some th ∧
        th.handler.pc.sending = true)) ∧
    ∀ s m, p = .serving s m →
      mainRun build (steps.filterMap BootStep.mainStep) = some m ∧
      (s.listening = false ↔ .call false ∈ steps) ∧
      (s.listening = false → ∀ tid, m.threads tid = none) ∧
      (∀ sig, s.handled sig = true ↔
        sig = .SIGINT ∨ sig = .SIGTERM ∨ sig = .SIGALRM ∧ build = .dataFile) ∧
      (s.timer = true ↔ build = .dataFile) ∧
      (s.daemonized = true ↔ argv[1]? = some dashD) ∧
      ∀ tid th, m.threads tid = some th → th.handler.pc.sending = true → m.pc ≠ .returned →
        p.step build argv (.brokenPipe tid) = some (.killed .SIGPIPE) := by
  have hp : p.Holds build argv steps := run_induction (P := fun es q => q.Holds build argv es)
    Boot.holds_start (fun es q e q' hes hq hstep => hq.step hes hstep) hrun
  refine ⟨?_, ?_, ?_⟩
  · rintro status rfl
    cases hp with
    | exited hfail => exact ⟨rfl, hfail⟩
  · rintro sig rfl
    cases hp with
    | killed hsteps hbefore hsig hint => exact .inl ⟨hint, _, _, hsteps, hbefore, hsig⟩
    | brokenPipe hsteps hbefore hth hsend =>
        exact .inr ⟨rfl, _, _, _, _, _, hsteps, hbefore, hth, hsend⟩
  · rintro s m rfl
    cases hp with
    | serving hargs hok hmain hnone =>
        refine ⟨hmain, hok, fun hl => (hnone hl).threads, fun sig => ?_, ?_, ?_, ?_⟩
        · cases sig <;> simp [Starting.at, StartPc.index]
        · simp [Starting.at, StartPc.index]
        · simp [Starting.at, StartPc.index]
        · intro tid th hth hsend hret
          simp [Boot.step, Starting.at, hret, hth, hsend]

end boot

/-- A daemon gets `SIGTERM` before it listens: it serves, with `server_running` unset.
Source: `aesdsocket.c`, `main`
Kind: N+ -/
theorem startup_serves_late_signal :
    ∃ s m, bootRun .dataFile [[97], dashD] (List.replicate 5 (.call true) ++ [.signal .SIGTERM] ++
        List.replicate 4 (.call true)) = some (.serving s m) ∧
      m.running = false ∧ mainRun .dataFile [.signal] = some m ∧ s.daemonized = true := by
  obtain ⟨s, m, hrun, hstop⟩ : ∃ s m, bootRun .dataFile [[97], dashD]
      (List.replicate 5 (.call true) ++ [.signal .SIGTERM] ++ List.replicate 4 (.call true)) =
        some (.serving s m) ∧ m.running = false := ⟨_, _, rfl, rfl⟩
  obtain ⟨hmain, -, -, -, -, hdaemon, -⟩ := (startup_serves hrun).2.2 s m rfl
  exact ⟨s, m, hrun, hstop, hmain, hdaemon.mpr rfl⟩

end Aesd.Server
