import Aesd.Server.SeekGrammar
import Aesd.Server.Packets
import Aesd.Server.Shutdown

/-!
# The whole server over the device

`main` with its list of connections, the threads it creates, the signals, and the device that the
threads call: what `Aesd.Server.Main` and `Aesd.Server.System` show each a part of, as one machine.
A step of a thread is a step of its handler, which the device answers; `main` and the signals take
their steps in between.

* `mainRun_of_wholeRun`, `serverRun_of_wholeRun` — the whole refines both parts: what holds in all
  runs of either holds here;
* `nothing_lost_at_return` — when `main` has returned and no thread was passed over, the device
  holds the last ten of the packets that the clients have sent, each client's in its order.
-/

namespace Aesd.Server

open Aesd.Lib Aesd.Driver

/-! ### The machine -/

/-- The process with its threads, the device, and the positions of the threads' descriptors.
Source: `aesdsocket.c`, `main`; `handler.c`, `handle_connection`
Kind: D -/
structure Whole where
  main : MainState
  dev : AesdDev
  fPos : ℕ → ℤ

/-- A step of `main`, a signal, or a step of a thread with the kernel's part in it.
Source: `aesdsocket.c`, `main`; `handler.c`, `handle_connection`
Kind: D -/
inductive WholeStep where
  | main (ev : MainEvent)
  | signal
  | handler (tid : ℕ) (env : KernelEnv) (ev : Event)

/-- The module is loaded, and the accept loop is about to begin.
Source: `aesdsocket.c`, `main`; `handler.c`, `handle_connection`
Kind: D -/
def Whole.start : Whole := ⟨.start, aesdInitModule, fun _ => 0⟩

/-- The step as `Aesd.Server.Main` has it.
Source: `aesdsocket.c`, `main`
Kind: D -/
def WholeStep.mainStep : WholeStep → MainStep
  | .main ev => .main ev
  | .signal => .signal
  | .handler tid _ ev => .handler tid ev

/-- The step as `Aesd.Server.System` has it.
Source: `aesdsocket.c`, `main`; `handler.c`, `handle_connection`
Kind: D -/
def WholeStep.serverStep : WholeStep → Option ServerStep
  | .handler tid env ev => some ⟨tid, env, ev⟩
  | _ => none

/-- What the device does in a step; it has a part in those of the threads.
Source: `main.c`, the file operations
Kind: D -/
def Whole.answer (K : KernelLimits) (s : Whole) : WholeStep → Option (AesdDev × (ℕ → ℤ))
  | .handler tid env ev => (deviceAnswer K env ev (s.fPos tid) s.dev).map fun r =>
      (r.2, Function.update s.fPos tid r.1)
  | _ => some (s.dev, s.fPos)

/-- The process takes a step, and the device answers.
Source: `aesdsocket.c`, `main`; `handler.c`, `handle_connection`; `main.c`, `aesd_fops`
Kind: D -/
def Whole.step (K : KernelLimits) (s : Whole) (t : WholeStep) : Option Whole :=
  (s.main.step .charDevice t.mainStep).bind fun main => (s.answer K t).map fun r =>
    ⟨main, r.1, r.2⟩

/-- The whole after the steps, from its start.
Source: `aesdsocket.c`, `main`; `handler.c`, `handle_connection`
Kind: D -/
def wholeRun (K : KernelLimits) (steps : List WholeStep) : Option Whole :=
  run (Whole.step K) .start steps

/-- The handler of a thread; one that has not been created has done nothing.
Source: `aesdsocket.c`, `main`; `handler.c`, `handle_connection`
Kind: D -/
def MainState.conn (s : MainState) (tid : ℕ) : Handler :=
  ((s.threads tid).map Thread.handler).getD .start

/-- The handlers of all threads, over the device.
Source: `main.c`, the file operations
Kind: D -/
def Whole.server (s : Whole) : Aesdsocket := ⟨s.dev, s.main.conn, s.fPos⟩

section whole

variable {K : KernelLimits} {s s' : Whole} {t : WholeStep} {steps : List WholeStep}

/-- A step is one of the process, answered by the device.
Source: `main.c`, the file operations
Kind: L -/
theorem Whole.step_cases (hstep : s.step K t = some s') :
    s.main.step .charDevice t.mainStep = some s'.main ∧
      s.answer K t = some (s'.dev, s'.fPos) := by
  obtain ⟨main, hmain, hrest⟩ := Option.bind_eq_some_iff.mp hstep
  obtain ⟨⟨dev, fPos⟩, hans, rfl⟩ := Option.map_eq_some_iff.mp hrest
  exact ⟨hmain, hans⟩

/-- **The process runs as `Aesd.Server.Main` says.**
Source: `aesdsocket.c`, `main`
Kind: P -/
theorem mainRun_of_wholeRun (hrun : wholeRun K steps = some s) :
    mainRun .charDevice (steps.map WholeStep.mainStep) = some s.main := by
  rw [← List.filterMap_eq_map]
  refine run_filterMap (f := Whole.main) ?_ (by simp) hrun
  intro s t s' a hstep ha
  cases ha
  exact (Whole.step_cases hstep).1

/-- A step that is not one of a thread moves no handler: a thread that it creates has done
nothing.
Source: `aesdsocket.c`, `main`
Kind: L -/
theorem conn_eq_of_steps {m m' : MainState} {t : MainStep} {l : List ℕ} (hl : Listed m l)
    (ht : Threaded m) (hstep : m.Steps .charDevice t m') (hown : ∀ tid, t.ofThread tid = none) :
    m'.conn = m.conn := by
  have hsafe : ¬ m.Dangling t := not_dangling hl ht
  funext tid
  cases hstep with
  | faults hbad => exact absurd hbad hsafe
  | @creates _ clfd node c hpc hc =>
      by_cases htid : tid = m.nextThread
      · have hnone : m.threads tid = none := by
          by_contra hth
          obtain ⟨th, hth⟩ := Option.ne_none_iff_exists'.mp hth
          exact Nat.ne_of_lt (ht.thread tid th hth).1 htid
        subst htid
        simp [MainState.conn, MainState.enterReap, MainState.newThread, hnone]
      · simp [MainState.conn, MainState.enterReap, MainState.newThread, htid]
  | @handles tid' ev _ _ _ _ _ _ =>
      have hself := hown tid'
      rw [MainStep.ofThread, if_pos rfl] at hself
      cases hself
  | _ => rfl

/-- **The threads and the device run as `Aesd.Server.System` says.**
Source: `main.c`, the file operations
Kind: P -/
theorem serverRun_of_wholeRun (hrun : wholeRun K steps = some s) :
    serverRun K (steps.filterMap WholeStep.serverStep) = some s.server := by
  refine run_induction (P := fun steps s =>
    serverRun K (steps.filterMap WholeStep.serverStep) = some s.server) rfl ?_ hrun
  intro steps s t s' hrun' ih hstep
  obtain ⟨hmain, hans⟩ := Whole.step_cases hstep
  obtain ⟨⟨l, hl⟩, ht, -⟩ := lifetime_of_run (mainRun_of_wholeRun hrun')
  have hsteps := MainState.steps_of_step hmain
  rw [filterMap_concat]
  cases t with
  | handler tid env ev =>
      refine run_concat.mpr ⟨_, ih, ?_⟩
      obtain ⟨⟨pos, dev⟩, hdev, hr⟩ := Option.map_eq_some_iff.mp hans
      obtain ⟨hdev', hpos⟩ : dev = s'.dev ∧ Function.update s.fPos tid pos = s'.fPos :=
        Prod.mk.injEq .. ▸ hr
      change MainState.Steps .charDevice s.main (.handler tid ev) s'.main at hsteps
      generalize hm : s'.main = m at hsteps
      cases hsteps with
      | faults hbad => exact absurd hbad (not_dangling hl ht)
      | @handles _ _ th h c hth hh hc =>
          have hconn : s.server.conns tid = th.handler := by
            simp [Whole.server, MainState.conn, hth]
          have hconns : s'.main.conn = Function.update s.main.conn tid h := by
            funext j
            by_cases hj : j = tid
            · subst hj
              simp [MainState.conn, hm]
            · simp [MainState.conn, hm, hj]
          simp only [Aesdsocket.step, hconn, hh, Option.bind_some]
          rw [show s.server.fPos tid = s.fPos tid from rfl, show s.server.dev = s.dev from rfl, hdev]
          simp [Whole.server, hconns, hdev', hpos]
  | main ev | signal =>
      change some (s.dev, s.fPos) = _ at hans
      rw [Option.some_inj, Prod.mk.injEq] at hans
      have hconn : s'.main.conn = s.main.conn := conn_eq_of_steps hl ht hsteps fun _ => rfl
      have hsame : s'.server = s.server := by
        rw [Whole.server, Whole.server, hconn, ← hans.1, ← hans.2]
      rw [hsame]
      simpa [WholeStep.serverStep] using ih

/-- The events of a connection are those of its thread.
Source: `aesdsocket.c`, `main`; `handler.c`, `handle_connection`
Kind: L -/
theorem eventsOf_serverSteps (tid : ℕ) (steps : List WholeStep) :
    eventsOf tid (steps.filterMap WholeStep.serverStep) =
      threadEvents tid (steps.map WholeStep.mainStep) := by
  rw [eventsOf_eq_filterMap, threadEvents, List.filterMap_filterMap, List.filterMap_map]
  apply List.filterMap_congr
  intro t _
  cases t <;> rfl

/-- **At the return of `main` nothing is lost.** In every interleaving of `main`, its threads and the
signals, when `main` has returned and its last `reap_threads` found every thread that it tested
done: every thread was joined; no bytes are pending in the device; and the device holds the last
ten entries of a log in which the packets of each client whose calls did not fail are, in their
order, the ones that its chunks ask for, each of them once.
Source: `aesdsocket.c`, `main` and `reap_threads`; `handler.c`, `handle_connection` and
`append_packet`; `main.c`, `aesd_write`
Kind: P -/
theorem nothing_lost_at_return (hrun : wholeRun K steps = some s) (hret : s.main.pc = .returned)
    (htime : Meets (MainState.step .charDevice) MainState.InTime .start
      (steps.map WholeStep.mainStep)) :
    (∀ tid, s.main.threads tid ≠ none → tid ∈ s.main.joined) ∧ s.dev.pending = [] ∧
    ∃ log : List (ℕ × List UInt8), s.dev.commands = (log.map Prod.snd).rtake 10 ∧
      ∀ tid, (∀ ev ∈ threadEvents tid (steps.map WholeStep.mainStep),
          ev.Succeeds ∨ ev = .openDevice false) →
        ∃ actions,
          Understood [] (chunks (threadEvents tid (steps.map WholeStep.mainStep))) actions ∧
          (log.filter (·.1 = tid)).map Prod.snd = actions.filterMap Action.payload := by
  have hmain := mainRun_of_wholeRun hrun
  have hserver := serverRun_of_wholeRun hrun
  obtain ⟨-, ht, -⟩ := lifetime_of_run hmain
  have hpast : s.main.pc.past = true := by rw [hret]; rfl
  have hclean := (clean_shutdown_iff hmain hpast).mpr htime
  obtain ⟨hpending, hcommands, -, -⟩ := packets_kept_in_order hserver
  refine ⟨hclean.1, hpending, packetLog (steps.filterMap WholeStep.serverStep), hcommands, ?_⟩
  intro tid hok
  -- at the end the handler of a thread has finished, and one that was not created has not begun
  have hplace : (s.main.conn tid).pc = .finished ∨ (s.main.conn tid).pc = .malloc := by
    rw [MainState.conn]
    cases hth : s.main.threads tid with
    | none => exact Or.inr rfl
    | some th =>
        have hjoined := hclean.1 tid (by rw [hth]; simp)
        obtain ⟨th', hth', hend, -⟩ := ht.joined tid hjoined
        cases hth.symm.trans hth'
        exact Or.inl hend
  have hquiet : (s.main.conn tid).pc.unstored = [] ∧
      (s.main.conn tid).pc.owed (s.main.conn tid).data = [] := by
    rcases hplace with hpc | hpc <;> rw [hpc] <;> exact ⟨rfl, rfl⟩
  have hconn := handleConnection_of_run hserver tid
  rw [eventsOf_serverSteps] at hconn
  refine ⟨_, (commands_understood hconn hok hquiet.1 _).mpr rfl, ?_⟩
  rw [packetLog_of_conn, eventsOf_serverSteps, written_eq_payloads hok]
  change _ = List.filterMap _ (_ ++ (s.main.conn tid).pc.owed (s.main.conn tid).data)
  rw [hquiet.2, List.append_nil]

/-- Steps of threads.
Source: `aesdsocket.c`, `main`; `handler.c`, `handle_connection`
Kind: D -/
def threadSteps (steps : List ServerStep) : List WholeStep :=
  steps.map fun t => .handler t.conn t.env t.event

/-- A client sends a line and gets it back; its thread is joined; a signal comes, and `main`
returns.
Source: `aesdsocket.c`, `main`; `handler.c`, `handle_connection`
Kind: D -/
def serveOne : List WholeStep :=
  [.main .goOn, .main (.accept (.ok 4)), .main (.malloc true), .main .goOn, .main (.create true)] ++
    threadSteps (arrive 0 [97, 10] ++ commit 0 [97, 10] ++
      [⟨0, .undisturbed, .free⟩, ⟨0, .undisturbed, .malloc .moved fun _ => 0⟩,
        ⟨0, .undisturbed, .read (some [97, 10])⟩, ⟨0, .undisturbed, .send [97, 10] 2⟩,
        ⟨0, .undisturbed, .read (some [])⟩, ⟨0, .undisturbed, .replyReturns true⟩,
        ⟨0, .undisturbed, .recv none⟩, ⟨0, .undisturbed, .closeDevice⟩, ⟨0, .undisturbed, .free⟩,
        ⟨0, .undisturbed, .closeClient⟩, ⟨0, .undisturbed, .setDone⟩]) ++
    List.replicate 6 (.main .goOn) ++ [.signal] ++ List.replicate 3 (.main .goOn)

/-- One client has sent a line, was joined, and its line is in the device when `main` has
returned.
Source: `aesdsocket.c`, `main`; `handler.c`, `handle_connection`
Kind: N+ -/
theorem nothing_lost_at_return_one_client :
    ∃ s, wholeRun .pages4K serveOne = some s ∧ s.main.pc = .returned ∧ 0 ∈ s.main.joined ∧
      s.dev.commands = [[97, 10]] ∧ ∃ actions,
        Understood [] (chunks (threadEvents 0 (serveOne.map WholeStep.mainStep))) actions := by
  obtain ⟨s, hs, hend⟩ := Option.map_eq_some_iff.mp
    (show (wholeRun .pages4K serveOne).map
      (fun s => (s.main.pc, (s.main.threads 0).isSome, s.dev.commands)) =
        some (.returned, true, [[97, 10]]) by decide +kernel)
  simp only [Prod.mk.injEq] at hend
  obtain ⟨hret, hthread, hcommands⟩ := hend
  obtain ⟨hjoined, -, log, -, hlog⟩ := nothing_lost_at_return hs hret (by decide +kernel)
  have hok : ∀ ev ∈ threadEvents 0 (serveOne.map WholeStep.mainStep), ev.Succeeds := by
    decide +kernel
  obtain ⟨actions, hactions, -⟩ := hlog 0 fun ev hev => Or.inl (hok ev hev)
  refine ⟨s, hs, hret, hjoined 0 ?_, hcommands, actions, hactions⟩
  intro hnone
  rw [hnone] at hthread
  cases hthread

end whole

end Aesd.Server
