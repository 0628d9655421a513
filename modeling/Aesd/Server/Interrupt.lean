import Aesd.Server.DataFile
import Aesd.Server.Resources
import Mathlib.Logic.Relation

/-!
# The timer's interruptions

`SIGALRM` is delivered to one of the threads of the process, and `alarm_handler` runs on top of that
thread: the thread itself goes on when the handler has returned, and takes no other `SIGALRM` until
then. So a thread may be interrupted while it holds `file_mutex`, and an activation of
`alarm_handler` may have to wait for another one, on another thread. `Interrupted` is the system of
`Aesd.Server.DataFile` with these interruptions.

Both the threads and `alarm_handler` call `syslog`, and the C library lets in one caller at a time.
`Logging` adds this third lock: a connection may make a log call at any place where it is not about
to lock the mutex, `main` at any time, and `alarm_handler` begins with one.

* `Logging.WaitsFor` — who waits for whom;
* `mutexes_deadlock_free` — a wait is circular exactly when a thread has been interrupted inside of
  a log call; otherwise from every party that is at work the waiting leads to one that can take a
  step; and who holds a mutex object gives it back within five steps of its own.

On the mutexes alone no wait is circular, since `alarm_handler` never waits for a thread there: the
object that it locks is not the one that the threads lock. `SIGINT` and `SIGTERM`, whose handler
makes a log call, too, are left out.
-/

namespace Aesd.Server

open Aesd.Lib Aesd.Driver

/-! ### The system -/

/-- The threads that take a `SIGALRM`.
Source: `handler.c`, `handle_connection`; `aesdsocket.c`, `alarm_handler`
Kind: D -/
inductive Host where
  | main
  | conn (i : ℕ)
  deriving DecidableEq

/-- The server, the activations of `alarm_handler` that run on top of threads, and the number of
activations so far.
Source: `handler.c`, `handle_connection`; `aesdsocket.c`, `alarm_handler`
Kind: D -/
structure Interrupted where
  server : FileServer
  onTop : Host → Option ℕ
  ticks : ℕ

/-- A delivery of `SIGALRM`, a step of a connection, or a step of an activation on its thread.
Source: `handler.c`, `handle_connection`; `aesdsocket.c`, `alarm_handler`
Kind: D -/
inductive InterruptStep where
  | deliver (host : Host)
  | conn (i : ℕ) (ev : Event)
  | alarm (host : Host) (k : ℕ) (ev : AlarmEvent)

/-- `SIGALRM` is blocked on a thread while `alarm_handler` runs there, and the thread waits for it.
Source: `aesdsocket.c`, `main` (`sigaction`, `timer_create`) and `alarm_handler`
Kind: D -/
def Interrupted.step (s : Interrupted) : InterruptStep → Option Interrupted
  | .deliver host =>
      if s.onTop host = none then
        some { s with onTop := Function.update s.onTop host (some s.ticks), ticks := s.ticks + 1 }
      else none
  | .conn i ev =>
      if s.onTop (.conn i) = none then
        (s.server.step (.conn i ev)).map fun server => { s with server := server }
      else none
  | .alarm host k ev =>
      if s.onTop host = some k then
        (s.server.step (.alarm k ev)).map fun server =>
          { s with
            server := server
            onTop := if server.alarms k = .returned then Function.update s.onTop host none
              else s.onTop }
      else none

/-- The system after the steps, from its start.
Source: `handler.c`, `handle_connection`; `aesdsocket.c`, `alarm_handler`
Kind: D -/
def interruptRun (file : Option (List UInt8)) (sent : ℕ → List UInt8) (steps : List InterruptStep) :
    Option Interrupted :=
  run Interrupted.step ⟨.start file sent, fun _ => none, 0⟩ steps

/-- The step as one of the system without interruptions.
Source: `handler.c`, `handle_connection`; `aesdsocket.c`, `alarm_handler`
Kind: D -/
def InterruptStep.fileStep : InterruptStep → Option FileStep
  | .deliver _ => none
  | .conn i ev => some (.conn i ev)
  | .alarm _ k ev => some (.alarm k ev)

/-- The step is one of the party.
Source: `handler.c`, `handle_connection`; `aesdsocket.c`, `alarm_handler`
Kind: D -/
def InterruptStep.ofParty (p : Party) : InterruptStep → Bool
  | .deliver _ => false
  | .conn i _ => p = .conn i
  | .alarm _ k _ => p = .alarm k

/-! ### Who is where -/

/-- The party is about to lock.
Source: `aesdsocket.c`, `alarm_handler`; `handler.c`, `handle_connection`
Kind: D -/
def FileServer.AtLock (s : FileServer) : Party → Prop
  | .conn i => (s.conns i).pc = .lock
  | .alarm k => s.alarms k = .lock

/-- The party can take a step.
Source: `handler.c`, `handle_connection`; `aesdsocket.c`, `alarm_handler`
Kind: D -/
def Interrupted.CanStep (s : Interrupted) (p : Party) : Prop :=
  ∃ t s', InterruptStep.ofParty p t = true ∧ s.step t = some s'

/-- Everything a step can do.
Source: `handler.c`, `handle_connection`; `aesdsocket.c`, `alarm_handler`
Kind: D -/
inductive Interrupted.Steps (s : Interrupted) : InterruptStep → Interrupted → Prop where
  | delivers {host : Host} (hfree : s.onTop host = none) :
      Steps s (.deliver host)
        { s with onTop := Function.update s.onTop host (some s.ticks), ticks := s.ticks + 1 }
  | conn {i : ℕ} {ev : Event} {server : FileServer}
      (hserver : s.server.step (.conn i ev) = some server) :
      Steps s (.conn i ev) { s with server := server }
  | alarm {host : Host} {k : ℕ} {ev : AlarmEvent} {server : FileServer}
      (hk : s.onTop host = some k) (hserver : s.server.step (.alarm k ev) = some server) :
      Steps s (.alarm host k ev)
        { s with
          server := server
          onTop := if server.alarms k = .returned then Function.update s.onTop host none
            else s.onTop }

section interrupts

variable {s s' : Interrupted} {t : InterruptStep} {steps : List InterruptStep}
  {file : Option (List UInt8)} {sent : ℕ → List UInt8}

/-- A step is one of the three.
Source: `handler.c`, `handle_connection`; `aesdsocket.c`, `alarm_handler`
Kind: L -/
theorem Interrupted.steps_of_step (hstep : s.step t = some s') : s.Steps t s' := by
  cases t with
  | deliver host =>
      rw [Interrupted.step, Option.ite_none_right_eq_some] at hstep
      cases hstep.2
      exact .delivers hstep.1
  | conn i ev =>
      rw [Interrupted.step, Option.ite_none_right_eq_some] at hstep
      obtain ⟨server, hserver, rfl⟩ := Option.map_eq_some_iff.mp hstep.2
      exact .conn hserver
  | alarm host k ev =>
      rw [Interrupted.step, Option.ite_none_right_eq_some] at hstep
      obtain ⟨server, hserver, rfl⟩ := Option.map_eq_some_iff.mp hstep.2
      exact .alarm hstep.1 hserver

/-- The server runs as it does without interruptions.
Source: `handler.c`, `handle_connection`; `aesdsocket.c`, `alarm_handler`
Kind: L -/
theorem fileRun_of_interruptRun (hrun : interruptRun file sent steps = some s) :
    fileRun file sent (steps.filterMap InterruptStep.fileStep) = some s.server := by
  refine run_filterMap (f := Interrupted.server) ?_ ?_ hrun
  · intro s t s' a hstep ha
    cases Interrupted.steps_of_step hstep with
    | delivers hfree => simp [InterruptStep.fileStep] at ha
    | conn hserver =>
        obtain rfl := Option.some_inj.mp ha
        exact hserver
    | alarm hk hserver =>
        obtain rfl := Option.some_inj.mp ha
        exact hserver
  · intro s t s' hstep ha
    cases Interrupted.steps_of_step hstep with
    | delivers hfree => rfl
    | conn hserver | alarm hk hserver => simp [InterruptStep.fileStep] at ha

/-! ### The activations on top of threads -/

/-- The activations at work are those on top of threads.
Source: `handler.c`, `handle_connection`; `aesdsocket.c`, `alarm_handler`
Kind: D -/
structure Interrupted.Hosted (s : Interrupted) : Prop where
  top : ∀ host k, s.onTop host = some k → k < s.ticks ∧ s.server.alarms k ≠ .returned
  fresh : ∀ k, s.ticks ≤ k → s.server.alarms k = .lock
  live : ∀ k, k < s.ticks → s.server.alarms k ≠ .returned → ∃ host, s.onTop host = some k
  injective : ∀ host host' k, s.onTop host = some k → s.onTop host' = some k → host = host'

/-- An activation that holds its mutex object is on top of a thread.
Source: `aesdsocket.c`, `alarm_handler`
Kind: L -/
theorem Interrupted.Hosted.hosted {k : ℕ} (hh : s.Hosted)
    (hk : (s.server.alarms k).guarded = true) : ∃ host, s.onTop host = some k := by
  refine hh.live k ?_ fun hend => ?_
  · by_contra hge
    rw [hh.fresh k (Nat.le_of_not_lt hge)] at hk
    cases hk
  · rw [hend] at hk
    cases hk

/-- A step moves no other activation of `alarm_handler`.
Source: `aesdsocket.c`, `alarm_handler`
Kind: L -/
theorem FileServer.step_alarms {s s' : FileServer} {t : FileStep} (hstep : s.step t = some s')
    {k : ℕ} (hk : t.party ≠ .alarm k) : s'.alarms k = s.alarms k := by
  cases t with
  | conn i ev =>
      obtain ⟨h, s₁, -, hans, rfl⟩ := FileServer.step_conn hstep
      exact congrFun hans.frame.2 k
  | alarm j ev =>
      obtain ⟨pc, s₁, -, hans, rfl⟩ := FileServer.step_alarm hstep
      have hkj : k ≠ j := by
        rintro rfl
        exact hk rfl
      change Function.update s₁.alarms j pc k = s.alarms k
      rw [Function.update_of_ne hkj, hans.frame.2]

/-- A delivery puts a new activation on top of a thread.
Source: `aesdsocket.c`, `alarm_handler`
Kind: L -/
theorem Interrupted.Hosted.deliver {host : Host} (hh : s.Hosted) (hfree : s.onTop host = none) :
    Interrupted.Hosted
      { s with onTop := Function.update s.onTop host (some s.ticks), ticks := s.ticks + 1 } := by
  have htop : ∀ host', host' ≠ host → Function.update s.onTop host (some s.ticks) host' =
      s.onTop host' := fun host' hne => Function.update_of_ne hne _ _
  have hnew : ∀ host', s.onTop host' ≠ some s.ticks := fun host' h =>
    Nat.lt_irrefl _ (hh.top host' _ h).1
  refine ⟨fun host' k hk => ?_, fun k hk => hh.fresh k (Nat.le_of_succ_le hk), fun k hk hend => ?_,
    fun host₁ host₂ k h₁ h₂ => ?_⟩
  · by_cases hhost : host' = host
    · subst hhost
      obtain rfl : s.ticks = k := by simpa using hk
      refine ⟨Nat.lt_succ_self _, ?_⟩
      rw [hh.fresh _ le_rfl]
      simp
    · change Function.update _ _ _ host' = _ at hk
      rw [htop host' hhost] at hk
      exact ⟨Nat.lt_succ_of_lt (hh.top host' k hk).1, (hh.top host' k hk).2⟩
  · rcases Nat.lt_succ_iff_lt_or_eq.mp hk with hlt | rfl
    · obtain ⟨host', hhost'⟩ := hh.live k hlt hend
      refine ⟨host', ?_⟩
      rw [← hhost']
      apply htop
      rintro rfl
      rw [hfree] at hhost'
      cases hhost'
    · exact ⟨host, Function.update_self _ _ _⟩
  · change Function.update _ _ _ host₁ = _ at h₁
    change Function.update _ _ _ host₂ = _ at h₂
    by_cases hhost₁ : host₁ = host
    · by_cases hhost₂ : host₂ = host
      · rw [hhost₁, hhost₂]
      · subst hhost₁
        rw [htop host₂ hhost₂] at h₂
        obtain rfl : s.ticks = k := by simpa using h₁
        exact absurd h₂ (hnew host₂)
    · rw [htop host₁ hhost₁] at h₁
      by_cases hhost₂ : host₂ = host
      · subst hhost₂
        obtain rfl : s.ticks = k := by simpa using h₂
        exact absurd h₁ (hnew host₁)
      · rw [htop host₂ hhost₂] at h₂
        exact hh.injective host₁ host₂ k h₁ h₂

/-- A step of an activation that is on top of a thread; the last one leaves the thread.
Source: `aesdsocket.c`, `alarm_handler`
Kind: L -/
theorem Interrupted.Hosted.alarm {host : Host} {k : ℕ} {ev : AlarmEvent} {server : FileServer}
    (hh : s.Hosted) (hk : s.onTop host = some k)
    (hstep : s.server.step (.alarm k ev) = some server) :
    Interrupted.Hosted
      { s with
        server := server
        onTop := if server.alarms k = .returned then Function.update s.onTop host none
          else s.onTop } := by
  have hother : ∀ j, j ≠ k → server.alarms j = s.server.alarms j := fun j hj =>
    FileServer.step_alarms hstep fun h => hj (Party.alarm.inj h).symm
  have htop : ∀ host' j, (if server.alarms k = .returned then Function.update s.onTop host none
      else s.onTop) host' = some j ↔
        s.onTop host' = some j ∧ (server.alarms k = .returned → host' ≠ host) := by
    intro host' j
    split_ifs with hend
    · by_cases hhost : host' = host
      · simp [hhost, hend]
      · simp [hhost]
    · simp [hend]
  refine ⟨fun host' j hj => ?_, fun j hj => ?_, fun j hj hend => ?_,
    fun host₁ host₂ j h₁ h₂ => ?_⟩
  · obtain ⟨hon, hleft⟩ := (htop host' j).mp hj
    refine ⟨(hh.top host' j hon).1, fun hend => ?_⟩
    by_cases hjk : j = k
    · subst hjk
      exact hleft hend (hh.injective host' host j hon hk)
    · change server.alarms j = _ at hend
      rw [hother j hjk] at hend
      exact (hh.top host' j hon).2 hend
  · have hjk : j ≠ k := by
      rintro rfl
      exact Nat.not_lt.mpr hj (hh.top host j hk).1
    exact (hother j hjk).trans (hh.fresh j hj)
  · change server.alarms j ≠ .returned at hend
    by_cases hjk : j = k
    · subst hjk
      exact ⟨host, (htop host j).mpr ⟨hk, fun h => absurd h hend⟩⟩
    · rw [hother j hjk] at hend
      obtain ⟨host', hhost'⟩ := hh.live j hj hend
      refine ⟨host', (htop host' j).mpr ⟨hhost', fun _ => ?_⟩⟩
      rintro rfl
      exact hjk (Option.some.inj (hhost'.symm.trans hk))
  · exact hh.injective host₁ host₂ j ((htop host₁ j).mp h₁).1 ((htop host₂ j).mp h₂).1

/-- Every step keeps the activations at work on top of threads.
Source: `handler.c`, `handle_connection`; `aesdsocket.c`, `alarm_handler`
Kind: L -/
theorem Interrupted.Hosted.step (hh : s.Hosted) (hstep : s.step t = some s') : s'.Hosted := by
  cases Interrupted.steps_of_step hstep with
  | delivers hfree => exact hh.deliver hfree
  | @conn i ev server hserver =>
      have hsame : server.alarms = s.server.alarms :=
        funext fun k => FileServer.step_alarms hserver (by simp [FileStep.party])
      refine ⟨?_, ?_, ?_, hh.injective⟩
      · simp only [hsame]
        exact hh.top
      · simp only [hsame]
        exact hh.fresh
      · simp only [hsame]
        exact hh.live
  | alarm hk hserver => exact hh.alarm hk hserver

/-- So it is along every run.
Source: `handler.c`, `handle_connection`; `aesdsocket.c`, `alarm_handler`
Kind: L -/
theorem hosted_of_run (hrun : interruptRun file sent steps = some s) : s.Hosted := by
  refine run_induction (P := fun _ s => s.Hosted) ?_ ?_ hrun
  · exact ⟨nofun, fun _ _ => rfl, nofun, nofun⟩
  · intro steps s t s' _ hh hstep
    exact hh.step hstep

/-! ### Who can go on -/

/-- A connection that is neither interrupted nor about to lock goes on, if with a call that
fails.
Source: `aesdsocket.c`, `alarm_handler`; `handler.c`, `handle_connection`
Kind: L -/
theorem Interrupted.canStep_conn {i : ℕ} (htop : s.onTop (.conn i) = none)
    (hpc : (s.server.conns i).pc ≠ .finished)
    (hlock : (s.server.conns i).pc = .lock → s.server.mutex .fileMutex = none) :
    s.CanStep (.conn i) := by
  have hgo : ∀ ev, ((s.server.conns i).step .dataFile ev).isSome = true →
      (s.server.answer i ev).isSome = true → s.CanStep (.conn i) := by
    intro ev hh hans
    obtain ⟨h, hh⟩ := Option.isSome_iff_exists.mp hh
    obtain ⟨server, hans⟩ := Option.isSome_iff_exists.mp hans
    have hserver : s.server.step (.conn i ev) =
        some { server with conns := Function.update server.conns i h } := by
      rw [FileServer.step, hh, Option.bind_some, hans]
      rfl
    have hstep : s.step (.conn i ev) =
        some { s with server := { server with conns := Function.update server.conns i h } } := by
      rw [Interrupted.step, if_pos htop, hserver]
      rfl
    exact ⟨_, _, by simp [InterruptStep.ofParty], hstep⟩
  cases hat : (s.server.conns i).pc with
  | finished => exact absurd hat hpc
  | lock =>
      apply hgo .lock (by simp [Handler.step, hat])
      simp [FileServer.answer, FileServer.lock, Party.mutex, hlock hat]
  | malloc => exact hgo (.malloc .fail fun _ => 0) (by simp [Handler.step, hat]) rfl
  | remalloc site => exact hgo (.malloc .fail fun _ => 0) (by simp [Handler.step, hat]) rfl
  | openDevice =>
      exact hgo (.openDevice false) (by simp [Handler.step, hat]) (by simp [FileServer.answer])
  | recv => exact hgo (.recv none) (by simp [Handler.step, hat]) rfl
  | grow chunk =>
      apply hgo (.realloc .fail fun _ => 0) ?_ rfl
      simp only [Handler.step, hat, realloc, if_true, Option.isSome_map]
      split_ifs <;> rfl
  | ioctl request => exact hgo (.ioctl request false) (by simp [Handler.step, hat]) rfl
  | append pc =>
      cases pc with
      | openFile => exact hgo (.openAppend false) (by simp [Handler.step, hat, appendPacket]) rfl
      | write =>
          exact hgo (.write (s.server.conns i).data none)
            (by simp [Handler.step, hat, appendPacket]) rfl
      | close ok => exact hgo .closeAppend (by simp [Handler.step, hat, appendPacket]) rfl
      | returned ok =>
          exact hgo (.appendReturns (s.server.conns i).data ok) (by simp [Handler.step, hat]) rfl
  | reply site pc =>
      cases pc with
      | read => exact hgo (.read none) (by simp [Handler.step, hat, writeToClient]) rfl
      | send chunk => exact hgo (.send chunk 0) (by simp [Handler.step, hat, writeToClient]) rfl
      | returned ok => exact hgo (.replyReturns ok) (by simp [Handler.step, hat]) rfl
  | unlock ok => exact hgo .unlock (by simp [Handler.step, hat]) rfl
  | reset site => exact hgo .free (by simp [Handler.step, hat]) rfl
  | freeLast | abortFree => exact hgo .free (by simp [Handler.step, hat]) rfl
  | closeDevice => exact hgo .closeDevice (by simp [Handler.step, hat]) rfl
  | closeClient => exact hgo .closeClient (by simp [Handler.step, hat]) rfl
  | abortClose allocated => exact hgo .closeClient (by simp [Handler.step, hat]) rfl
  | setDone => exact hgo .setDone (by simp [Handler.step, hat]) rfl

/-- An activation that waits for nobody goes on.
Source: `aesdsocket.c`, `alarm_handler`
Kind: L -/
theorem Interrupted.canStep_alarm {host : Host} {k : ℕ} (hh : s.Hosted)
    (hk : s.onTop host = some k)
    (hlock : s.server.alarms k = .lock → s.server.mutex .serverInfo = none) :
    s.CanStep (.alarm k) := by
  have hgo : ∀ ev, (alarmHandler (s.server.alarms k) ev).isSome = true →
      (s.server.alarmAnswer k ev).isSome = true → s.CanStep (.alarm k) := by
    intro ev hpc hans
    obtain ⟨pc, hpc⟩ := Option.isSome_iff_exists.mp hpc
    obtain ⟨server, hans⟩ := Option.isSome_iff_exists.mp hans
    refine ⟨.alarm host k ev, ?_⟩
    simp [InterruptStep.ofParty, Interrupted.step, hk, FileServer.step, hpc, hans]
  cases hat : s.server.alarms k with
  | returned => exact absurd hat (hh.top host k hk).2
  | lock =>
      apply hgo .lock (by simp [alarmHandler, hat])
      simp [FileServer.alarmAnswer, FileServer.lock, Party.mutex, hlock hat]
  | openFile => exact hgo (.openAppend false) (by simp [alarmHandler, hat]) rfl
  | dprintf =>
      exact hgo (.dprintf [] 0) (by simp [alarmHandler, hat]) (by simp [FileServer.alarmAnswer])
  | close => exact hgo .close (by simp [alarmHandler, hat]) rfl
  | unlock => exact hgo .unlock (by simp [alarmHandler, hat]) rfl

/-! ### How long a mutex object is held -/

/-- The calls that `alarm_handler` can still make.
Source: `aesdsocket.c`, `alarm_handler`; `handler.c`, `handle_connection`
Kind: D -/
def AlarmPc.rank : AlarmPc → ℕ
  | .lock => 5
  | .openFile => 4
  | .dprintf => 3
  | .close => 2
  | .unlock => 1
  | .returned => 0

/-- The steps of a party that is inside up to its unlock.
Source: `aesdsocket.c`, `alarm_handler`; `handler.c`, `handle_connection`
Kind: D -/
def FileServer.sectionLeft (s : FileServer) : Party → ℕ
  | .conn i => (s.conns i).pc.rank - 9
  | .alarm k => (s.alarms k).rank

/-- Every call of `alarm_handler` brings it nearer to its return.
Source: `aesdsocket.c`, `alarm_handler`; `handler.c`, `handle_connection`
Kind: L -/
theorem alarmHandler_rank {pc pc' : AlarmPc} {ev : AlarmEvent}
    (hstep : alarmHandler pc ev = some pc') : pc'.rank + 1 ≤ pc.rank := by
  unfold alarmHandler at hstep
  split at hstep
  · cases hstep
    simp [AlarmPc.rank]
  · rename_i ok
    cases hstep
    cases ok <;> simp [AlarmPc.rank]
  · cases hstep
    simp [AlarmPc.rank]
  · cases hstep
    simp [AlarmPc.rank]
  · cases hstep
    simp [AlarmPc.rank]
  · cases hstep

/-- Inside, a connection reads nothing.
Source: `handler.c`, `handle_connection`
Kind: L -/
theorem Handler.Steps.fetches_eq {h h' : Handler} {ev : Event} (hstep : h.Steps .dataFile ev h')
    (hin : h.pc.guarded = true) : ev.fetches = false := by
  cases hstep with
  | appends hpc hev =>
      rcases appendPacket_event hev with ⟨ok, rfl⟩ | ⟨bytes, result, rfl⟩ | rfl <;> rfl
  | appendReturns hpc => rfl
  | unlocks hpc => rfl
  | _ hpc =>
      rw [hpc] at hin
      cases hin

/-- Who is inside has between one and five steps to make.
Source: `handler.c`, `handle_connection`; `aesdsocket.c`, `alarm_handler`
Kind: L -/
theorem FileServer.Inside.sectionLeft_bounds {s : FileServer} {p : Party} (hin : s.Inside p) :
    0 < s.sectionLeft p ∧ s.sectionLeft p ≤ 5 := by
  cases p with
  | conn i =>
      simp only [FileServer.Inside] at hin
      simp only [FileServer.sectionLeft]
      cases hpc : (s.conns i).pc with
      | append pc => cases pc <;> simp [Pc.rank, AppendPc.rank]
      | unlock ok => simp [Pc.rank]
      | _ => simp [hpc, Pc.guarded] at hin
  | alarm k =>
      simp only [FileServer.Inside] at hin
      simp only [FileServer.sectionLeft]
      cases hpc : s.alarms k with
      | lock | returned => simp [hpc, AlarmPc.guarded] at hin
      | _ => simp [AlarmPc.rank]

/-- A step brings its party nearer to its unlock, and nobody else.
Source: `handler.c`, `handle_connection`; `aesdsocket.c`, `alarm_handler`
Kind: L -/
theorem FileServer.sectionLeft_step {s s' : FileServer} {t : FileStep} (hstep : s.step t = some s')
    {p : Party} (hin : s.Inside p) (hin' : s'.Inside p) :
    s'.sectionLeft p + (decide (t.party = p)).toNat ≤ s.sectionLeft p := by
  have hpos := hin'.sectionLeft_bounds.1
  cases t with
  | conn i ev =>
      obtain ⟨h, s₁, hh, hans, rfl⟩ := FileServer.step_conn hstep
      obtain ⟨hconns, halarms⟩ := hans.frame
      cases p with
      | alarm k => simp [FileServer.sectionLeft, FileStep.party, halarms]
      | conn j =>
          by_cases hj : j = i
          · subst hj
            have hsteps := Handler.steps_of_step hh
            have hrank := hsteps.rank
            rw [hsteps.fetches_eq hin] at hrank
            simp only [FileServer.sectionLeft, Function.update_self] at hpos ⊢
            simp only [FileStep.party, decide_true, Bool.toNat_true, Bool.toNat_false] at hrank ⊢
            omega
          · simp [FileServer.sectionLeft, FileStep.party, hconns, hj, Ne.symm hj]
  | alarm k ev =>
      obtain ⟨pc, s₁, hpc, hans, rfl⟩ := FileServer.step_alarm hstep
      obtain ⟨hconns, halarms⟩ := hans.frame
      cases p with
      | conn i => simp [FileServer.sectionLeft, FileStep.party, hconns]
      | alarm j =>
          by_cases hj : j = k
          · subst hj
            have hrank := alarmHandler_rank hpc
            simpa [FileServer.sectionLeft, FileStep.party] using hrank
          · simp [FileServer.sectionLeft, FileStep.party, halarms, hj, Ne.symm hj]

/-- A step brings its party nearer to its unlock, and nobody else.
Source: `handler.c`, `handle_connection`; `aesdsocket.c`, `alarm_handler`
Kind: L -/
theorem Interrupted.sectionLeft_step {p : Party} (hstep : s.step t = some s')
    (hin : s.server.Inside p) (hin' : s'.server.Inside p) :
    s'.server.sectionLeft p + (InterruptStep.ofParty p t).toNat ≤ s.server.sectionLeft p := by
  cases Interrupted.steps_of_step hstep with
  | delivers hfree => exact le_rfl
  | conn hserver | alarm hk hserver =>
      have hle := FileServer.sectionLeft_step hserver hin hin'
      simpa [InterruptStep.ofParty, FileStep.party, eq_comm] using hle

end interrupts

/-! ### The log calls -/

/-- The callers of `syslog`.
Source: `aesdsocket.c`, `main` and `alarm_handler`; `handler.c`, `handle_connection`
Kind: D -/
inductive Caller where
  | main
  | party (p : Party)
  deriving DecidableEq

/-- A thread as a caller.
Source: none: infrastructure
Kind: D -/
def Host.caller : Host → Caller
  | .main => .main
  | .conn i => .party (.conn i)

/-- Where a caller is: in no log call, before the lock of the C library, or inside.
Source: none: infrastructure
Kind: D -/
inductive LogPlace where
  | silent
  | asks
  | inside
  deriving DecidableEq

/-- The system with its interruptions, the callers in their log calls, and who is inside.
Source: `aesdsocket.c`, `main` and `alarm_handler`; `handler.c`, `handle_connection`
Kind: D -/
structure Logging where
  sys : Interrupted
  place : Caller → LogPlace
  holder : Option Caller

/-- A step of the system, or one of the three steps of a log call.
Source: `aesdsocket.c`, `main` and `alarm_handler`; `handler.c`, `handle_connection`
Kind: D -/
inductive LogStep where
  | plain (t : InterruptStep)
  | asks (p : Caller)
  | enters (p : Caller)
  | leaves (p : Caller)

/-- The caller has begun, has not ended and is not interrupted.
Source: `aesdsocket.c`, `main` and `alarm_handler`; `handler.c`, `handle_connection`
Kind: D -/
def Interrupted.Runs (s : Interrupted) : Caller → Prop
  | .main => s.onTop .main = none
  | .party (.conn i) => s.onTop (.conn i) = none ∧ (s.server.conns i).pc ≠ .finished
  | .party (.alarm k) => k < s.ticks ∧ s.server.alarms k ≠ .returned

/-- Whether a caller runs is found in the state.
Source: none: infrastructure
Kind: D -/
instance (s : Interrupted) (p : Caller) : Decidable (s.Runs p) :=
  match p with
  | .main => inferInstanceAs (Decidable (_ = _))
  | .party (.conn _) => inferInstanceAs (Decidable (_ ∧ _))
  | .party (.alarm _) => inferInstanceAs (Decidable (_ ∧ _))

/-- The caller is about to lock a mutex object.
Source: `handler.c`, `handle_connection`; `aesdsocket.c`, `alarm_handler`
Kind: D -/
def Caller.AtLock (s : FileServer) : Caller → Prop
  | .main => False
  | .party p => s.AtLock p

/-- Whether a caller is about to lock is found in its place.
Source: none: infrastructure
Kind: D -/
instance (s : FileServer) (p : Caller) : Decidable (p.AtLock s) :=
  match p with
  | .main => inferInstanceAs (Decidable False)
  | .party (.conn _) => inferInstanceAs (Decidable (_ = _))
  | .party (.alarm _) => inferInstanceAs (Decidable (_ = _))

/-- A caller in a log call does nothing else, and one at a time is inside. The first call of
`alarm_handler` is a log call.
Source: `aesdsocket.c`, `main` and `alarm_handler`; `handler.c`, `handle_connection`
Kind: D -/
def Logging.step (s : Logging) : LogStep → Option Logging
  | .plain (.deliver host) =>
      (s.sys.step (.deliver host)).map fun sys =>
        { s with
          sys := sys
          place := Function.update s.place (.party (.alarm s.sys.ticks)) .asks }
  | .plain (.conn i ev) =>
      if s.place (.party (.conn i)) = .silent then
        (s.sys.step (.conn i ev)).map fun sys => { s with sys := sys }
      else none
  | .plain (.alarm host k ev) =>
      if s.place (.party (.alarm k)) = .silent then
        (s.sys.step (.alarm host k ev)).map fun sys => { s with sys := sys }
      else none
  | .asks p =>
      if s.sys.Runs p ∧ s.place p = .silent ∧ ¬ p.AtLock s.sys.server then
        some { s with place := Function.update s.place p .asks }
      else none
  | .enters p =>
      if s.sys.Runs p ∧ s.place p = .asks ∧ s.holder = none then
        some { s with place := Function.update s.place p .inside, holder := some p }
      else none
  | .leaves p =>
      if s.sys.Runs p ∧ s.place p = .inside then
        some { s with place := Function.update s.place p .silent, holder := none }
      else none

/-- The system after the steps, from its start, when nobody is in a log call.
Source: `aesdsocket.c`, `main`
Kind: D -/
def logRun (file : Option (List UInt8)) (sent : ℕ → List UInt8) (steps : List LogStep) :
    Option Logging :=
  run Logging.step ⟨⟨.start file sent, fun _ => none, 0⟩, fun _ => .silent, none⟩ steps

/-- The step as one of the system without log calls.
Source: none: infrastructure
Kind: D -/
def LogStep.interruptStep : LogStep → Option InterruptStep
  | .plain t => some t
  | _ => none

/-- The step is one of the caller, and not the beginning of a log call.
Source: none: infrastructure
Kind: D -/
def LogStep.ofCaller (p : Caller) : LogStep → Bool
  | .plain t =>
      match p with
      | .main => false
      | .party q => InterruptStep.ofParty q t
  | .asks _ => false
  | .enters q | .leaves q => p = q

/-- The step is one of the party's own code, and not of a log call.
Source: none: infrastructure
Kind: D -/
def LogStep.ofParty (p : Party) : LogStep → Bool
  | .plain t => InterruptStep.ofParty p t
  | _ => false

/-! ### Who waits for whom -/

/-- A thread waits for the activation of `alarm_handler` on top of it, who is about to lock a mutex
object waits for the party that holds it, and who is about to log waits for who is inside.
Source: `aesdsocket.c`, `alarm_handler`; `handler.c`, `handle_connection`
Kind: D -/
inductive Logging.WaitsFor (s : Logging) : Caller → Caller → Prop where
  | interrupted {host : Host} {k : ℕ} (htop : s.sys.onTop host = some k) :
      WaitsFor s host.caller (.party (.alarm k))
  | blocked {p q : Party} (hsilent : s.place (.party p) = .silent)
      (hlock : s.sys.server.AtLock p) (hheld : s.sys.server.mutex p.mutex = some q) :
      WaitsFor s (.party p) (.party q)
  | logs {p q : Caller} (hasks : s.place p = .asks) (hheld : s.holder = some q) : WaitsFor s p q

/-- A connection that has not ended, an activation that was delivered and has not returned, or
`main` in a log call.
Source: `aesdsocket.c`, `main` and `alarm_handler`; `handler.c`, `handle_connection`
Kind: D -/
def Logging.AtWork (s : Logging) : Caller → Prop
  | .main => s.place .main ≠ .silent
  | .party (.conn i) => (s.sys.server.conns i).pc ≠ .finished
  | .party (.alarm k) => ∃ host, s.sys.onTop host = some k

/-- The caller can take a step.
Source: none: infrastructure
Kind: D -/
def Logging.CanStep (s : Logging) (p : Caller) : Prop :=
  ∃ t s', LogStep.ofCaller p t = true ∧ s.step t = some s'

/-- A thread has been interrupted inside of a log call.
Source: `aesdsocket.c`, `alarm_handler`
Kind: D -/
def Logging.Trapped (s : Logging) : Prop :=
  ∃ host, s.sys.onTop host ≠ none ∧ s.holder = some host.caller

/-- Everything a step can do.
Source: none: infrastructure
Kind: D -/
inductive Logging.Steps (s : Logging) : LogStep → Logging → Prop where
  | delivers {host : Host} {sys : Interrupted} (hsys : s.sys.step (.deliver host) = some sys) :
      Steps s (.plain (.deliver host))
        { s with
          sys := sys
          place := Function.update s.place (.party (.alarm s.sys.ticks)) .asks }
  | conn {i : ℕ} {ev : Event} {sys : Interrupted}
      (hsilent : s.place (.party (.conn i)) = .silent)
      (hsys : s.sys.step (.conn i ev) = some sys) :
      Steps s (.plain (.conn i ev)) { s with sys := sys }
  | alarm {host : Host} {k : ℕ} {ev : AlarmEvent} {sys : Interrupted}
      (hsilent : s.place (.party (.alarm k)) = .silent)
      (hsys : s.sys.step (.alarm host k ev) = some sys) :
      Steps s (.plain (.alarm host k ev)) { s with sys := sys }
  | asks {p : Caller} (hruns : s.sys.Runs p) (hsilent : s.place p = .silent) :
      Steps s (.asks p) { s with place := Function.update s.place p .asks }
  | enters {p : Caller} (hruns : s.sys.Runs p) (hasks : s.place p = .asks)
      (hfree : s.holder = none) :
      Steps s (.enters p)
        { s with place := Function.update s.place p .inside, holder := some p }
  | leaves {p : Caller} (hruns : s.sys.Runs p) (hinside : s.place p = .inside) :
      Steps s (.leaves p) { s with place := Function.update s.place p .silent, holder := none }

section logging

variable {s s' : Logging} {t : LogStep} {steps : List LogStep} {file : Option (List UInt8)}
  {sent : ℕ → List UInt8}

/-- A step is one of the six.
Source: none: infrastructure
Kind: L -/
theorem Logging.steps_of_step (hstep : s.step t = some s') : s.Steps t s' := by
  cases t with
  | plain t =>
      cases t with
      | deliver host =>
          obtain ⟨sys, hsys, rfl⟩ := Option.map_eq_some_iff.mp hstep
          exact .delivers hsys
      | conn i ev =>
          rw [Logging.step, Option.ite_none_right_eq_some] at hstep
          obtain ⟨sys, hsys, rfl⟩ := Option.map_eq_some_iff.mp hstep.2
          exact .conn hstep.1 hsys
      | alarm host k ev =>
          rw [Logging.step, Option.ite_none_right_eq_some] at hstep
          obtain ⟨sys, hsys, rfl⟩ := Option.map_eq_some_iff.mp hstep.2
          exact .alarm hstep.1 hsys
  | asks p =>
      rw [Logging.step, Option.ite_none_right_eq_some] at hstep
      obtain ⟨⟨hruns, hsilent, -⟩, rfl⟩ := hstep.imp_right Option.some.inj
      exact .asks hruns hsilent
  | enters p =>
      rw [Logging.step, Option.ite_none_right_eq_some] at hstep
      obtain ⟨⟨hruns, hasks, hfree⟩, rfl⟩ := hstep.imp_right Option.some.inj
      exact .enters hruns hasks hfree
  | leaves p =>
      rw [Logging.step, Option.ite_none_right_eq_some] at hstep
      obtain ⟨⟨hruns, hinside⟩, rfl⟩ := hstep.imp_right Option.some.inj
      exact .leaves hruns hinside

/-- A step is one of the system without log calls, or leaves that system alone.
Source: none: infrastructure
Kind: L -/
theorem Logging.sys_of_step (hstep : s.step t = some s') :
    (∃ u, t.interruptStep = some u ∧ s.sys.step u = some s'.sys) ∨
      (t.interruptStep = none ∧ s'.sys = s.sys) := by
  cases Logging.steps_of_step hstep with
  | delivers hsys | conn _ hsys | alarm _ hsys => exact .inl ⟨_, rfl, hsys⟩
  | asks _ _ | enters _ _ _ | leaves _ _ => exact .inr ⟨rfl, rfl⟩

/-- The threads and the timer run as they do without log calls.
Source: none: infrastructure
Kind: L -/
theorem interruptRun_of_logRun (hrun : logRun file sent steps = some s) :
    interruptRun file sent (steps.filterMap LogStep.interruptStep) = some s.sys := by
  refine run_filterMap (f := Logging.sys) ?_ ?_ hrun
  · intro s t s' a hstep ha
    rcases Logging.sys_of_step hstep with ⟨u, hu, hsys⟩ | ⟨hnone, -⟩
    · cases ha.symm.trans hu
      exact hsys
    · cases ha.symm.trans hnone
  · intro s t s' hstep ha
    rcases Logging.sys_of_step hstep with ⟨u, hu, -⟩ | ⟨-, hsame⟩
    · cases ha.symm.trans hu
    · exact hsame

/-! ### The callers in their log calls -/

/-- The lock of the C library is held by who is inside; who is in a log call is at work; and an
activation that has interrupted a thread inside of a log call is before the lock.
Source: `aesdsocket.c`, `alarm_handler`
Kind: D -/
structure Logging.Kept (s : Logging) : Prop where
  holder : ∀ p, s.holder = some p ↔ s.place p = .inside
  working : ∀ p, s.place p ≠ .silent → s.AtWork p
  trapped : ∀ host k, s.sys.onTop host = some k → s.holder = some host.caller →
    s.place (.party (.alarm k)) = .asks

/-- A step moves no other connection.
Source: none: infrastructure
Kind: L -/
theorem FileServer.step_conns {s s' : FileServer} {t : FileStep} (hstep : s.step t = some s')
    {i : ℕ} (hi : t.party ≠ .conn i) : s'.conns i = s.conns i := by
  cases t with
  | conn j ev =>
      obtain ⟨h, s₁, -, hans, rfl⟩ := FileServer.step_conn hstep
      have hij : i ≠ j := by
        rintro rfl
        exact hi rfl
      change Function.update s₁.conns j h i = s.conns i
      rw [Function.update_of_ne hij, hans.frame.1]
  | alarm j ev =>
      obtain ⟨pc, s₁, -, hans, rfl⟩ := FileServer.step_alarm hstep
      exact congrFun hans.frame.1 i

/-- Who is not inside of a log call does not hold the lock of the C library.
Source: none: infrastructure
Kind: L -/
theorem Logging.Kept.holder_ne (hk : s.Kept) {p : Caller} {at_ : LogPlace}
    (hp : s.place p = at_) (hne : at_ ≠ .inside) : s.holder ≠ some p := by
  intro hheld
  exact hne (hp.symm.trans ((hk.holder p).mp hheld))

/-- A caller that runs and is in a log call is at work.
Source: none: infrastructure
Kind: L -/
theorem Logging.atWork_of_runs {p : Caller} (hh : s.sys.Hosted) (hruns : s.sys.Runs p)
    (hp : s.place p ≠ .silent) : s.AtWork p := by
  cases p with
  | main => exact hp
  | party p =>
      cases p with
      | conn i => exact hruns.2
      | alarm k => exact hh.live k hruns.1 hruns.2

/-- The timer interrupts a thread, and `alarm_handler` begins with a log call.
Source: `aesdsocket.c`, `alarm_handler`
Kind: L -/
theorem Logging.Kept.deliver (hk : s.Kept) (hh : s.sys.Hosted) {host : Host}
    (hfree : s.sys.onTop host = none) :
    Logging.Kept { s with
      sys := { s.sys with
        onTop := Function.update s.sys.onTop host (some s.sys.ticks)
        ticks := s.sys.ticks + 1 }
      place := Function.update s.place (.party (.alarm s.sys.ticks)) .asks } := by
  have hnew : ∀ host', s.sys.onTop host' ≠ some s.sys.ticks := fun host' h =>
    Nat.lt_irrefl _ (hh.top host' _ h).1
  have hsilent : s.place (.party (.alarm s.sys.ticks)) = .silent := by
    by_contra hplace
    obtain ⟨host', htop⟩ := hk.working _ hplace
    exact hnew host' htop
  refine ⟨fun p => ?_, fun p hp => ?_, fun host' k htop hheld => ?_⟩
  · by_cases hp : p = .party (.alarm s.sys.ticks)
    · subst hp
      simpa using hk.holder_ne hsilent (by simp)
    · simpa [hp] using hk.holder p
  · match p with
    | .main => exact hp
    | .party (.conn i) => exact hk.working (.party (.conn i)) (by simpa using hp)
    | .party (.alarm k) =>
        by_cases hkt : k = s.sys.ticks
        · subst hkt
          exact ⟨host, Function.update_self _ _ _⟩
        · obtain ⟨host', htop⟩ := hk.working (.party (.alarm k)) (by simpa [hkt] using hp)
          refine ⟨host', ?_⟩
          have hne : host' ≠ host := by
            rintro rfl
            rw [hfree] at htop
            cases htop
          simpa [hne] using htop
  · by_cases hhost : host' = host
    · subst hhost
      obtain rfl : s.sys.ticks = k := by simpa using htop
      exact Function.update_self _ _ _
    · have htop' : s.sys.onTop host' = some k := by simpa [hhost] using htop
      have hne : k ≠ s.sys.ticks := by
        rintro rfl
        exact hnew host' htop'
      simpa [hne] using hk.trapped host' k htop' hheld

/-- A step of the system by a party that is in no log call, and leaves alone what is on top of the
other threads.
Source: none: infrastructure
Kind: L -/
theorem Logging.Kept.plain (hk : s.Kept) {p : Party} {sys : Interrupted}
    (hsilent : s.place (.party p) = .silent)
    (hconns : ∀ i, p ≠ .conn i → sys.server.conns i = s.sys.server.conns i)
    (htop : ∀ host k, sys.onTop host = some k → s.sys.onTop host = some k)
    (htop' : ∀ host k, p ≠ .alarm k → s.sys.onTop host = some k → sys.onTop host = some k) :
    Logging.Kept { s with sys := sys } := by
  refine ⟨hk.holder, fun q hq => ?_, fun host k hon hheld => ?_⟩
  swap
  · exact hk.trapped host k (htop host k hon) hheld
  have hne : ∀ a, q = .party a → p ≠ a := by
    rintro a rfl rfl
    exact hq hsilent
  have hwork := hk.working q hq
  match q with
  | .main => exact hq
  | .party (.conn i) =>
      change (sys.server.conns i).pc ≠ _
      rw [hconns i (hne _ rfl)]
      exact hwork
  | .party (.alarm k) =>
      obtain ⟨host, hon⟩ := hwork
      exact ⟨host, htop' host k (hne _ rfl) hon⟩

/-- A caller comes to its log call.
Source: none: infrastructure
Kind: L -/
theorem Logging.Kept.asks (hk : s.Kept) (hh : s.sys.Hosted) {p : Caller} (hruns : s.sys.Runs p)
    (hsilent : s.place p = .silent) :
    Logging.Kept { s with place := Function.update s.place p .asks } := by
  refine ⟨fun q => ?_, fun q hq => ?_, fun host k htop hheld => ?_⟩
  · by_cases hqp : q = p
    · subst hqp
      simpa using hk.holder_ne hsilent (by simp)
    · simpa [hqp] using hk.holder q
  · by_cases hqp : q = p
    · subst hqp
      exact Logging.atWork_of_runs hh hruns hq
    · have hwork := hk.working q (by simpa [hqp] using hq)
      match q with
      | .main => exact hq
      | .party (.conn i) => exact hwork
      | .party (.alarm k) => exact hwork
  · have hasks := hk.trapped host k htop hheld
    by_cases hqp : .party (.alarm k) = p
    · subst hqp
      exact Function.update_self _ _ _
    · simpa [hqp] using hasks

/-- A caller gets the lock of the C library.
Source: none: infrastructure
Kind: L -/
theorem Logging.Kept.enters (hk : s.Kept) (hh : s.sys.Hosted) {p : Caller} (hruns : s.sys.Runs p)
    (hfree : s.holder = none) :
    Logging.Kept { s with place := Function.update s.place p .inside, holder := some p } := by
  refine ⟨fun q => ?_, fun q hq => ?_, fun host k htop hheld => ?_⟩
  · by_cases hqp : q = p
    · subst hqp
      simp
    · have hout : s.place q ≠ .inside := by
        rw [Ne, ← hk.holder, hfree]
        simp
      simpa [hqp, Ne.symm hqp] using hout
  · by_cases hqp : q = p
    · subst hqp
      exact Logging.atWork_of_runs hh hruns hq
    · have hwork := hk.working q (by simpa [hqp] using hq)
      match q with
      | .main => exact hq
      | .party (.conn i) => exact hwork
      | .party (.alarm k) => exact hwork
  · -- a thread that gets the lock is not interrupted
    cases hheld
    cases host with
    | main =>
        cases hruns.symm.trans htop
    | conn i => cases hruns.1.symm.trans htop

/-- A caller gives the lock of the C library back.
Source: none: infrastructure
Kind: L -/
theorem Logging.Kept.leaves (hk : s.Kept) {p : Caller} (hinside : s.place p = .inside) :
    Logging.Kept { s with place := Function.update s.place p .silent, holder := none } := by
  have hheld := (hk.holder p).mpr hinside
  refine ⟨fun q => ?_, fun q hq => ?_, fun host k _ hnone => by cases hnone⟩
  · by_cases hqp : q = p
    · subst hqp
      simp
    · have hout : s.place q ≠ .inside := by
        rw [Ne, ← hk.holder, hheld]
        simpa using Ne.symm hqp
      simpa [hqp] using hout
  · by_cases hqp : q = p
    · subst hqp
      simp at hq
    · have hwork := hk.working q (by simpa [hqp] using hq)
      match q with
      | .main => exact hq
      | .party (.conn i) => exact hwork
      | .party (.alarm k) => exact hwork

/-- Every step keeps the callers in their places.
Source: `aesdsocket.c`, `alarm_handler`
Kind: L -/
theorem Logging.Kept.step (hk : s.Kept) (hh : s.sys.Hosted) (hstep : s.step t = some s') :
    s'.Kept := by
  cases Logging.steps_of_step hstep with
  | delivers hsys =>
      cases Interrupted.steps_of_step hsys with
      | delivers hfree => exact hk.deliver hh hfree
  | @conn i ev sys hsilent hsys =>
      cases Interrupted.steps_of_step hsys with
      | conn hserver =>
          refine hk.plain hsilent (fun j hj => ?_) (fun _ _ h => h) fun _ _ _ h => h
          exact FileServer.step_conns hserver hj
  | @alarm host k ev sys hsilent hsys =>
      cases Interrupted.steps_of_step hsys with
      | @alarm _ _ _ server htop hserver =>
          refine hk.plain hsilent (fun j hj => FileServer.step_conns hserver hj) ?_ ?_
          · intro host' j hj
            dsimp only at hj
            split_ifs at hj
            · by_cases hhost : host' = host
              · simp [hhost] at hj
              · simpa [hhost] using hj
            · exact hj
          · intro host' j hjk hj
            have hne : host' ≠ host := by
              rintro rfl
              exact hjk (congrArg Party.alarm (Option.some.inj (htop.symm.trans hj)))
            dsimp only
            split_ifs
            · simpa [hne] using hj
            · exact hj
  | asks hruns hsilent => exact hk.asks hh hruns hsilent
  | enters hruns _ hfree => exact hk.enters hh hruns hfree
  | leaves _ hinside => exact hk.leaves hinside

/-- The invariant of the logging calls holds in every run.
Source: `aesdsocket.c`, `alarm_handler`
Kind: L -/
theorem Logging.kept_of_run (hrun : logRun file sent steps = some s) : s.Kept := by
  refine run_induction (P := fun _ s => s.Kept) ?_ ?_ hrun
  · refine ⟨fun p => ?_, fun p hp => absurd rfl hp, fun host k htop => by cases htop⟩
    exact iff_of_false (by simp) (by simp)
  · intro steps s t s' hrun' hk hstep
    exact hk.step (hosted_of_run (interruptRun_of_logRun hrun')) hstep

/-! ### The waiting -/

/-- A caller that runs is not interrupted; otherwise it waits for an activation at work.
Source: `aesdsocket.c`, `alarm_handler`
Kind: L -/
theorem Logging.runs_or_interrupted (hh : s.sys.Hosted) {p : Caller} (hp : s.AtWork p) :
    s.sys.Runs p ∨ ∃ q, s.WaitsFor p q ∧ s.AtWork q := by
  have hhost : ∀ host : Host, s.sys.onTop host = none ∨
      ∃ q, s.WaitsFor host.caller q ∧ s.AtWork q := by
    intro host
    cases htop : s.sys.onTop host with
    | none => exact .inl rfl
    | some k => exact .inr ⟨_, .interrupted htop, host, htop⟩
  match p with
  | .main => exact hhost .main
  | .party (.conn i) => exact (hhost (.conn i)).imp_left fun htop => ⟨htop, hp⟩
  | .party (.alarm k) =>
      obtain ⟨host, htop⟩ := hp
      exact .inl (hh.top host k htop)

/-- A step of a party that is in no log call.
Source: none: infrastructure
Kind: L -/
theorem Logging.canStep_party {p : Party} (hsilent : s.place (.party p) = .silent)
    (hp : s.sys.CanStep p) : s.CanStep (.party p) := by
  obtain ⟨t, sys, hof, hstep⟩ := hp
  refine ⟨.plain t, { s with sys := sys }, hof, ?_⟩
  cases t with
  | deliver host => cases hof
  | conn i ev =>
      obtain rfl : p = .conn i := by simpa [InterruptStep.ofParty] using hof
      rw [Logging.step, if_pos hsilent, hstep]
      rfl
  | alarm host k ev =>
      obtain rfl : p = .alarm k := by simpa [InterruptStep.ofParty] using hof
      rw [Logging.step, if_pos hsilent, hstep]
      rfl

/-- Who holds a mutex object is at work.
Source: `handler.c`, `handle_connection`; `aesdsocket.c`, `alarm_handler`
Kind: L -/
theorem Logging.atWork_of_mutex (hh : s.sys.Hosted) (hg : s.sys.server.Guarded) {m : MutexId}
    {q : Party} (hheld : s.sys.server.mutex m = some q) : s.AtWork (.party q) := by
  have hinside := ((hg m q).mp hheld).2
  cases q with
  | conn j =>
      intro hend
      rw [FileServer.Inside, hend] at hinside
      cases hinside
  | alarm j => exact hh.hosted hinside

/-- A party in no log call goes on, or waits at its lock.
Source: `handler.c`, `handle_connection`; `aesdsocket.c`, `alarm_handler`
Kind: L -/
theorem Logging.step_or_blocked (hh : s.sys.Hosted) (hg : s.sys.server.Guarded) {p : Party}
    (hruns : s.sys.Runs (.party p)) (hp : s.AtWork (.party p))
    (hsilent : s.place (.party p) = .silent) :
    s.CanStep (.party p) ∨ ∃ q, s.WaitsFor (.party p) q ∧ s.AtWork q := by
  by_cases hfree : s.sys.server.AtLock p → s.sys.server.mutex p.mutex = none
  · refine .inl (Logging.canStep_party hsilent ?_)
    cases p with
    | conn i => exact Interrupted.canStep_conn hruns.1 hp hfree
    | alarm k =>
        obtain ⟨host, htop⟩ := hp
        exact Interrupted.canStep_alarm hh htop hfree
  · obtain ⟨hlock, hheld⟩ := Classical.not_imp.mp hfree
    obtain ⟨q, hq⟩ := Option.ne_none_iff_exists'.mp hheld
    exact .inr ⟨_, .blocked hsilent hlock hq, Logging.atWork_of_mutex hh hg hq⟩

/-- Who is at work goes on, or waits for somebody at work.
Source: `handler.c`, `handle_connection`; `aesdsocket.c`, `alarm_handler`
Kind: L -/
theorem Logging.step_or_waits (hk : s.Kept) (hh : s.sys.Hosted) (hg : s.sys.server.Guarded)
    {p : Caller} (hp : s.AtWork p) : s.CanStep p ∨ ∃ q, s.WaitsFor p q ∧ s.AtWork q := by
  rcases Logging.runs_or_interrupted hh hp with hruns | hwaits
  · cases hplace : s.place p with
    | silent =>
        cases p with
        | main => exact absurd hplace hp
        | party p => exact Logging.step_or_blocked hh hg hruns hp hplace
    | asks =>
        cases hheld : s.holder with
        | none =>
            exact .inl ⟨.enters p, _, by simp [LogStep.ofCaller], if_pos ⟨hruns, hplace, hheld⟩⟩
        | some q =>
            refine .inr ⟨q, .logs hplace hheld, hk.working q ?_⟩
            rw [(hk.holder q).mp hheld]
            simp
    | inside => exact .inl ⟨.leaves p, _, by simp [LogStep.ofCaller], if_pos ⟨hruns, hplace⟩⟩
  · exact .inr hwaits

/-- An activation waits on the mutexes for activations only, and who is inside waits for no mutex.
Source: `handler.c`, `handle_connection`; `aesdsocket.c`, `alarm_handler`
Kind: D -/
def FileServer.level (s : FileServer) : Party → ℕ
  | .conn i => if (s.conns i).pc.guarded then 2 else 3
  | .alarm k => if (s.alarms k).guarded then 0 else 1

/-- `main` waits on no mutex.
Source: `aesdsocket.c`, `main`
Kind: D -/
def Caller.level (s : FileServer) : Caller → ℕ
  | .main => 4
  | .party p => s.level p + 1

/-- Who is inside of a log call waits for nobody.
Source: `handler.c`, `handle_connection`; `aesdsocket.c`, `alarm_handler`
Kind: D -/
def Logging.level (s : Logging) (p : Caller) : ℕ :=
  if s.place p = .inside then 0 else p.level s.sys.server

/-- Who is not inside of a log call.
Source: none: infrastructure
Kind: L -/
theorem Logging.level_eq {p : Caller} (hp : s.place p ≠ .inside) :
    s.level p = p.level s.sys.server := if_neg hp

/-- A log call only brings down.
Source: none: infrastructure
Kind: L -/
theorem Logging.level_le (p : Caller) : s.level p ≤ p.level s.sys.server := by
  unfold Logging.level
  split_ifs <;> omega

/-- Who waits at its lock is above who holds the mutex object.
Source: `handler.c`, `handle_connection`; `aesdsocket.c`, `alarm_handler`
Kind: L -/
theorem FileServer.level_lt {s : FileServer} (hg : s.Guarded) {p q : Party} (hlock : s.AtLock p)
    (hheld : s.mutex p.mutex = some q) : s.level q < s.level p := by
  obtain ⟨hmutex, hinside⟩ := (hg _ q).mp hheld
  cases p with
  | conn i =>
      cases q with
      | alarm k => cases hmutex
      | conn j =>
          have hout : (s.conns i).pc.guarded = false := congrArg Pc.guarded hlock
          rw [FileServer.Inside] at hinside
          simp [FileServer.level, hout, hinside]
  | alarm k =>
      cases q with
      | conn j => cases hmutex
      | alarm j =>
          have hout : (s.alarms k).guarded = false := congrArg AlarmPc.guarded hlock
          rw [FileServer.Inside] at hinside
          simp [FileServer.level, hout, hinside]

/-- Every wait leads down, as long as no thread was interrupted inside of a log call.
Source: `handler.c`, `handle_connection`; `aesdsocket.c`, `alarm_handler`
Kind: L -/
theorem Logging.WaitsFor.level_lt {p q : Caller} (hk : s.Kept) (hg : s.sys.server.Guarded)
    (hfree : ¬ s.Trapped) (hw : s.WaitsFor p q) : s.level q < s.level p := by
  cases hw with
  | @interrupted host k htop =>
      have hout : s.place host.caller ≠ .inside := by
        intro hinside
        refine hfree ⟨host, ?_, (hk.holder _).mpr hinside⟩
        rw [htop]
        simp
      have hlow : (Caller.party (.alarm k)).level s.sys.server ≤ 2 := by
        simp only [Caller.level, FileServer.level]
        split_ifs <;> omega
      have hhigh : 3 ≤ host.caller.level s.sys.server := by
        cases host with
        | main => simp [Host.caller, Caller.level]
        | conn i =>
            simp only [Host.caller, Caller.level, FileServer.level]
            split_ifs <;> omega
      rw [Logging.level_eq hout]
      exact (Logging.level_le _).trans_lt (by omega)
  | @blocked p q hsilent hlock hheld =>
      rw [Logging.level_eq (p := .party p) (by rw [hsilent]; simp)]
      exact (Logging.level_le _).trans_lt (Nat.succ_lt_succ (FileServer.level_lt hg hlock hheld))
  | logs hasks hheld =>
      have hq : s.level q = 0 := if_pos ((hk.holder q).mp hheld)
      rw [hq, Logging.level_eq (by rw [hasks]; simp)]
      cases p <;> simp [Caller.level]

/-- **A wait is circular exactly when a thread was interrupted inside of a log call.**
Source: `aesdsocket.c`, `alarm_handler`; `handler.c`, `handle_connection`
Kind: L -/
theorem Logging.circular_iff (hk : s.Kept) (hg : s.sys.server.Guarded) :
    (∃ p, Relation.TransGen s.WaitsFor p p) ↔ s.Trapped := by
  constructor
  · rintro ⟨p, hp⟩
    by_contra hfree
    have hlt : ∀ {q}, Relation.TransGen s.WaitsFor p q → s.level q < s.level p := by
      intro q hq
      induction hq with
      | single hw => exact hw.level_lt hk hg hfree
      | tail _ hw ih => exact (hw.level_lt hk hg hfree).trans ih
    exact Nat.lt_irrefl _ (hlt hp)
  · rintro ⟨host, htop, hheld⟩
    obtain ⟨k, htop⟩ := Option.ne_none_iff_exists'.mp htop
    exact ⟨_, .tail (.single (.interrupted htop)) (.logs (hk.trapped host k htop hheld) hheld)⟩

/-- **The waiting ends**, as long as no thread was interrupted inside of a log call.
Source: `handler.c`, `handle_connection`; `aesdsocket.c`, `alarm_handler`
Kind: L -/
theorem Logging.exists_canStep (hk : s.Kept) (hh : s.sys.Hosted) (hg : s.sys.server.Guarded)
    (hfree : ¬ s.Trapped) {p : Caller} (hp : s.AtWork p) :
    ∃ q, Relation.ReflTransGen s.WaitsFor p q ∧ s.CanStep q := by
  induction hlevel : s.level p using Nat.strong_induction_on generalizing p with
  | _ n ih =>
      rcases Logging.step_or_waits hk hh hg hp with hstep | ⟨q, hw, hq⟩
      · exact ⟨p, .refl, hstep⟩
      · subst hlevel
        obtain ⟨r, hto, hstep⟩ := ih _ (hw.level_lt hk hg hfree) hq rfl
        exact ⟨r, .head hw hto, hstep⟩

/-- A thread that was interrupted inside of a log call stays there.
Source: `aesdsocket.c`, `alarm_handler`
Kind: L -/
theorem Logging.Trapped.step (htrap : s.Trapped) (hk : s.Kept) (hstep : s.step t = some s') :
    s'.Trapped := by
  obtain ⟨host, htop, hheld⟩ := htrap
  obtain ⟨k, htop⟩ := Option.ne_none_iff_exists'.mp htop
  have hasks := hk.trapped host k htop hheld
  -- neither the thread nor the activation on top of it takes a step
  cases Logging.steps_of_step hstep with
  | @delivers host' sys hsys =>
      cases Interrupted.steps_of_step hsys with
      | delivers hfree =>
          have hne : host ≠ host' := by
            rintro rfl
            rw [hfree] at htop
            cases htop
          exact ⟨host, by simp [hne, htop], hheld⟩
  | conn _ hsys =>
      cases Interrupted.steps_of_step hsys with
      | conn hserver => exact ⟨host, by simp [htop], hheld⟩
  | @alarm host' k' ev sys hsilent hsys =>
      cases Interrupted.steps_of_step hsys with
      | alarm htop' hserver =>
          have hne : host ≠ host' := by
            rintro rfl
            cases htop.symm.trans htop'
            rw [hasks] at hsilent
            cases hsilent
          refine ⟨host, ?_, hheld⟩
          dsimp only
          split_ifs
          · simp [hne, htop]
          · simp [htop]
  | asks hruns hsilent => exact ⟨host, by simp [htop], hheld⟩
  | enters hruns hasks hfree => cases hheld.symm.trans hfree
  | @leaves p hruns hinside =>
      obtain rfl : host.caller = p :=
        Option.some.inj (hheld.symm.trans ((hk.holder p).mpr hinside))
      cases host with
      | main => cases hruns.symm.trans htop
      | conn i => cases hruns.1.symm.trans htop

/-! ### Runs -/

/-- From then on it is there in every state.
Source: `aesdsocket.c`, `alarm_handler`
Kind: L -/
theorem trapped_of_run (hrun : logRun file sent steps = some s) (htrap : s.Trapped)
    {rest : List LogStep} (hrest : run Logging.step s rest = some s') : s'.Trapped := by
  refine run_induction (P := fun _ s => s.Trapped) htrap ?_ hrest
  intro es s₁ t s₂ hes htrap₁ hstep
  exact htrap₁.step (Logging.kept_of_run (run_append.mpr ⟨s, hrun, hes⟩)) hstep

/-- A step brings its party nearer to its unlock, and nobody else.
Source: `handler.c`, `handle_connection`; `aesdsocket.c`, `alarm_handler`
Kind: L -/
theorem Logging.sectionLeft_step {p : Party} (hstep : s.step t = some s')
    (hin : s.sys.server.Inside p) (hin' : s'.sys.server.Inside p) :
    s'.sys.server.sectionLeft p + (LogStep.ofParty p t).toNat ≤ s.sys.server.sectionLeft p := by
  rcases Logging.sys_of_step hstep with ⟨u, hu, hsys⟩ | ⟨hnone, hsame⟩
  · cases t <;> cases hu
    exact Interrupted.sectionLeft_step hsys hin hin'
  · rw [hsame]
    cases t with
    | plain u => cases hnone
    | _ => simp [LogStep.ofParty]

/-- While a party stays inside, its steps are counted.
Source: `handler.c`, `handle_connection`; `aesdsocket.c`, `alarm_handler`
Kind: L -/
theorem countP_ofParty_le {p : Party} {rest : List LogStep}
    (hrest : run Logging.step s rest = some s')
    (hin : Always Logging.step (fun s => s.sys.server.Inside p) s rest) :
    rest.countP (LogStep.ofParty p) + s'.sys.server.sectionLeft p ≤
      s.sys.server.sectionLeft p := by
  induction rest generalizing s with
  | nil =>
      cases hrest
      simp
  | cons t rest ih =>
      obtain ⟨s₁, hstep, hrest⟩ := run_cons.mp hrest
      obtain ⟨hfirst, htail⟩ := hin
      have hle := ih hrest (htail s₁ hstep)
      have hone := Logging.sectionLeft_step hstep hfirst (htail s₁ hstep).first
      rw [List.countP_cons]
      cases hp : LogStep.ofParty p t <;> rw [hp] at hone <;> simp at hone ⊢ <;> omega

/-- **No deadlock on the mutexes.** In every run of any number of connections, with `SIGALRM`
delivered to any threads at any time, also while they hold a mutex, and with log calls of the
threads at any place but their lock: a wait is circular exactly when `SIGALRM` has interrupted a
thread inside of a log call, where `alarm_handler` waits with its own log call for that thread, and
then it stays so; otherwise from every party that is at work the waiting, on the two mutex objects,
on the log calls and for the interruptions, leads to one that can take a step. And a party that
stays between its lock and its unlock makes at most four steps there besides its log calls.
Source: `handler.c`, `handle_connection` and `append_packet`; `aesdsocket.c`, `alarm_handler` and
`main`
Kind: P -/
theorem mutexes_deadlock_free (hrun : logRun file sent steps = some s) :
    ((∃ p, Relation.TransGen s.WaitsFor p p) ↔ s.Trapped) ∧
    (s.Trapped → ∀ rest s', run Logging.step s rest = some s' → s'.Trapped) ∧
    (¬ s.Trapped → ∀ p, s.AtWork p → ∃ q, Relation.ReflTransGen s.WaitsFor p q ∧ s.CanStep q) ∧
    ∀ p rest s', run Logging.step s rest = some s' →
      Always Logging.step (fun s => s.sys.server.Inside p) s rest →
        rest.countP (LogStep.ofParty p) ≤ 4 := by
  have hsys := interruptRun_of_logRun hrun
  have hg := guarded_of_run (fileRun_of_interruptRun hsys)
  have hh := hosted_of_run hsys
  have hk := Logging.kept_of_run hrun
  refine ⟨Logging.circular_iff hk hg, fun htrap rest s' hrest => ?_,
    fun hfree p hp => Logging.exists_canStep hk hh hg hfree hp, fun p rest s' hrest hin => ?_⟩
  · exact trapped_of_run hrun htrap hrest
  · have hle := countP_ofParty_le hrest hin
    have hfirst := hin.first.sectionLeft_bounds
    have hlast := (hin.last hrest).sectionLeft_bounds
    omega

/-- Two connections have each got a line, and the first is inside when the timer interrupts it; the
next tick comes to `main` and is inside, too.
Source: `handler.c`, `handle_connection`; `aesdsocket.c`, `alarm_handler`
Kind: D -/
def interruptedInside : List LogStep :=
  [.plain (.conn 0 (.malloc .moved fun _ => 0)), .plain (.conn 0 (.openDevice true)),
    .plain (.conn 0 (.recv (some [97, 10]))), .plain (.conn 1 (.malloc .moved fun _ => 0)),
    .plain (.conn 1 (.openDevice true)), .plain (.conn 1 (.recv (some [97, 10]))),
    .plain (.conn 0 .lock), .plain (.deliver (.conn 0)), .enters (.party (.alarm 0)),
    .leaves (.party (.alarm 0)), .plain (.deliver .main), .enters (.party (.alarm 1)),
    .leaves (.party (.alarm 1)), .plain (.alarm .main 1 .lock)]

/-- The first connection has no memory, and is in its log call about it when the timer interrupts
it.
Source: `handler.c`, `handle_connection`; `aesdsocket.c`, `alarm_handler`
Kind: D -/
def interruptedLogging : List LogStep :=
  [.plain (.conn 0 (.malloc .fail fun _ => 0)), .asks (.party (.conn 0)),
    .enters (.party (.conn 0)), .plain (.deliver (.conn 0))]

/-- A chain of three waits that ends, and two waits that do not.
Source: `handler.c`, `handle_connection`; `aesdsocket.c`, `alarm_handler`
Kind: N+ -/
theorem mutexes_deadlock_free_interrupted :
    (∃ s, logRun (some []) (fun _ => [97, 10]) interruptedInside = some s ∧
      s.WaitsFor (.party (.conn 1)) (.party (.conn 0)) ∧
      s.WaitsFor (.party (.conn 0)) (.party (.alarm 0)) ∧
      s.WaitsFor (.party (.alarm 0)) (.party (.alarm 1)) ∧ ¬ s.Trapped ∧
      ∃ q, Relation.ReflTransGen s.WaitsFor (.party (.conn 1)) q ∧ s.CanStep q) ∧
    ∃ s, logRun (some []) (fun _ => []) interruptedLogging = some s ∧
      ∃ p, Relation.TransGen s.WaitsFor p p := by
  constructor
  · obtain ⟨s, hs, hend⟩ := Option.map_eq_some_iff.mp
      (show (logRun (some []) (fun _ => [97, 10]) interruptedInside).map
        (fun s => ((s.sys.server.conns 1).pc, s.sys.server.mutex .fileMutex,
          s.sys.onTop (.conn 0), s.sys.server.alarms 0, s.sys.server.mutex .serverInfo)) =
        some (.lock, some (.conn 0), some 0, .lock, some (.alarm 1)) by decide +kernel)
    simp only [Prod.mk.injEq] at hend
    obtain ⟨hlock, hfile, htop, halarm, hinfo⟩ := hend
    have hlog : (logRun (some []) (fun _ => [97, 10]) interruptedInside).map
        (fun s => (s.holder, s.place (.party (.conn 1)), s.place (.party (.alarm 0)))) =
        some (none, .silent, .silent) := by decide +kernel
    rw [hs, Option.map_some, Option.some_inj] at hlog
    simp only [Prod.mk.injEq] at hlog
    obtain ⟨hholder, hsilent, hsilent'⟩ := hlog
    have hwork : s.AtWork (.party (.conn 1)) := by
      intro hnot
      rw [hlock] at hnot
      cases hnot
    have hfree : ¬ s.Trapped := by
      rintro ⟨host, -, hheld⟩
      rw [hholder] at hheld
      cases hheld
    exact ⟨s, hs, .blocked hsilent hlock hfile, Logging.WaitsFor.interrupted htop,
      .blocked hsilent' halarm hinfo, hfree, (mutexes_deadlock_free hs).2.2.1 hfree _ hwork⟩
  · obtain ⟨s, hs, hend⟩ := Option.map_eq_some_iff.mp
      (show (logRun (some []) (fun _ => []) interruptedLogging).map
        (fun s => (s.sys.onTop (.conn 0), s.holder)) = some (some 0, some (.party (.conn 0))) by
          decide +kernel)
    simp only [Prod.mk.injEq] at hend
    refine ⟨s, hs, (mutexes_deadlock_free hs).1.mpr ⟨.conn 0, ?_, hend.2⟩⟩
    rw [hend.1]
    simp

end logging

end Aesd.Server
