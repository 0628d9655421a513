import Aesd.Server.Handler
import Mathlib.Logic.Function.Basic

/-!
# The server over a data file

The file-backed build, `USE_AESD_CHAR_DEVICE` not defined: the handlers of any number of
connections and any number of activations of `alarm_handler`, in any interleaving, over one file and
the mutexes in memory. A step of the system is a step of one of them, answered by the kernel or by a
mutex.

There are two mutex objects: `main` initialises its local `file_mutex` and copies it into
`server_info.file_mutex`. A connection is given the address of the first, and `alarm_handler` finds
the second through the `server_info` that the timer passes to it.

* `guarded_of_run` — a mutex object is held by a party exactly when the party is between the lock
  and the unlock of that object;
* `data_file_exclusive_iff` — the runs in which no two parties are ever between their lock and their
  unlock are those in which no mutex object is locked while the other one is held.
-/

namespace Aesd.Server

open Aesd.Lib Aesd.Driver

/-! ### The mutex objects -/

/-- The mutex objects: the local variable of `main`, and the field of its `server_info`.
Source: `handler.c`, `handle_connection`; `aesdsocket.c`, `alarm_handler`
Kind: D -/
inductive MutexId where
  | fileMutex
  | serverInfo
  deriving DecidableEq

/-- The other of the two objects.
Source: `handler.c`, `handle_connection`; `aesdsocket.c`, `alarm_handler`
Kind: D -/
def MutexId.other : MutexId → MutexId
  | .fileMutex => .serverInfo
  | .serverInfo => .fileMutex

/-- A connection handler, or an activation of `alarm_handler`.
Source: `handler.c`, `handle_connection`; `aesdsocket.c`, `alarm_handler`
Kind: D -/
inductive Party where
  | conn (i : ℕ)
  | alarm (k : ℕ)
  deriving DecidableEq

/-- The state of each mutex object: the party that holds it.
Source: `handler.c`, `handle_connection`; `aesdsocket.c`, `alarm_handler`
Kind: D -/
abbrev Mutexes := MutexId → Option Party

/-- `pthread_mutex_init(&file_mutex, NULL)` and `server_info.file_mutex = file_mutex`: the copy of an
unlocked mutex is another unlocked mutex.
Source: `aesdsocket.c`, `main`
Kind: D -/
def initMutexes : Mutexes :=
  let fileMutex : Option Party := none
  fun
  | .fileMutex => fileMutex
  | .serverInfo => fileMutex

/-- The object that a party locks: `new_node->file_mutex = &file_mutex` for a connection,
`&server_info->file_mutex` with `sev.sigev_value.sival_ptr = &server_info` for `alarm_handler`.
Source: `aesdsocket.c`, `main` and `alarm_handler`
Kind: D -/
def Party.mutex : Party → MutexId
  | .conn _ => .fileMutex
  | .alarm _ => .serverInfo

/-! ### `alarm_handler` -/

/-- The places in `alarm_handler`.
Source: `aesdsocket.c`, `alarm_handler`; `handler.c`, `handle_connection`
Kind: D -/
inductive AlarmPc where
  | lock
  | openFile
  | dprintf
  | close
  | unlock
  | returned
  deriving DecidableEq

/-- A call of `alarm_handler` with its result. What `strftime` makes of the date is given with the
`dprintf`, and so is the number of bytes that reach the file, which the code does not look at.
Source: `aesdsocket.c`, `alarm_handler`
Kind: D -/
inductive AlarmEvent where
  | lock
  | openAppend (ok : Bool)
  | dprintf (date : List UInt8) (written : ℕ)
  | close
  | unlock

/-- The line that is printed: `timestamp:`, the date, and a newline.
Source: `aesdsocket.c`, `alarm_handler`
Kind: D -/
def timestampLine (date : List UInt8) : List UInt8 :=
  [116, 105, 109, 101, 115, 116, 97, 109, 112, 58] ++ date ++ [newline]

/-- One call of `alarm_handler`, with its result.
Source: `aesdsocket.c`, `alarm_handler`
Kind: D -/
def alarmHandler : AlarmPc → AlarmEvent → Option AlarmPc
  | .lock, .lock => some .openFile
  | .openFile, .openAppend ok => some (if ok then .dprintf else .unlock)
  | .dprintf, .dprintf _ _ => some .close
  | .close, .close => some .unlock
  | .unlock, .unlock => some .returned
  | _, _ => none

/-! ### The system -/

/-- The file, when it exists; the mutexes; the handlers and the activations of `alarm_handler`; the
positions of the connections' descriptors; and what their clients have still to deliver.
Source: `handler.c`, `handle_connection`; `aesdsocket.c`, `alarm_handler`
Kind: D -/
structure FileServer where
  file : Option (List UInt8)
  mutex : Mutexes
  conns : ℕ → Handler
  alarms : ℕ → AlarmPc
  fPos : ℕ → ℕ
  streams : ℕ → List UInt8

/-- A step of a connection or of an activation of `alarm_handler`.
Source: `handler.c`, `handle_connection`; `aesdsocket.c`, `alarm_handler`
Kind: D -/
inductive FileStep where
  | conn (i : ℕ) (ev : Event)
  | alarm (k : ℕ) (ev : AlarmEvent)

/-- Before anything was done: the file as it was left, and the clients will deliver what they send.
Source: `handler.c`, `handle_connection`; `aesdsocket.c`, `alarm_handler`
Kind: D -/
def FileServer.start (file : Option (List UInt8)) (sent : ℕ → List UInt8) : FileServer :=
  ⟨file, initMutexes, fun _ => .start, fun _ => .lock, fun _ => 0, sent⟩

/-- `pthread_mutex_lock` returns when the object is free.
Source: `handler.c`, `handle_connection`; `aesdsocket.c`, `alarm_handler`
Kind: D -/
def FileServer.lock (s : FileServer) (p : Party) : Option FileServer :=
  if s.mutex p.mutex = none then
    some { s with mutex := Function.update s.mutex p.mutex (some p) }
  else none

/-- `pthread_mutex_unlock`
Source: `handler.c`, `handle_connection`; `aesdsocket.c`, `alarm_handler`
Kind: D -/
def FileServer.unlock (s : FileServer) (p : Party) : FileServer :=
  { s with mutex := Function.update s.mutex p.mutex none }

/-- `open(FILENAME, O_WRONLY | O_CREAT | O_APPEND)`: a missing file is created.
Source: `handler.c`, `append_packet`; `aesdsocket.c`, `alarm_handler`
Kind: D -/
def FileServer.openAppend (s : FileServer) (ok : Bool) : FileServer :=
  if ok then { s with file := some (s.file.getD []) } else s

/-- What a `write` puts at the end of the file.
Source: `handler.c`, `handle_connection`; `aesdsocket.c`, `alarm_handler`
Kind: D -/
def FileServer.append (s : FileServer) (bytes : List UInt8) : FileServer :=
  { s with file := some (s.file.getD [] ++ bytes) }

/-- What the kernel and the mutexes do in an event of a connection; `none` when they do not answer
so. A file without `O_CREAT` is opened only when it is there, a regular file knows no `ioctl` of the
driver, and a `read` delivers what stands at the descriptor's position.
Source: `handler.c`, `handle_connection`
Kind: D -/
def FileServer.answer (s : FileServer) (i : ℕ) : Event → Option FileServer
  | .openDevice ok =>
      if ok = true ∧ s.file = none then none
      else some { s with fPos := Function.update s.fPos i 0 }
  | .recv (some chunk) =>
      if chunk <+: s.streams i then
        some { s with streams := Function.update s.streams i ((s.streams i).drop chunk.length) }
      else none
  | .ioctl _ ok => if ok then none else some s
  | .read (some bytes) =>
      if bytes = ((s.file.getD []).drop (s.fPos i)).take bufferSize then
        some { s with fPos := Function.update s.fPos i (s.fPos i + bytes.length) }
      else none
  | .lock => s.lock (.conn i)
  | .unlock => some (s.unlock (.conn i))
  | .openAppend ok => some (s.openAppend ok)
  | .write bytes (some n) => if n ≤ bytes.length then some (s.append (bytes.take n)) else none
  | _ => some s

/-- What the kernel and the mutexes do in an event of `alarm_handler`.
Source: `aesdsocket.c`, `alarm_handler`; `handler.c`, `append_packet`
Kind: D -/
def FileServer.alarmAnswer (s : FileServer) (k : ℕ) : AlarmEvent → Option FileServer
  | .lock => s.lock (.alarm k)
  | .unlock => some (s.unlock (.alarm k))
  | .openAppend ok => some (s.openAppend ok)
  | .dprintf date n =>
      if n ≤ (timestampLine date).length then some (s.append ((timestampLine date).take n)) else none
  | .close => some s

/-- A step of the system.
Source: `aesdsocket.c`, `alarm_handler`; `handler.c`, `handle_connection`
Kind: D -/
def FileServer.step (s : FileServer) : FileStep → Option FileServer
  | .conn i ev =>
      ((s.conns i).step .dataFile ev).bind fun h =>
        (s.answer i ev).map fun s' => { s' with conns := Function.update s'.conns i h }
  | .alarm k ev =>
      (alarmHandler (s.alarms k) ev).bind fun pc =>
        (s.alarmAnswer k ev).map fun s' => { s' with alarms := Function.update s'.alarms k pc }

/-- The server after the steps, from its start, with what the clients send.
Source: `handler.c`, `handle_connection`; `aesdsocket.c`, `alarm_handler`
Kind: D -/
def fileRun (file : Option (List UInt8)) (sent : ℕ → List UInt8) (steps : List FileStep) :
    Option FileServer :=
  run FileServer.step (.start file sent) steps

/-! ### Everything an answer can do -/

/-- The events that neither the file, nor a mutex, nor a position, nor a stream has a part in.
Source: `handler.c`, `handle_connection` and `append_packet`
Kind: D -/
def Event.idle : Event → Bool
  | .openDevice _ | .recv (some _) | .read (some _) | .lock | .unlock | .openAppend _
  | .write _ (some _) => false
  | _ => true

/-- Everything an answer to a connection can do.
Source: `handler.c`, `handle_connection`
Kind: D -/
inductive FileServer.Answers (s : FileServer) (i : ℕ) : Event → FileServer → Prop where
  | opens {ok : Bool} (hthere : ok = true → s.file ≠ none) :
      Answers s i (.openDevice ok) { s with fPos := Function.update s.fPos i 0 }
  | receives {chunk : List UInt8} (hchunk : chunk <+: s.streams i) :
      Answers s i (.recv (some chunk))
        { s with streams := Function.update s.streams i ((s.streams i).drop chunk.length) }
  | reads {bytes : List UInt8} :
      Answers s i (.read (some bytes))
        { s with fPos := Function.update s.fPos i (s.fPos i + bytes.length) }
  | locks (hfree : s.mutex .fileMutex = none) :
      Answers s i .lock { s with mutex := Function.update s.mutex .fileMutex (some (.conn i)) }
  | unlocks : Answers s i .unlock { s with mutex := Function.update s.mutex .fileMutex none }
  | opensAppend {ok : Bool} : Answers s i (.openAppend ok) (s.openAppend ok)
  | writes {bytes : List UInt8} {n : ℕ} (hn : n ≤ bytes.length) :
      Answers s i (.write bytes (some n)) (s.append (bytes.take n))
  | idles {ev : Event} (hidle : ev.idle = true) : Answers s i ev s

/-- Everything an answer to `alarm_handler` can do.
Source: `aesdsocket.c`, `alarm_handler`
Kind: D -/
inductive FileServer.AlarmAnswers (s : FileServer) (k : ℕ) : AlarmEvent → FileServer → Prop where
  | locks (hfree : s.mutex .serverInfo = none) :
      AlarmAnswers s k .lock
        { s with mutex := Function.update s.mutex .serverInfo (some (.alarm k)) }
  | unlocks : AlarmAnswers s k .unlock { s with mutex := Function.update s.mutex .serverInfo none }
  | opensAppend {ok : Bool} : AlarmAnswers s k (.openAppend ok) (s.openAppend ok)
  | prints {date : List UInt8} {n : ℕ} (hn : n ≤ (timestampLine date).length) :
      AlarmAnswers s k (.dprintf date n) (s.append ((timestampLine date).take n))
  | closes : AlarmAnswers s k .close s

section answers

variable {s s' : FileServer} {i k : ℕ}

/-- The answers to a connection, analysed once.
Source: `handler.c`, `handle_connection`
Kind: L -/
theorem FileServer.answers_of_answer {ev : Event} (hans : s.answer i ev = some s') :
    s.Answers i ev s' := by
  cases ev with
  | openDevice ok =>
      rw [answer, Option.ite_none_left_eq_some] at hans
      cases hans.2
      exact .opens fun hok hnone => hans.1 ⟨hok, hnone⟩
  | recv chunk =>
      cases chunk with
      | none =>
          cases hans
          exact .idles rfl
      | some chunk =>
          rw [answer, Option.ite_none_right_eq_some] at hans
          cases hans.2
          exact .receives hans.1
  | ioctl request ok =>
      rw [answer, Option.ite_none_left_eq_some] at hans
      cases hans.2
      exact .idles rfl
  | read result =>
      cases result with
      | none =>
          cases hans
          exact .idles rfl
      | some bytes =>
          rw [answer, Option.ite_none_right_eq_some] at hans
          cases hans.2
          exact .reads
  | lock =>
      rw [answer, FileServer.lock, Option.ite_none_right_eq_some] at hans
      cases hans.2
      exact .locks hans.1
  | unlock =>
      cases hans
      exact .unlocks
  | openAppend ok =>
      cases hans
      exact .opensAppend
  | write bytes result =>
      cases result with
      | none =>
          cases hans
          exact .idles rfl
      | some n =>
          rw [answer, Option.ite_none_right_eq_some] at hans
          cases hans.2
          exact .writes hans.1
  | malloc _ _ | realloc _ _ | free | send _ _ | replyReturns _ | closeAppend | appendReturns _ _
  | closeDevice | closeClient | setDone =>
      cases hans
      exact .idles rfl

/-- The answers to `alarm_handler`, analysed once.
Source: `aesdsocket.c`, `alarm_handler`
Kind: L -/
theorem FileServer.answers_of_alarmAnswer {ev : AlarmEvent}
    (hans : s.alarmAnswer k ev = some s') : s.AlarmAnswers k ev s' := by
  cases ev with
  | lock =>
      rw [alarmAnswer, FileServer.lock, Option.ite_none_right_eq_some] at hans
      cases hans.2
      exact .locks hans.1
  | dprintf date n =>
      rw [alarmAnswer, Option.ite_none_right_eq_some] at hans
      cases hans.2
      exact .prints hans.1
  | unlock =>
      cases hans
      exact .unlocks
  | openAppend ok =>
      cases hans
      exact .opensAppend
  | close =>
      cases hans
      exact .closes

/-- A step of a connection: the handler's part and the answer.
Source: `handler.c`, `handle_connection`
Kind: L -/
theorem FileServer.step_conn {ev : Event} (hstep : s.step (.conn i ev) = some s') :
    ∃ h s₁, (s.conns i).step .dataFile ev = some h ∧ s.Answers i ev s₁ ∧
      s' = { s₁ with conns := Function.update s₁.conns i h } := by
  obtain ⟨h, hh, hrest⟩ := Option.bind_eq_some_iff.mp hstep
  obtain ⟨s₁, hans, rfl⟩ := Option.map_eq_some_iff.mp hrest
  exact ⟨h, s₁, hh, answers_of_answer hans, rfl⟩

/-- A step of `alarm_handler`: its own part and the answer.
Source: `aesdsocket.c`, `alarm_handler`
Kind: L -/
theorem FileServer.step_alarm {ev : AlarmEvent} (hstep : s.step (.alarm k ev) = some s') :
    ∃ pc s₁, alarmHandler (s.alarms k) ev = some pc ∧ s.AlarmAnswers k ev s₁ ∧
      s' = { s₁ with alarms := Function.update s₁.alarms k pc } := by
  obtain ⟨pc, hpc, hrest⟩ := Option.bind_eq_some_iff.mp hstep
  obtain ⟨s₁, hans, rfl⟩ := Option.map_eq_some_iff.mp hrest
  exact ⟨pc, s₁, hpc, answers_of_alarmAnswer hans, rfl⟩

/-- Opening the file leaves the connections alone.
Source: `handler.c`, `append_packet`; `aesdsocket.c`, `alarm_handler`
Kind: L -/
@[simp] theorem FileServer.openAppend_conns (s : FileServer) (ok : Bool) :
    (s.openAppend ok).conns = s.conns := by cases ok <;> rfl

/-- And the activations of `alarm_handler`.
Source: `handler.c`, `append_packet`; `aesdsocket.c`, `alarm_handler`
Kind: L -/
@[simp] theorem FileServer.openAppend_alarms (s : FileServer) (ok : Bool) :
    (s.openAppend ok).alarms = s.alarms := by cases ok <;> rfl

/-- And the mutexes.
Source: `handler.c`, `append_packet`; `aesdsocket.c`, `alarm_handler`
Kind: L -/
@[simp] theorem FileServer.openAppend_mutex (s : FileServer) (ok : Bool) :
    (s.openAppend ok).mutex = s.mutex := by cases ok <;> rfl

/-- An answer moves neither a handler nor an activation of `alarm_handler`.
Source: `aesdsocket.c`, `alarm_handler`; `handler.c`, `handle_connection`
Kind: L -/
theorem FileServer.Answers.frame {ev : Event} (hans : s.Answers i ev s') :
    s'.conns = s.conns ∧ s'.alarms = s.alarms := by
  cases hans <;> simp [FileServer.append]

/-- An answer to `alarm_handler` moves nobody.
Source: `aesdsocket.c`, `alarm_handler`
Kind: L -/
theorem FileServer.AlarmAnswers.frame {ev : AlarmEvent} (hans : s.AlarmAnswers k ev s') :
    s'.conns = s.conns ∧ s'.alarms = s.alarms := by
  cases hans <;> simp [FileServer.append]

end answers

/-! ### Everything a step can do to the mutexes -/

/-- The party that takes a step.
Source: `handler.c`, `handle_connection`; `aesdsocket.c`, `alarm_handler`
Kind: D -/
def FileStep.party : FileStep → Party
  | .conn i _ => .conn i
  | .alarm k _ => .alarm k

/-- The step is a lock.
Source: `handler.c`, `handle_connection`; `aesdsocket.c`, `alarm_handler`
Kind: D -/
def FileStep.locks : FileStep → Bool
  | .conn _ .lock | .alarm _ .lock => true
  | _ => false

/-- The places of a connection between the lock and the unlock.
Source: `handler.c`, `handle_connection`
Kind: D -/
def Pc.guarded : Pc → Bool
  | .append _ | .unlock _ => true
  | _ => false

/-- The places of `alarm_handler` between the lock and the unlock.
Source: `aesdsocket.c`, `alarm_handler`; `handler.c`, `handle_connection`
Kind: D -/
def AlarmPc.guarded : AlarmPc → Bool
  | .openFile | .dprintf | .close | .unlock => true
  | _ => false

/-- The party is between the lock and the unlock that guard appending to the file.
Source: `aesdsocket.c`, `alarm_handler`; `handler.c`, `handle_connection`
Kind: D -/
def FileServer.Inside (s : FileServer) : Party → Prop
  | .conn i => (s.conns i).pc.guarded = true
  | .alarm k => (s.alarms k).guarded = true

section guards

variable {h h' : Handler} {ev : Event} {s s' : FileServer} {t : FileStep} {steps : List FileStep}
  {file : Option (List UInt8)} {sent : ℕ → List UInt8}

/-- A chunk that was received does not lead behind the lock.
Source: `handler.c`, `handle_connection`
Kind: L -/
theorem Handler.guarded_accept (h : Handler) (chunk : List UInt8) :
    (h.accept .dataFile chunk).pc.guarded = false := by
  apply Handler.accept_pc (P := fun pc => pc.guarded = false)
  · exact fun _ => rfl
  · rfl
  · rfl
  · rfl

/-- A step that is neither a lock nor an unlock and stays on its side.
Source: `handler.c`, `handle_connection`
Kind: L -/
theorem Pc.guarded_stays {pc pc' : Pc} (hpc : h.pc = pc) (hown : ev ≠ .lock ∧ ev ≠ .unlock)
    (hsame : pc'.guarded = pc.guarded) :
    (ev = .lock ∧ pc'.guarded = true) ∨
    (ev = .unlock ∧ h.pc.guarded = true ∧ pc'.guarded = false) ∨
    (ev ≠ .lock ∧ ev ≠ .unlock ∧ pc'.guarded = h.pc.guarded) := by
  rw [hpc]
  exact Or.inr (Or.inr ⟨hown.1, hown.2, hsame⟩)

/-- A connection enters its critical section with the lock and leaves it with the unlock.
Source: `handler.c`, `handle_connection`
Kind: L -/
theorem Handler.Steps.guarded_cases (hstep : h.Steps .dataFile ev h') :
    (ev = .lock ∧ h'.pc.guarded = true) ∨
    (ev = .unlock ∧ h.pc.guarded = true ∧ h'.pc.guarded = false) ∨
    (ev ≠ .lock ∧ ev ≠ .unlock ∧ h'.pc.guarded = h.pc.guarded) := by
  cases hstep with
  | locks hpc => exact Or.inl ⟨rfl, rfl⟩
  | @unlocks ok hpc =>
      refine Or.inr (Or.inl ⟨rfl, by rw [hpc]; rfl, ?_⟩)
      cases ok <;> rfl
  | @opens ok hpc => cases ok <;> exact Pc.guarded_stays hpc ⟨nofun, nofun⟩ rfl
  | recvFits hpc _ _ _ =>
      exact Pc.guarded_stays hpc ⟨nofun, nofun⟩ (Handler.guarded_accept _ _)
  | grows hpc _ _ => exact Pc.guarded_stays hpc ⟨nofun, nofun⟩ (Handler.guarded_accept _ _)
  | @ioctls request ok hpc => cases ok <;> exact Pc.guarded_stays hpc ⟨nofun, nofun⟩ rfl
  | @appends pc pc' ev hpc hev =>
      have hown : ev ≠ .lock ∧ ev ≠ .unlock := by
        rcases appendPacket_event hev with ⟨ok, rfl⟩ | ⟨bytes, result, rfl⟩ | rfl <;>
          exact ⟨nofun, nofun⟩
      exact Pc.guarded_stays hpc hown rfl
  | @replies site pc pc' ev hpc hev =>
      have hown : ev ≠ .lock ∧ ev ≠ .unlock := by
        rcases writeToClient_event hev with ⟨result, rfl⟩ | ⟨bytes, sent, rfl⟩ <;>
          exact ⟨nofun, nofun⟩
      exact Pc.guarded_stays hpc hown rfl
  | @remallocs site answer junk hpc _ =>
      cases site <;> exact Pc.guarded_stays hpc ⟨nofun, nofun⟩ rfl
  | @replyReturns site ok hpc =>
      cases site <;> cases ok <;> exact Pc.guarded_stays hpc ⟨nofun, nofun⟩ rfl
  | @abortCloses allocated hpc =>
      cases allocated <;> exact Pc.guarded_stays hpc ⟨nofun, nofun⟩ rfl
  | mallocFails hpc | mallocs hpc _ | recvEnds hpc | recvGrows hpc _ _ _ | growFails hpc _
  | appendReturns hpc | resets hpc | remallocFails hpc | closesDevice hpc | freesLast hpc
  | closesClient hpc | abortFrees hpc | setsDone hpc =>
      exact Pc.guarded_stays hpc ⟨nofun, nofun⟩ rfl

/-- An activation of `alarm_handler` enters its critical section with the lock and leaves it with the
unlock.
Source: `aesdsocket.c`, `alarm_handler`; `handler.c`, `handle_connection`
Kind: L -/
theorem alarmHandler_guarded_cases {pc pc' : AlarmPc} {ev : AlarmEvent}
    (hstep : alarmHandler pc ev = some pc') :
    (ev = .lock ∧ pc'.guarded = true) ∨
    (ev = .unlock ∧ pc.guarded = true ∧ pc'.guarded = false) ∨
    (ev ≠ .lock ∧ ev ≠ .unlock ∧ pc'.guarded = pc.guarded) := by
  unfold alarmHandler at hstep
  split at hstep
  · cases hstep
    exact Or.inl ⟨rfl, rfl⟩
  · rename_i ok
    cases hstep
    refine Or.inr (Or.inr ⟨nofun, nofun, ?_⟩)
    cases ok <;> rfl
  · cases hstep
    exact Or.inr (Or.inr ⟨nofun, nofun, rfl⟩)
  · cases hstep
    exact Or.inr (Or.inr ⟨nofun, nofun, rfl⟩)
  · cases hstep
    exact Or.inr (Or.inl ⟨rfl, rfl, rfl⟩)
  · cases hstep

/-- A step moves nobody but the party that takes it.
Source: none: infrastructure
Kind: L -/
theorem FileServer.inside_of_ne (hstep : s.step t = some s') {q : Party} (hq : q ≠ t.party) :
    s'.Inside q ↔ s.Inside q := by
  cases t with
  | conn i ev =>
      obtain ⟨h, s₁, -, hans, rfl⟩ := FileServer.step_conn hstep
      obtain ⟨hconns, halarms⟩ := hans.frame
      cases q with
      | alarm k => simp only [FileServer.Inside, halarms]
      | conn j =>
          have hj : j ≠ i := fun hji => hq (by rw [hji]; rfl)
          simp only [FileServer.Inside, hconns, Function.update_of_ne hj]
  | alarm k ev =>
      obtain ⟨pc, s₁, -, hans, rfl⟩ := FileServer.step_alarm hstep
      obtain ⟨hconns, halarms⟩ := hans.frame
      cases q with
      | conn i => simp only [FileServer.Inside, hconns]
      | alarm j =>
          have hj : j ≠ k := fun hjk => hq (by rw [hjk]; rfl)
          simp only [FileServer.Inside, halarms, Function.update_of_ne hj]

/-- What a step does to its mutex object goes with where it takes its party.
Source: `handler.c`, `handle_connection`; `aesdsocket.c`, `alarm_handler`
Kind: L -/
theorem FileServer.step_party (hstep : s.step t = some s') :
    (t.locks = true ∧ s.mutex t.party.mutex = none ∧
      s'.mutex = Function.update s.mutex t.party.mutex (some t.party) ∧ s'.Inside t.party) ∨
    (t.locks = false ∧ s.Inside t.party ∧ ¬ s'.Inside t.party ∧
      s'.mutex = Function.update s.mutex t.party.mutex none) ∨
    (t.locks = false ∧ s'.mutex = s.mutex ∧ (s'.Inside t.party ↔ s.Inside t.party)) := by
  cases t with
  | conn i ev =>
      obtain ⟨h, s₁, hh, hans, rfl⟩ := FileServer.step_conn hstep
      have hself : FileServer.Inside { s₁ with conns := Function.update s₁.conns i h } (.conn i) ↔
          h.pc.guarded = true := by
        simp only [FileServer.Inside, Function.update_self]
      rcases (Handler.steps_of_step hh).guarded_cases with
        ⟨rfl, hin⟩ | ⟨rfl, hin, hout⟩ | ⟨hnl, hnu, hsame⟩
      · cases hans with
        | idles hidle => cases hidle
        | locks hfree => exact Or.inl ⟨rfl, hfree, rfl, hself.mpr hin⟩
      · cases hans with
        | idles hidle => cases hidle
        | unlocks =>
            refine Or.inr (Or.inl ⟨rfl, hin, fun hno => ?_, rfl⟩)
            rw [hself.mp hno] at hout
            cases hout
      · refine Or.inr (Or.inr ⟨?_, ?_, ?_⟩)
        · cases ev <;> first | rfl | exact absurd rfl hnl
        · cases hans with
          | locks _ => exact absurd rfl hnl
          | unlocks => exact absurd rfl hnu
          | _ => simp [FileServer.append]
        · exact hself.trans (by rw [hsame]; rfl)
  | alarm k ev =>
      obtain ⟨pc, s₁, hpc, hans, rfl⟩ := FileServer.step_alarm hstep
      have hself : FileServer.Inside { s₁ with alarms := Function.update s₁.alarms k pc }
          (.alarm k) ↔ pc.guarded = true := by
        simp only [FileServer.Inside, Function.update_self]
      rcases alarmHandler_guarded_cases hpc with
        ⟨rfl, hin⟩ | ⟨rfl, hin, hout⟩ | ⟨hnl, hnu, hsame⟩
      · cases hans with
        | locks hfree => exact Or.inl ⟨rfl, hfree, rfl, hself.mpr hin⟩
      · cases hans with
        | unlocks =>
            refine Or.inr (Or.inl ⟨rfl, hin, fun hno => ?_, rfl⟩)
            rw [hself.mp hno] at hout
            cases hout
      · refine Or.inr (Or.inr ⟨?_, ?_, ?_⟩)
        · cases ev <;> first | rfl | exact absurd rfl hnl
        · cases hans with
          | locks _ => exact absurd rfl hnl
          | unlocks => exact absurd rfl hnu
          | _ => simp [FileServer.append]
        · exact hself.trans (by rw [hsame]; rfl)

/-! ### Who holds what -/

/-- A mutex object is held by the party that is inside with it.
Source: `handler.c`, `handle_connection`; `aesdsocket.c`, `alarm_handler`
Kind: D -/
def FileServer.Guarded (s : FileServer) : Prop :=
  ∀ m p, s.mutex m = some p ↔ p.mutex = m ∧ s.Inside p

/-- At the start nobody holds anything.
Source: `handler.c`, `handle_connection`; `aesdsocket.c`, `alarm_handler`
Kind: L -/
theorem FileServer.guarded_start (file : Option (List UInt8)) (sent : ℕ → List UInt8) :
    (FileServer.start file sent).Guarded := by
  intro m p
  have hnone : (FileServer.start file sent).mutex m = none := by cases m <;> rfl
  have hout : ¬ (FileServer.start file sent).Inside p := by cases p <;> exact nofun
  rw [hnone]
  exact iff_of_false nofun fun h => hout h.2

/-- Every step keeps the mutex objects with who is inside.
Source: `handler.c`, `handle_connection`; `aesdsocket.c`, `alarm_handler`
Kind: L -/
theorem FileServer.Guarded.step (hg : s.Guarded) (hstep : s.step t = some s') : s'.Guarded := by
  intro m q
  by_cases hq : q = t.party
  · subst hq
    rcases FileServer.step_party hstep with
      ⟨-, -, hmutex, hin⟩ | ⟨-, hin, hout, hmutex⟩ | ⟨-, hmutex, hsame⟩
    · rw [hmutex]
      by_cases hm : m = t.party.mutex
      · subst hm
        rw [Function.update_self]
        exact iff_of_true rfl ⟨rfl, hin⟩
      · rw [Function.update_of_ne hm, hg m]
        exact iff_of_false (fun h => hm h.1.symm) fun h => hm h.1.symm
    · rw [hmutex]
      by_cases hm : m = t.party.mutex
      · subst hm
        rw [Function.update_self]
        exact iff_of_false nofun fun h => hout h.2
      · rw [Function.update_of_ne hm, hg m]
        exact iff_of_false (fun h => hm h.1.symm) fun h => hm h.1.symm
    · rw [hmutex, hg m, hsame]
  · rw [FileServer.inside_of_ne hstep hq]
    -- another party holds its object as before: the one that moves had none, or its own
    rcases FileServer.step_party hstep with
      ⟨-, hfree, hmutex, -⟩ | ⟨-, hin, -, hmutex⟩ | ⟨-, hmutex, -⟩
    · rw [hmutex]
      by_cases hm : m = t.party.mutex
      · subst hm
        rw [Function.update_self, ← hg, hfree]
        exact iff_of_false (fun h => hq (Option.some.inj h).symm) nofun
      · rw [Function.update_of_ne hm]
        exact hg m q
    · rw [hmutex]
      by_cases hm : m = t.party.mutex
      · subst hm
        rw [Function.update_self, ← hg, (hg _ _).mpr ⟨rfl, hin⟩]
        exact iff_of_false nofun fun h => hq (Option.some.inj h).symm
      · rw [Function.update_of_ne hm]
        exact hg m q
    · rw [hmutex]
      exact hg m q

/-- **Each mutex object keeps its own critical sections apart.**
Source: `handler.c`, `handle_connection`; `aesdsocket.c`, `alarm_handler`
Kind: P -/
theorem guarded_of_run (hrun : fileRun file sent steps = some s) : s.Guarded := by
  refine run_induction (P := fun _ s => s.Guarded) (FileServer.guarded_start file sent) ?_ hrun
  intro steps s t s' _ hg hstep
  exact hg.step hstep

/-! ### Mutual exclusion -/

/-- At most one party is between the lock and the unlock that guard appending to the file.
Source: `handler.c`, `handle_connection`; `aesdsocket.c`, `alarm_handler`
Kind: D -/
def FileServer.Exclusive (s : FileServer) : Prop := ∀ p q, s.Inside p → s.Inside q → p = q

/-- A step that locks a mutex object does so while the other object is free.
Source: `handler.c`, `handle_connection`; `aesdsocket.c`, `alarm_handler`
Kind: D -/
def LocksAlone (s : FileServer) (t : FileStep) : Prop :=
  t.locks = true → s.mutex t.party.mutex.other = none

/-- Whether a step locks alone is found in the state.
Source: none: infrastructure
Kind: D -/
instance (s : FileServer) (t : FileStep) : Decidable (LocksAlone s t) :=
  inferInstanceAs (Decidable (_ → _))

/-- There are two mutex objects.
Source: none: infrastructure
Kind: L -/
theorem MutexId.eq_other {m m' : MutexId} (hne : m ≠ m') : m = m'.other := by
  cases m <;> cases m' <;> first | rfl | exact absurd rfl hne

/-- A step keeps the parties apart exactly when it locks no mutex object while the other is held.
Source: `handler.c`, `handle_connection`; `aesdsocket.c`, `alarm_handler`
Kind: L -/
theorem FileServer.Guarded.exclusive_step (hg : s.Guarded) (hex : s.Exclusive)
    (hstep : s.step t = some s') : s'.Exclusive ↔ LocksAlone s t := by
  rcases FileServer.step_party hstep with
    ⟨hlock, hfree, -, hin⟩ | ⟨hlock, -, hout, -⟩ | ⟨hlock, -, hsame⟩
  · constructor
    · intro hex' _
      by_contra hheld
      obtain ⟨q, hq⟩ := Option.ne_none_iff_exists'.mp hheld
      obtain ⟨hqm, hqin⟩ := (hg _ q).mp hq
      have hne : q ≠ t.party := by
        rintro rfl
        cases hm : t.party.mutex <;> rw [hm] at hqm <;> cases hqm
      exact hne (hex' q t.party ((FileServer.inside_of_ne hstep hne).mpr hqin) hin)
    · intro halone
      have honly : ∀ q, s'.Inside q → q = t.party := by
        intro q hq
        by_contra hne
        have hheld := (hg q.mutex q).mpr ⟨rfl, (FileServer.inside_of_ne hstep hne).mp hq⟩
        by_cases hm : q.mutex = t.party.mutex
        · rw [hm, hfree] at hheld
          cases hheld
        · rw [MutexId.eq_other hm, halone hlock] at hheld
          cases hheld
      intro p q hp hq
      rw [honly p hp, honly q hq]
  · refine iff_of_true (fun p q hp hq => ?_) fun h => absurd h (by rw [hlock]; decide)
    have hbefore : ∀ r, s'.Inside r → s.Inside r := by
      intro r hr
      have hne : r ≠ t.party := fun h => hout (h ▸ hr)
      exact (FileServer.inside_of_ne hstep hne).mp hr
    exact hex p q (hbefore p hp) (hbefore q hq)
  · refine iff_of_true (fun p q hp hq => ?_) fun h => absurd h (by rw [hlock]; decide)
    have hbefore : ∀ r, s'.Inside r → s.Inside r := by
      intro r hr
      by_cases hne : r = t.party
      · subst hne
        exact hsame.mp hr
      · exact (FileServer.inside_of_ne hstep hne).mp hr
    exact hex p q (hbefore p hp) (hbefore q hq)

/-- **Mutual exclusion on the data file.** In a run of any number of connections and activations of
`alarm_handler` at most one party at a time is between its lock and its unlock exactly when no step
of the run locks one of the two mutex objects while the other one is held.
Source: `handler.c`, `handle_connection`; `aesdsocket.c`, `alarm_handler` and `main`
Kind: P -/
theorem data_file_exclusive_iff (hrun : fileRun file sent steps = some s) :
    Always FileServer.step FileServer.Exclusive (.start file sent) steps ↔
      Meets FileServer.step LocksAlone (.start file sent) steps := by
  refine run_induction (P := fun steps _ =>
    Always FileServer.step FileServer.Exclusive (.start file sent) steps ↔
      Meets FileServer.step LocksAlone (.start file sent) steps) ?_ ?_ hrun
  · refine iff_of_true (fun p q hp _ => ?_) trivial
    cases p <;> cases hp
  · intro steps s t s' hrun' ih hstep
    have hg := guarded_of_run hrun'
    rw [always_concat, meets_concat, ← ih]
    refine and_congr_right fun halways => ?_
    have hiff := hg.exclusive_step (halways.last hrun') hstep
    constructor
    · intro h u hu
      cases hrun'.symm.trans hu
      exact hiff.mp (h s s' hrun' hstep)
    · intro h u u' hu hu'
      cases hrun'.symm.trans hu
      cases hstep.symm.trans hu'
      exact hiff.mpr (h s hrun')

/-- An activation of `alarm_handler` from its lock to its return.
Source: `handler.c`, `handle_connection`; `aesdsocket.c`, `alarm_handler`
Kind: D -/
def tick (k : ℕ) (date : List UInt8) : List FileStep :=
  [.alarm k .lock, .alarm k (.openAppend true),
    .alarm k (.dprintf date (timestampLine date).length), .alarm k .close, .alarm k .unlock]

/-- A connection on which a line arrives, up to its lock.
Source: `handler.c`, `handle_connection`; `aesdsocket.c`, `alarm_handler`
Kind: D -/
def arriveAndLock (i : ℕ) (line : List UInt8) : List FileStep :=
  [.conn i (.malloc .moved fun _ => 0), .conn i (.openDevice true), .conn i (.recv (some line)),
    .conn i .lock]

/-- A connection through `append_packet` and its unlock.
Source: `handler.c`, `handle_connection`; `aesdsocket.c`, `alarm_handler`
Kind: D -/
def appendAndUnlock (i : ℕ) (payload : List UInt8) : List FileStep :=
  [.conn i (.openAppend true), .conn i (.write payload (some payload.length)),
    .conn i .closeAppend, .conn i (.appendReturns payload true), .conn i .unlock]

/-- A tick, a packet, and another tick, one after the other.
Source: `handler.c`, `handle_connection`; `aesdsocket.c`, `alarm_handler`
Kind: N+ -/
theorem data_file_exclusive_in_turn :
    Always FileServer.step FileServer.Exclusive (.start none fun _ => [97, 10])
      (tick 0 [] ++ arriveAndLock 0 [97, 10] ++ appendAndUnlock 0 [97, 10] ++ tick 1 []) := by
  obtain ⟨s, hs⟩ := Option.isSome_iff_exists.mp (show (fileRun none (fun _ => [97, 10])
    (tick 0 [] ++ arriveAndLock 0 [97, 10] ++ appendAndUnlock 0 [97, 10] ++ tick 1 [])).isSome =
      true by decide +kernel)
  exact (data_file_exclusive_iff hs).mpr (by decide +kernel)

/-- A timer tick while a connection appends: both are between their lock and their unlock.
Source: `handler.c`, `handle_connection`; `aesdsocket.c`, `alarm_handler`
Kind: N− -/
theorem data_file_not_exclusive :
    ¬ ∀ file sent steps s, fileRun file sent steps = some s → s.Exclusive := by
  intro h
  have hrun : (fileRun none (fun _ => [97, 10])
      (tick 0 [] ++ arriveAndLock 0 [97, 10] ++ [.alarm 1 .lock])).map
      (fun s => ((s.conns 0).pc.guarded, (s.alarms 1).guarded)) = some (true, true) := by
    decide +kernel
  obtain ⟨s, hs, hend⟩ := Option.map_eq_some_iff.mp hrun
  rw [Prod.mk.injEq] at hend
  exact absurd (h _ _ _ s hs (.conn 0) (.alarm 1) hend.1 hend.2) nofun

end guards

end Aesd.Server
