import Aesd.Server.Lifetime

/-!
# The return of `main` (`server/aesdsocket.c`)

Once a signal has unset `server_running`, `main` has a bounded number of steps left. It may be
anywhere: in `accept`, setting up a connection, or in `reap_threads` while the list changes under the
traversal. `Within l k` says of each place that `k` steps of `main` are enough from there, with the
nodes `l` in the list; a node costs five steps when it is joined, taken out and freed, and two more
when the traversal in the loop has passed over it before.

What `main` waits for meanwhile is not told by `Aesd.Server.Main`, in which a thread ends with the
step that sets `done`, and `accept` is interrupted when the environment says so. `ReturnState` adds
both: which threads have returned, which `pthread_join` waits for, and whether a signal handler has
run on the main thread while it was in `accept`. A signal that comes before that, between the test of
`server_running` and `accept`, or to another thread, leaves `main` in `accept`.

* `MainPc.Within.step` — every step of `main` is paid for;
* `MainState.JoinsDone` — the thread that is about to be joined has set `done`;
* `main_returns` — the bound, for every interleaving with the threads, and the two calls in which
  `main` waits: `accept`, and the `pthread_join` of a thread that has only its `return` to make.

The log calls, which may wait for a lock of the C library's, are left out, and so is the time that
`alarm_handler` takes on top of the main thread, for which see `Aesd.Server.Interrupt`.
-/

namespace Aesd.Server

open Aesd.Lib Aesd.Driver

/-! ### How far `main` is from its return -/

/-- The steps after a turn of `reap_threads`, with that many nodes behind its cursor and before it.
In the loop a node may be passed over and is met again by the last call.
Source: `aesdsocket.c`, `reap_threads`
Kind: D -/
def ReapSite.stepsLeft (site : ReapSite) (behind ahead : ℕ) : ℕ :=
  match site with
  | .inLoop => 5 * behind + 7 * ahead + 5
  | .final => 5 * ahead + 3

section turns

variable (site : ReapSite) (behind ahead : ℕ)

/-- The nodes of the list bound what is left.
Source: none: infrastructure
Kind: L -/
theorem ReapSite.stepsLeft_le : site.stepsLeft behind ahead ≤ 7 * (behind + ahead) + 5 := by
  unfold ReapSite.stepsLeft
  cases site <;> dsimp only <;> omega

/-- A node that is passed over pays for its turn.
Source: none: infrastructure
Kind: L -/
theorem ReapSite.stepsLeft_skip :
    site.stepsLeft (behind + 1) ahead + 2 ≤ site.stepsLeft behind (ahead + 1) := by
  unfold ReapSite.stepsLeft
  cases site <;> dsimp only <;> omega

/-- A node that is taken out pays for its turn.
Source: none: infrastructure
Kind: L -/
theorem ReapSite.stepsLeft_take :
    site.stepsLeft behind ahead + 5 ≤ site.stepsLeft behind (ahead + 1) := by
  unfold ReapSite.stepsLeft
  cases site <;> dsimp only <;> omega

end turns

/-- From this place in `reap_threads`, `main` returns within `k` steps of its own.
Source: `aesdsocket.c`, `reap_threads`
Kind: D -/
def ReapPc.Within (site : ReapSite) (l : List ℕ) (k : ℕ) : ReapPc → Prop
  | .next cur => ∃ pre rest, l = pre ++ rest ∧ cur = rest.head? ∧
      site.stepsLeft pre.length rest.length + 1 ≤ k
  | .test cur tmp => ∃ pre rest, l = pre ++ cur :: rest ∧ tmp = rest.head? ∧
      site.stepsLeft pre.length (rest.length + 1) ≤ k
  | .join cur tmp => ∃ pre rest, l = pre ++ cur :: rest ∧ tmp = rest.head? ∧
      site.stepsLeft pre.length rest.length + 4 ≤ k
  | .remove cur tmp => ∃ pre rest, l = pre ++ cur :: rest ∧ tmp = rest.head? ∧
      site.stepsLeft pre.length rest.length + 3 ≤ k
  | .free _ tmp => ∃ pre rest, l = pre ++ rest ∧ tmp = rest.head? ∧
      site.stepsLeft pre.length rest.length + 2 ≤ k

/-- From this place `main`, with the nodes `l` in its list and `server_running` unset, returns
within `k` steps of its own.
Source: `aesdsocket.c`, `main` and `reap_threads`
Kind: D -/
def MainPc.Within (l : List ℕ) (k : ℕ) : MainPc → Prop
  | .accept => 7 * l.length + 17 ≤ k
  | .malloc _ => 7 * l.length + 16 ≤ k
  | .insertHead _ _ => 7 * l.length + 15 ≤ k
  | .create _ _ => 7 * l.length + 7 ≤ k
  | .rollback _ _ => 5 * l.length + 3 ≤ k
  | .rollbackFree _ _ => 5 * l.length + 7 ≤ k
  | .acceptFailed _ | .closeClient _ => 5 * l.length + 6 ≤ k
  | .loop => 5 * l.length + 5 ≤ k
  | .reap site _ pc => pc.Within site l k
  | .closeSocket => 3 ≤ k
  | .destroyMutex => 2 ≤ k
  | .unlink => 1 ≤ k
  | .returned => True

/-- The step is one of `main`.
Source: `aesdsocket.c`, `main`
Kind: D -/
def MainStep.ofMain : MainStep → Bool
  | .main _ => true
  | _ => false

section returns

variable {build : Build} {s s' : MainState} {t : MainStep} {ev : MainEvent} {l : List ℕ} {k : ℕ}

/-- Wherever `main` is, the list bounds what it still does.
Source: `aesdsocket.c`, `main`
Kind: L -/
theorem Listed.within (hl : Listed s l) : s.pc.Within l (7 * l.length + 17) := by
  have hpos := hl.position
  cases hpc : s.pc with
  | reap site reapedCount pc =>
      rw [hpc] at hpos
      cases pc with
      | next cur | free cur tmp =>
          obtain ⟨pre, rest, rfl, hcur⟩ := hpos
          refine ⟨pre, rest, rfl, hcur, ?_⟩
          have hle := site.stepsLeft_le pre.length rest.length
          rw [List.length_append]
          omega
      | test cur tmp =>
          obtain ⟨pre, rest, rfl, hcur⟩ := hpos
          refine ⟨pre, rest, rfl, hcur, ?_⟩
          have hle := site.stepsLeft_le pre.length (rest.length + 1)
          rw [List.length_append, List.length_cons]
          omega
      | join cur tmp | remove cur tmp =>
          obtain ⟨pre, rest, rfl, hcur⟩ := hpos
          refine ⟨pre, rest, rfl, hcur, ?_⟩
          have hle := site.stepsLeft_le pre.length rest.length
          rw [List.length_append, List.length_cons]
          omega
  | _ => simp only [MainPc.Within] <;> omega

/-- Before its return `main` has a step to pay for.
Source: `aesdsocket.c`, `main`
Kind: L -/
theorem MainPc.Within.pos {pc : MainPc} (hw : pc.Within l k) (hpc : pc ≠ .returned) : 0 < k := by
  cases pc with
  | returned => exact absurd rfl hpc
  | reap site reapedCount pc =>
      cases pc with
      | test cur tmp =>
          obtain ⟨pre, rest, -, -, hk⟩ := hw
          have htake := site.stepsLeft_take pre.length rest.length
          omega
      | next | join | remove | free =>
          obtain ⟨pre, rest, -, -, hk⟩ := hw
          omega
  | _ =>
      simp only [MainPc.Within] at hw
      omega

/-- The traversal starts with the whole list ahead.
Source: `aesdsocket.c`, `reap_threads`
Kind: L -/
theorem within_enterReap {site : ReapSite} (hl : s.store.Linked s.head l)
    (hk : site.stepsLeft 0 l.length + 1 ≤ k) : (s.enterReap site).pc.Within l k :=
  ⟨[], l, rfl, hl.head_eq, hk⟩

/-- A step of `main` where it holds no node.
Source: `aesdsocket.c`, `main`
Kind: L -/
theorem MainPc.Within.of_idle (hidle : s.pc.idle = true) (hl : s.store.Linked s.head l)
    (hstop : s.running = false) (hw : s.pc.Within l (k + 1))
    (hstep : s.mainStep build ev = some s') : s'.pc.Within l k := by
  cases hpc : s.pc with
  | insertHead | create | rollback | rollbackFree | reap =>
      rw [hpc] at hidle
      cases hidle
  | returned =>
      simp only [MainState.mainStep, hpc] at hstep
      cases hstep
  | loop =>
      simp only [MainState.mainStep, hpc, hstop] at hstep
      simp only [hpc, MainPc.Within] at hw
      cases ev with
      | goOn =>
          cases hstep
          apply within_enterReap hl
          simp only [ReapSite.stepsLeft]
          omega
      | _ => cases hstep
  | accept =>
      simp only [MainState.mainStep, hpc] at hstep
      simp only [hpc, MainPc.Within] at hw
      cases ev with
      | accept result =>
          cases result with
          | ok clfd | error eintr =>
              cases hstep
              simp only [MainPc.Within]
              omega
      | _ => cases hstep
  | acceptFailed eintr =>
      simp only [MainState.mainStep, hpc] at hstep
      simp only [hpc, MainPc.Within] at hw
      cases ev with
      | goOn =>
          cases hstep
          split_ifs
          · apply within_enterReap hl
            simp only [ReapSite.stepsLeft]
            omega
          · simp only [MainPc.Within]
            omega
      | _ => cases hstep
  | malloc clfd =>
      simp only [MainState.mainStep, hpc] at hstep
      simp only [hpc, MainPc.Within] at hw
      cases ev with
      | malloc ok =>
          cases hstep
          split_ifs
          · simp only [MainState.newNode, MainPc.Within]
            omega
          · simp only [MainPc.Within]
            omega
      | _ => cases hstep
  | closeSocket =>
      simp only [MainState.mainStep, hpc] at hstep
      simp only [hpc, MainPc.Within] at hw
      cases ev with
      | goOn =>
          cases hstep
          cases build with
          | charDevice => trivial
          | dataFile =>
              simp only [MainPc.Within]
              omega
      | _ => cases hstep
  | closeClient clfd | destroyMutex | unlink =>
      simp only [MainState.mainStep, hpc] at hstep
      simp only [hpc, MainPc.Within] at hw
      cases ev with
      | goOn =>
          cases hstep
          simp only [MainPc.Within]
          try omega
      | _ => cases hstep

/-- **A step of `main` is paid for.**
Source: `aesdsocket.c`, `main` and `reap_threads`
Kind: L -/
theorem MainPc.Within.step (hl : Listed s l) (hsafe : ¬ s.Dangling (.main ev))
    (hstop : s.running = false) (hw : s.pc.Within l (k + 1))
    (hstep : s.mainStep build ev = some s') :
    ∃ l', s'.store.Linked s'.head l' ∧ s'.pc.Within l' k := by
  have hlinked := hl.linked
  cases MainState.steps_of_mainStep hstep with
  | faults hbad => exact absurd hbad hsafe
  | moves hpc _ _ => exact ⟨l, hlinked, hw.of_idle hpc hlinked hstop hstep⟩
  | enters hpc _ => exact ⟨l, hlinked, hw.of_idle hpc hlinked hstop hstep⟩
  | mallocs hpc =>
      have hidle : s.pc.idle = true := by rw [hpc]; rfl
      exact ⟨l, (hl.newNode hpc).linked, hw.of_idle hidle hlinked hstop hstep⟩
  | inserts hpc hop =>
      rw [hpc] at hw
      refine ⟨_, (hl.insertHead hpc hop).linked, ?_⟩
      simp only [MainPc.Within, List.length_cons] at hw ⊢
      omega
  | @creates _ clfd node c hpc hc =>
      rw [hpc] at hw
      have hlinked' : ((s.newThread node c).enterReap .inLoop).store.Linked s.head l :=
        hlinked.congr fun a _ => map_next_setVal hc _ a
      refine ⟨l, hlinked', within_enterReap hlinked' ?_⟩
      simp only [MainPc.Within, ReapSite.stepsLeft] at hw ⊢
      omega
  | createFails hpc =>
      rw [hpc] at hw
      refine ⟨l, hlinked, ?_⟩
      simp only [MainPc.Within] at hw ⊢
      omega
  | unlinks hpc hop =>
      rw [hpc] at hw
      have hpos := hl.position
      rw [hpc] at hpos
      obtain ⟨pre, rest, rfl⟩ := List.append_of_mem hpos
      obtain ⟨store', head', hop', hlinked', -⟩ := hl.remove
      cases hop.symm.trans hop'
      refine ⟨_, hlinked', ?_⟩
      simp only [MainPc.Within, List.length_append, List.length_cons] at hw ⊢
      omega
  | @rollsBack _ clfd node hpc _ =>
      rw [hpc] at hw
      have hloose : s.pc.loose = some node := by rw [hpc]; rfl
      refine ⟨l, hlinked.congr (Store.map_next_update_of_notMem (hl.loose node hloose)), ?_⟩
      simp only [MainPc.Within] at hw ⊢
      omega
  | @leaves _ site _ hpc =>
      rw [hpc] at hw
      obtain ⟨pre, rest, rfl, hrest, hk⟩ := hw
      obtain rfl : rest = [] := List.head?_eq_none_iff.mp hrest.symm
      refine ⟨_, hlinked, ?_⟩
      cases site with
      | inLoop | final =>
          simp only [ReapSite.after, MainPc.Within, ReapSite.stepsLeft, List.append_nil,
            List.length_nil] at hk ⊢
          omega
  | @visits _ site reapedCount cur c hpc hc =>
      rw [hpc] at hw
      obtain ⟨pre, rest, rfl, hcur, hk⟩ := hw
      cases rest with
      | nil => cases hcur
      | cons a rest =>
          cases hcur
          refine ⟨_, hlinked, pre, rest, rfl, hlinked.next_eq hc, ?_⟩
          rw [List.length_cons] at hk
          omega
  | @skips site reapedCount cur tmp c hpc _ _ =>
      rw [hpc] at hw
      obtain ⟨pre, rest, rfl, htmp, hk⟩ := hw
      refine ⟨_, hlinked, pre ++ [cur], rest, ?_, htmp, ?_⟩
      · rw [List.append_assoc, List.singleton_append]
      · have hskip := site.stepsLeft_skip pre.length rest.length
        rw [List.length_append, List.length_singleton]
        omega
  | @finds _ site reapedCount cur tmp c hpc _ _ =>
      rw [hpc] at hw
      obtain ⟨pre, rest, rfl, htmp, hk⟩ := hw
      have htake := site.stepsLeft_take pre.length rest.length
      exact ⟨_, hlinked, pre, rest, rfl, htmp, by omega⟩
  | joins hpc _ _ _ _ _ =>
      rw [hpc] at hw
      obtain ⟨pre, rest, rfl, htmp, hk⟩ := hw
      exact ⟨_, hlinked, pre, rest, rfl, htmp, by omega⟩
  | removes hpc hop =>
      rw [hpc] at hw
      obtain ⟨pre, rest, rfl, htmp, hk⟩ := hw
      obtain ⟨store', head', hop', hlinked', -⟩ := hl.remove
      cases hop.symm.trans hop'
      exact ⟨_, hlinked', pre, rest, rfl, htmp, by omega⟩
  | @frees _ site reapedCount cur tmp hpc _ =>
      rw [hpc] at hw
      obtain ⟨pre, rest, rfl, htmp, hk⟩ := hw
      have hloose : s.pc.loose = some cur := by rw [hpc]; rfl
      exact ⟨_, hlinked.congr (Store.map_next_update_of_notMem (hl.loose cur hloose)), pre, rest,
        rfl, htmp, by omega⟩

/-! ### What `main` waits for -/

/-- The node whose thread is about to be joined.
Source: `aesdsocket.c`, `main` and `reap_threads`
Kind: D -/
def MainPc.joining : MainPc → Option ℕ
  | .reap _ _ (.join cur _) => some cur
  | _ => none

/-- The thread that is about to be joined.
Source: `aesdsocket.c`, `reap_threads`
Kind: D -/
def MainState.joins (s : MainState) : Option ℕ :=
  s.pc.joining.bind fun cur => (s.store cur).bind fun c => c.val.threadId

/-- What may come at a place: an answer to the call that is made there.
Source: `aesdsocket.c`, `main`
Kind: D -/
def MainPc.Awaits : MainPc → MainEvent → Prop
  | .accept, .accept _ => True
  | .malloc _, .malloc _ => True
  | .create _ _, .create _ => True
  | .accept, _ | .malloc _, _ | .create _ _, _ | .returned, _ => False
  | _, .goOn => True
  | _, _ => False

/-- The node whose thread is about to be joined is done.
Source: `aesdsocket.c`, `main` and `reap_threads`
Kind: D -/
def MainState.JoinsDone (s : MainState) : Prop :=
  ∀ cur n, s.pc.joining = some cur → s.store.val? cur = some n → n.done = true

/-- Where `main` holds no node it joins no thread.
Source: `aesdsocket.c`, `main`
Kind: L -/
theorem MainPc.joining_of_idle {pc : MainPc} (hidle : pc.idle = true) : pc.joining = none := by
  cases pc with
  | reap _ _ _ => cases hidle
  | _ => rfl

/-- `done` is not unset.
Source: `handler.c`, `handle_connection`
Kind: L -/
theorem Event.done_mark (ev : Event) {n : ConnNode} (hdone : n.done = true) :
    (ev.mark n).done = true := by
  cases ev with
  | setDone => rfl
  | _ => exact hdone

/-- `main` comes to `pthread_join` with a node that is done, and finds it so.
Source: `aesdsocket.c`, `reap_threads`
Kind: L -/
theorem MainState.JoinsDone.step (hj : s.JoinsDone) (hsafe : ¬ s.Dangling t)
    (hstep : s.Steps build t s') : s'.JoinsDone := by
  cases hstep with
  | faults hbad => exact absurd hbad hsafe
  | moves _ hpc' _ =>
      intro cur n hcur
      change MainPc.joining _ = _ at hcur
      rw [MainPc.joining_of_idle hpc'] at hcur
      cases hcur
  | @leaves _ site _ _ =>
      rintro cur n hcur
      cases site <;> cases hcur
  | finds _ hc hdone =>
      rintro cur n ⟨⟩ hn
      rw [Store.val?, hc] at hn
      cases hn
      exact hdone
  | signals => exact hj
  | @handles tid ev th h c _ _ hc =>
      intro cur n hcur hn
      rcases Store.val?_update_eq_some_iff.mp hn with ⟨rfl, rfl⟩ | ⟨-, hn⟩
      · apply ev.done_mark
        exact hj _ _ hcur (by rw [Store.val?, hc]; rfl)
      · exact hj cur n hcur hn
  | enters | mallocs | inserts | creates | createFails | unlinks | rollsBack | visits | skips
  | joins | removes | frees => rintro cur n ⟨⟩

/-- The thread that is about to be joined has set `done`.
Source: `aesdsocket.c`, `reap_threads`
Kind: L -/
theorem MainState.JoinsDone.finished {tid : ℕ} (hj : s.JoinsDone) (ht : Threaded s)
    (htid : s.joins = some tid) :
    ∃ th, s.threads tid = some th ∧ th.handler.pc = .finished := by
  obtain ⟨cur, hcur, hnode⟩ := Option.bind_eq_some_iff.mp htid
  obtain ⟨c, hc, hthread⟩ := Option.bind_eq_some_iff.mp hnode
  have hn : s.store.val? cur = some c.val := by
    rw [Store.val?, hc]
    rfl
  obtain ⟨th, hth, -, hend⟩ := ht.threaded cur c.val tid hn hthread
  exact ⟨th, hth, hend.mp (hj cur c.val hcur hn)⟩

/-- Whatever the environment answers, `main` goes on, once the thread it joins has set `done`.
Source: `aesdsocket.c`, `main` and `reap_threads`
Kind: L -/
theorem MainState.exists_mainStep (ht : Threaded s) (hj : s.JoinsDone)
    (hev : s.pc.Awaits ev) : ∃ s', s.mainStep build ev = some s' := by
  cases hpc : s.pc with
  | reap site reapedCount pc =>
      rw [hpc] at hev
      cases ev with
      | goOn =>
          simp only [MainState.mainStep, hpc]
          cases pc with
          | next cur => cases cur <;> exact ⟨_, rfl⟩
          | test | remove | free => exact ⟨_, rfl⟩
          | join cur tmp =>
              simp only [MainState.reapThreads]
              cases htid : (s.store cur).bind fun c => c.val.threadId with
              | none => exact ⟨_, rfl⟩
              | some tid =>
                  have hjoins : s.joins = some tid := by
                    rw [MainState.joins, hpc]
                    exact htid
                  obtain ⟨th, hth, hend⟩ := hj.finished ht hjoins
                  simp only [hth]
                  rw [if_pos hend]
                  split_ifs <;> exact ⟨_, rfl⟩
      | _ => cases hev
  | returned =>
      rw [hpc] at hev
      cases hev
  | create clfd node =>
      rw [hpc] at hev
      cases ev with
      | create ok =>
          simp only [MainState.mainStep, hpc]
          cases ok <;> exact ⟨_, rfl⟩
      | _ => cases hev
  | accept =>
      rw [hpc] at hev
      cases ev with
      | accept result =>
          simp only [MainState.mainStep, hpc]
          cases result <;> exact ⟨_, rfl⟩
      | _ => cases hev
  | _ =>
      rw [hpc] at hev
      simp only [MainState.mainStep, hpc]
      cases ev <;> first | exact ⟨_, rfl⟩ | cases hev

/-! ### Runs -/

variable {steps : List MainStep}

/-- `server_running` stays unset.
Source: `aesdsocket.c`, `main`
Kind: L -/
theorem MainState.Steps.running_eq (hstep : s.Steps build t s') (hsafe : ¬ s.Dangling t)
    (hstop : s.running = false) : s'.running = false := by
  cases hstep with
  | faults hbad => exact absurd hbad hsafe
  | signals => rfl
  | _ => exact hstop

/-- So it is along every run.
Source: `aesdsocket.c`, `main` and `reap_threads`
Kind: L -/
theorem joinsDone_of_run (hrun : mainRun build steps = some s) : s.JoinsDone := by
  refine run_induction (P := fun _ s => s.JoinsDone) ?_ ?_ hrun
  · rintro cur n ⟨⟩
  · intro steps s t s' hrun' hj hstep
    obtain ⟨⟨l, hl⟩, ht, -⟩ := lifetime_of_run hrun'
    exact hj.step (not_dangling hl ht) (MainState.steps_of_step hstep)

/-- A state of a run after the signal, from which `main` returns within `k` steps of its own.
Source: `aesdsocket.c`, `main`
Kind: D -/
structure MainState.Ending (build : Build) (k : ℕ) (s : MainState) : Prop where
  reached : ∃ steps, mainRun build steps = some s
  stopped : s.running = false
  within : ∃ l, s.store.Linked s.head l ∧ s.pc.Within l k

/-- Every step of `main` is paid for, and the other ones cost nothing.
Source: `aesdsocket.c`, `main`
Kind: L -/
theorem MainState.Ending.step (he : s.Ending build k) (hstep : s.step build t = some s') :
    ∃ j, k = t.ofMain.toNat + j ∧ s'.Ending build j := by
  obtain ⟨⟨steps, hrun⟩, hstop, l, hlinked, hw⟩ := he
  obtain ⟨⟨l', hl⟩, ht, -⟩ := lifetime_of_run hrun
  cases hlinked.unique hl.linked
  have hsafe : ¬ s.Dangling t := not_dangling hl ht
  have hsteps := MainState.steps_of_step hstep
  have hreached : ∃ steps, mainRun build steps = some s' :=
    ⟨steps ++ [t], run_concat.mpr ⟨s, hrun, hstep⟩⟩
  have hstopped := hsteps.running_eq hsafe hstop
  cases t with
  | main ev =>
      have hpc : s.pc ≠ .returned := by
        intro hpc
        simp only [MainState.step, MainState.mainStep, hpc] at hstep
        cases hstep
      obtain ⟨j, rfl⟩ := Nat.exists_eq_add_of_lt (hw.pos hpc)
      rw [Nat.zero_add] at hw
      exact ⟨j, by simp [MainStep.ofMain, Nat.add_comm], hreached, hstopped,
        hw.step hl hsafe hstop hstep⟩
  | signal =>
      cases hstep
      exact ⟨k, by simp [MainStep.ofMain], hreached, hstopped, l, hlinked, hw⟩
  | handler tid ev =>
      refine ⟨k, by simp [MainStep.ofMain], hreached, hstopped, ?_⟩
      cases hsteps with
      | faults hbad => exact absurd hbad hsafe
      | handles _ _ hc => exact ⟨l, hlinked.congr fun a _ => map_next_setVal hc _ a, hw⟩

/-- `main` goes on, once the thread it joins has set `done`.
Source: `aesdsocket.c`, `main`
Kind: L -/
theorem MainState.Ending.exists_step {ev : MainEvent} (he : s.Ending build k)
    (hev : s.pc.Awaits ev) : ∃ s', s.step build (.main ev) = some s' := by
  obtain ⟨steps, hrun⟩ := he.reached
  exact MainState.exists_mainStep (lifetime_of_run hrun).2.1 (joinsDone_of_run hrun) hev

/-- With `server_running` unset, `main` does not come back to `accept`.
Source: `aesdsocket.c`, `main`
Kind: L -/
theorem MainState.mainStep_pc_ne_accept (hsafe : ¬ s.Dangling (.main ev))
    (hstop : s.running = false) (hstep : s.mainStep build ev = some s') : s'.pc ≠ .accept := by
  intro hpc'
  cases MainState.steps_of_mainStep hstep with
  | moves hidle _ _ =>
      replace hstep := congrArg (Option.map MainState.pc) hstep
      simp only [Option.map_some] at hstep hpc'
      rw [hpc'] at hstep
      cases hpc : s.pc with
      | insertHead | create | rollback | rollbackFree | reap => simp [hpc, MainPc.idle] at hidle
      | accept =>
          simp only [MainState.mainStep, hpc] at hstep
          cases ev with
          | accept result => cases result <;> cases hstep
          | _ => cases hstep
      | malloc clfd =>
          simp only [MainState.mainStep, hpc] at hstep
          cases ev with
          | malloc ok => cases ok <;> cases hstep
          | _ => cases hstep
      | acceptFailed eintr =>
          simp only [MainState.mainStep, hpc, hstop] at hstep
          cases ev with
          | goOn => cases eintr <;> cases hstep
          | _ => cases hstep
      | loop | closeClient | closeSocket | destroyMutex | unlink | returned =>
          simp only [MainState.mainStep, hpc, hstop] at hstep
          cases ev with
          | goOn =>
              cases build <;> simp [MainState.enterReap] at hstep
          | _ => cases hstep
  | @leaves _ site _ _ => cases site <;> cases hpc'
  | faults hbad => exact hsafe hbad
  | _ => cases hpc'

end returns

/-! ### Returned threads and interrupted calls -/

/-- `main` and its threads, the threads that have returned, and whether a signal handler has run on
the main thread while it is in `accept`.
Source: `aesdsocket.c`, `main` and `signal_handler`; `handler.c`, `handle_connection`
Kind: D -/
structure ReturnState where
  main : MainState
  ended : ℕ → Bool
  eintr : Bool

/-- A step of `main`, a signal `SIGINT` or `SIGTERM` that is delivered to the main thread or to
another one, a step of a thread up to the one that sets `done`, or the return of a thread after it.
Source: `aesdsocket.c`, `main` and `signal_handler`; `handler.c`, `handle_connection`
Kind: D -/
inductive ReturnStep where
  | main (ev : MainEvent)
  | signal (onMain : Bool)
  | handler (tid : ℕ) (ev : Event)
  | returns (tid : ℕ)

/-- `accept` has been interrupted.
Source: `aesdsocket.c`, `main`
Kind: D -/
def MainEvent.eintr : MainEvent → Bool
  | .accept (.error true) => true
  | _ => false

/-- The one event that says so.
Source: none: infrastructure
Kind: L -/
theorem MainEvent.eintr_iff {ev : MainEvent} : ev.eintr = true ↔ ev = .accept (.error true) := by
  constructor
  · intro h
    unfold MainEvent.eintr at h
    split at h
    · rfl
    · cases h
  · rintro rfl
    rfl

/-- The call that `main` is in returns: an interruption of `accept` needs a signal handler that has
run there, `SIGALRM` restarting the call, and `pthread_join` the return of the thread.
Source: `aesdsocket.c`, `main` and `reap_threads`
Kind: D -/
def ReturnState.Returns (s : ReturnState) (ev : MainEvent) : Prop :=
  (ev.eintr = true → s.eintr = true) ∧ ∀ tid ∈ s.main.joins, s.ended tid = true

/-- Whether the call returns is found in the state.
Source: none: infrastructure
Kind: D -/
instance (s : ReturnState) (ev : MainEvent) : Decidable (s.Returns ev) :=
  inferInstanceAs (Decidable (_ ∧ _))

/-- A step of `main`, of a thread, of a signal, or the return of a thread that has set `done`.
Source: `aesdsocket.c`, `main` and `signal_handler`; `handler.c`, `handle_connection`
Kind: D -/
def ReturnState.step (build : Build) (s : ReturnState) : ReturnStep → Option ReturnState
  | .main ev =>
      if s.Returns ev then
        (s.main.step build (.main ev)).map fun m => { s with main := m, eintr := false }
      else none
  | .signal onMain =>
      (s.main.step build .signal).map fun m =>
        { s with main := m, eintr := s.eintr || (onMain && decide (s.main.pc = .accept)) }
  | .handler tid ev => (s.main.step build (.handler tid ev)).map fun m => { s with main := m }
  | .returns tid =>
      (s.main.threads tid).bind fun th =>
        if th.handler.pc = .finished ∧ s.ended tid = false then
          some { s with ended := Function.update s.ended tid true }
        else none

/-- The process after the steps, from the start of the accept loop.
Source: `aesdsocket.c`, `main`
Kind: D -/
def returnRun (build : Build) (steps : List ReturnStep) : Option ReturnState :=
  run (ReturnState.step build) ⟨.start, fun _ => false, false⟩ steps

/-- The step as `Aesd.Server.Main` knows it.
Source: none: infrastructure
Kind: D -/
def ReturnStep.mainStep : ReturnStep → Option MainStep
  | .main ev => some (.main ev)
  | .signal _ => some .signal
  | .handler tid ev => some (.handler tid ev)
  | .returns _ => none

/-- The step is one of `main`.
Source: none: infrastructure
Kind: D -/
def ReturnStep.ofMain : ReturnStep → Bool
  | .main _ => true
  | _ => false

/-- The step is one of `main` that needs no client, or the return of a thread.
Source: none: infrastructure
Kind: D -/
def ReturnStep.alone : ReturnStep → Bool
  | .main (.accept result) => MainEvent.eintr (.accept result)
  | .main _ | .returns _ => true
  | .signal _ | .handler _ _ => false

section returns

variable {build : Build} {s s' : ReturnState} {t : ReturnStep} {steps : List ReturnStep} {k : ℕ}

/-- A step is one of `Aesd.Server.Main`, or leaves `main` and the places of the threads alone.
Source: none: infrastructure
Kind: L -/
theorem ReturnState.main_of_step (hstep : s.step build t = some s') :
    (∃ u, t.mainStep = some u ∧ s.main.step build u = some s'.main) ∨
      (t.mainStep = none ∧ s'.main = s.main) := by
  cases t with
  | main ev =>
      rw [ReturnState.step, Option.ite_none_right_eq_some] at hstep
      obtain ⟨m, hm, rfl⟩ := Option.map_eq_some_iff.mp hstep.2
      exact .inl ⟨_, rfl, hm⟩
  | signal onMain =>
      cases hstep
      exact .inl ⟨_, rfl, rfl⟩
  | handler tid ev =>
      obtain ⟨m, hm, rfl⟩ := Option.map_eq_some_iff.mp hstep
      exact .inl ⟨_, rfl, hm⟩
  | returns tid =>
      obtain ⟨th, -, hstep⟩ := Option.bind_eq_some_iff.mp hstep
      rw [Option.ite_none_right_eq_some] at hstep
      cases hstep.2
      exact .inr ⟨rfl, rfl⟩

/-- `main` and the threads run as in `Aesd.Server.Main`.
Source: none: infrastructure
Kind: L -/
theorem mainRun_of_returnRun (hrun : returnRun build steps = some s) :
    mainRun build (steps.filterMap ReturnStep.mainStep) = some s.main := by
  refine run_filterMap (f := ReturnState.main) ?_ ?_ hrun
  · intro s t s' a hstep ha
    rcases ReturnState.main_of_step hstep with ⟨u, hu, hm⟩ | ⟨hnone, -⟩
    · cases ha.symm.trans hu
      exact hm
    · cases ha.symm.trans hnone
  · intro s t s' hstep ha
    rcases ReturnState.main_of_step hstep with ⟨u, hu, -⟩ | ⟨-, hsame⟩
    · cases ha.symm.trans hu
    · exact hsame

/-- Every step of `main` is paid for.
Source: `aesdsocket.c`, `main` and `reap_threads`
Kind: L -/
theorem ReturnState.ending_step (he : s.main.Ending build k) (hstep : s.step build t = some s') :
    ∃ j, k = t.ofMain.toNat + j ∧ s'.main.Ending build j := by
  rcases ReturnState.main_of_step hstep with ⟨u, hu, hm⟩ | ⟨hnone, hsame⟩
  · obtain ⟨j, hj, he'⟩ := he.step hm
    refine ⟨j, ?_, he'⟩
    rw [hj]
    cases t <;> cases hu <;> rfl
  · refine ⟨k, ?_, by rwa [hsame]⟩
    cases t with
    | returns tid => simp [ReturnStep.ofMain]
    | main _ | signal _ | handler _ _ => cases hnone

/-- `main` goes on when its call returns, and not before.
Source: `aesdsocket.c`, `main`
Kind: L -/
theorem ReturnState.exists_step_iff {ev : MainEvent} (he : s.main.Ending build k)
    (hev : s.main.pc.Awaits ev) :
    (∃ s', s.step build (.main ev) = some s') ↔ s.Returns ev := by
  obtain ⟨m, hm⟩ := he.exists_step hev
  rw [ReturnState.step, hm]
  by_cases hret : s.Returns ev
  · simp [hret]
  · simp [hret]

/-- The thread that `pthread_join` waits for has only its `return` to make.
Source: `handler.c`, `handle_connection`; `aesdsocket.c`, `reap_threads`
Kind: L -/
theorem ReturnState.step_returns {tid : ℕ} (he : s.main.Ending build k)
    (hjoins : s.main.joins = some tid) (hended : s.ended tid = false) :
    s.step build (.returns tid) = some { s with ended := Function.update s.ended tid true } := by
  obtain ⟨steps, hrun⟩ := he.reached
  obtain ⟨th, hth, hend⟩ := (joinsDone_of_run hrun).finished (lifetime_of_run hrun).2.1 hjoins
  simp [ReturnState.step, hth, hend, hended]

/-- Before its return `main` is at a call that may answer without a client.
Source: none: infrastructure
Kind: L -/
theorem MainPc.exists_awaits {pc : MainPc} (hpc : pc ≠ .returned) :
    ∃ ev, pc.Awaits ev ∧ (ReturnStep.main ev).alone = true ∧
      (ev.eintr = true → pc = .accept) := by
  cases pc with
  | returned => exact absurd rfl hpc
  | accept => exact ⟨.accept (.error true), trivial, rfl, fun _ => rfl⟩
  | malloc clfd => exact ⟨.malloc true, trivial, rfl, nofun⟩
  | create clfd node => exact ⟨.create true, trivial, rfl, nofun⟩
  | _ => exact ⟨.goOn, trivial, rfl, nofun⟩

/-- Where `main` joins no thread that has not returned, it can go on without a client.
Source: `aesdsocket.c`, `main`
Kind: L -/
theorem ReturnState.exists_alone_step (he : s.main.Ending build (k + 1))
    (hpc : s.main.pc ≠ .returned) (haccept : s.main.pc = .accept → s.eintr = true)
    (hjoins : ∀ tid ∈ s.main.joins, s.ended tid = true) :
    ∃ t s', t.alone = true ∧ s.step build t = some s' ∧ s'.main.Ending build k ∧
      s'.main.pc ≠ .accept := by
  obtain ⟨ev, hev, halone, heintr⟩ := MainPc.exists_awaits hpc
  obtain ⟨s', hstep⟩ := (ReturnState.exists_step_iff he hev).mpr
    ⟨fun h => haccept (heintr h), hjoins⟩
  obtain ⟨j, hj, he'⟩ := ReturnState.ending_step he hstep
  obtain rfl : k = j := by
    simp only [ReturnStep.ofMain, Bool.toNat_true] at hj
    omega
  refine ⟨.main ev, s', halone, hstep, he', ?_⟩
  rcases ReturnState.main_of_step hstep with ⟨u, hu, hm⟩ | ⟨hnone, -⟩
  · cases hu
    obtain ⟨steps, hrun⟩ := he.reached
    obtain ⟨⟨l, hl⟩, ht, -⟩ := lifetime_of_run hrun
    exact MainState.mainStep_pc_ne_accept (not_dangling hl ht) he.stopped hm
  · cases hnone

/-- The thread that is joined returns, if it has not.
Source: `handler.c`, `handle_connection`; `aesdsocket.c`, `reap_threads`
Kind: L -/
theorem ReturnState.exists_joinable (he : s.main.Ending build k) :
    ∃ before s', (∀ t ∈ before, ReturnStep.alone t = true) ∧
      run (ReturnState.step build) s before = some s' ∧ s'.main = s.main ∧ s'.eintr = s.eintr ∧
      ∀ tid ∈ s'.main.joins, s'.ended tid = true := by
  by_cases hjoins : ∀ tid ∈ s.main.joins, s.ended tid = true
  · exact ⟨[], s, nofun, rfl, rfl, rfl, hjoins⟩
  · simp only [Classical.not_forall, Option.mem_def, Bool.not_eq_true] at hjoins
    obtain ⟨tid, htid, hended⟩ := hjoins
    have hstep := ReturnState.step_returns he htid hended
    refine ⟨[.returns tid], _, ?_, run_cons.mpr ⟨_, hstep, rfl⟩, rfl, rfl, ?_⟩
    · simp [ReturnStep.alone]
    · intro tid' htid'
      cases htid.symm.trans htid'
      exact Function.update_self _ _ _

/-- `main` can return with no client, no signal and no step of a thread but returns.
Source: `aesdsocket.c`, `main`
Kind: L -/
theorem ReturnState.exists_return (he : s.main.Ending build k)
    (haccept : s.main.pc = .accept → s.eintr = true) :
    ∃ more s', (∀ t ∈ more, ReturnStep.alone t = true) ∧
      run (ReturnState.step build) s more = some s' ∧ s'.main.pc = .returned := by
  induction k generalizing s with
  | zero =>
      obtain ⟨l, -, hw⟩ := he.within
      refine ⟨[], s, nofun, rfl, ?_⟩
      by_contra hpc
      exact Nat.lt_irrefl 0 (hw.pos hpc)
  | succ k ih =>
      by_cases hpc : s.main.pc = .returned
      · exact ⟨[], s, nofun, rfl, hpc⟩
      -- a thread that is joined returns first
      obtain ⟨before, s₁, hbefore, hrun₁, hmain, heintr, hjoins⟩ :
          ∃ before s₁, (∀ t ∈ before, ReturnStep.alone t = true) ∧
            run (ReturnState.step build) s before = some s₁ ∧ s₁.main = s.main ∧
            s₁.eintr = s.eintr ∧ ∀ tid ∈ s₁.main.joins, s₁.ended tid = true :=
        ReturnState.exists_joinable he
      obtain ⟨t, s₂, ht, hstep, he₂, hpc₂⟩ := ReturnState.exists_alone_step (s := s₁)
        (by rwa [hmain]) (by rwa [hmain]) (by rwa [hmain, heintr]) hjoins
      obtain ⟨more, s', hmore, hrun', hret⟩ := ih he₂ fun h => absurd h hpc₂
      refine ⟨before ++ t :: more, s', ?_, ?_, hret⟩
      · simp only [List.mem_append, List.mem_cons]
        rintro u (hu | rfl | hu)
        · exact hbefore u hu
        · exact ht
        · exact hmore u hu
      · exact run_append.mpr ⟨s₁, hrun₁, run_cons.mpr ⟨s₂, hstep, hrun'⟩⟩

/-- **After a signal `main` returns, but for `accept`.** In every run, from any state in which
`server_running` is unset, however the threads, their returns and further signals interleave: `main`
makes at most seven steps for each node in the list and seventeen more. At every place before its
return it goes on with whatever the call it is at answers, except that it waits in `accept` for a
client, for an error or for a signal handler that runs there, and in `pthread_join` for the return of
the thread; that thread has set `done`, and its return is its next step and can be made. So where
`main` is not in `accept`, or a handler has run there, it can return with no client, no signal and no
step of a thread but the returns it waits for; and from `accept` one signal to the main thread is
enough.
Source: `aesdsocket.c`, `main`, `reap_threads` and `signal_handler`; `handler.c`, `handle_connection`
Kind: P -/
theorem main_returns (hrun : returnRun build steps = some s) (hstop : s.main.running = false) :
    ∃ l, s.main.store.Linked s.main.head l ∧
      ∀ rest s', run (ReturnState.step build) s rest = some s' →
        rest.countP ReturnStep.ofMain ≤ 7 * l.length + 17 ∧
        (∀ ev, s'.main.pc.Awaits ev → ((∃ s'', s'.step build (.main ev) = some s'') ↔
          (ev = .accept (.error true) → s'.eintr = true) ∧
          ∀ tid, s'.main.joins = some tid → s'.ended tid = true)) ∧
        (∀ tid, s'.main.joins = some tid → s'.ended tid = false →
          s'.step build (.returns tid) =
            some { s' with ended := Function.update s'.ended tid true }) ∧
        ((s'.main.pc = .accept → s'.eintr = true) →
          ∃ more s'', (∀ t ∈ more, ReturnStep.alone t = true) ∧
            run (ReturnState.step build) s' more = some s'' ∧ s''.main.pc = .returned) ∧
        (s'.main.pc = .accept →
          ∃ more s'', (∀ t ∈ more, ReturnStep.alone t = true) ∧
            run (ReturnState.step build) s' (.signal true :: more) = some s'' ∧
            s''.main.pc = .returned) := by
  have hmain := mainRun_of_returnRun hrun
  obtain ⟨⟨l, hl⟩, -, -⟩ := lifetime_of_run hmain
  refine ⟨l, hl.linked, fun rest s' hrest => ?_⟩
  have he : s.main.Ending build (7 * l.length + 17) :=
    ⟨⟨_, hmain⟩, hstop, l, hl.linked, hl.within⟩
  obtain ⟨k, hk, he'⟩ := run_budget (c := ReturnStep.ofMain)
    (B := fun k s => MainState.Ending build k s.main)
    (fun he hstep => ReturnState.ending_step he hstep) he hrest
  refine ⟨by omega, fun ev hev => ?_, fun tid hjoins hended => ?_, ReturnState.exists_return he',
    fun hpc => ?_⟩
  · rw [ReturnState.exists_step_iff he' hev, ReturnState.Returns, MainEvent.eintr_iff]
    rfl
  · exact ReturnState.step_returns he' hjoins hended
  · obtain ⟨s₁, hstep, heintr⟩ : ∃ s₁, s'.step build (.signal true) = some s₁ ∧ s₁.eintr = true :=
      ⟨_, rfl, by simp [hpc]⟩
    obtain ⟨j, -, he₁⟩ := ReturnState.ending_step he' hstep
    obtain ⟨more, s'', hmore, hrun', hret⟩ := ReturnState.exists_return he₁ fun _ => heintr
    exact ⟨more, s'', hmore, run_cons.mpr ⟨s₁, hstep, hrun'⟩, hret⟩

/-- The signal has come between the test of `server_running` and `accept`. One more client is
accepted, `reap_threads` finds it at work and then done: as many steps as the bound allows.
Source: `aesdsocket.c`, `main`
Kind: D -/
def lateClient : List ReturnStep :=
  [.main (.accept (.ok 4)), .main (.malloc true), .main .goOn, .main (.create true), .main .goOn,
    .main .goOn, .main .goOn, .handler 0 (.malloc .fail fun _ => 0), .handler 0 .closeClient,
    .handler 0 .setDone, .main .goOn, .main .goOn, .main .goOn, .returns 0, .main .goOn,
    .main .goOn, .main .goOn, .main .goOn, .main .goOn, .main .goOn, .main .goOn]

/-- The late client is served, and `main` waits for its thread in `pthread_join`.
Source: `aesdsocket.c`, `main` and `reap_threads`
Kind: N+ -/
theorem main_returns_late_client :
    ∃ s s', returnRun .dataFile [.main .goOn, .signal false] = some s ∧ s.main.running = false ∧
      run (ReturnState.step .dataFile) s lateClient = some s' ∧ s'.main.pc = .returned ∧
      lateClient.countP ReturnStep.ofMain = 17 ∧ ∀ rest s'',
        run (ReturnState.step .dataFile) s rest = some s'' →
          rest.countP ReturnStep.ofMain ≤ 17 := by
  obtain ⟨s, hs, hsrun⟩ := Option.map_eq_some_iff.mp
    (show (returnRun .dataFile [.main .goOn, .signal false]).map
      (fun s => (s.main.running, s.main.head)) = some (false, none) by decide +kernel)
  rw [Prod.mk.injEq] at hsrun
  obtain ⟨s', hs', hpc⟩ := Option.map_eq_some_iff.mp
    (show (returnRun .dataFile ([.main .goOn, .signal false] ++ lateClient)).map
      (fun s => s.main.pc) = some .returned by decide +kernel)
  obtain ⟨t, ht, hlate⟩ := run_append.mp hs'
  cases hs.symm.trans ht
  obtain ⟨l, hl, hall⟩ := main_returns hs hsrun.1
  have hnil : l = [] := by
    have hhead := hl.head_eq
    rw [hsrun.2] at hhead
    exact List.head?_eq_none_iff.mp hhead.symm
  subst hnil
  exact ⟨s, s', hs, hsrun.1, hlate, hpc, by decide, fun rest s'' hrest => (hall rest s'' hrest).1⟩

end returns

end Aesd.Server
