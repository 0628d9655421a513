import Aesd.Server.Lifetime

/-!
# The end of the server (`server/aesdsocket.c`)

A signal ends the accept loop; `main` then calls `reap_threads` once more, closes the socket,
destroys the mutex, unlinks the data file and returns. That last `reap_threads` does not wait for a
handler that is still at work: it joins the thread of a node only when `done` is set at the moment
it is tested, and passes over every other node.

* `MainPc.NoneLeft` — the last traversal has left no node behind it: its cursor is the head;
* `noneLeft_step` — a step keeps that exactly when it tests no node whose `done` is not set;
* `clean_shutdown_iff` — behind the last `reap_threads` every thread was joined and the list is
  empty exactly when no such test was made.
-/

namespace Aesd.Server

open Aesd.Lib Aesd.Driver

/-! ### The last traversal -/

/-- Every thread was joined, and the list is empty.
Source: `aesdsocket.c`, `main`
Kind: D -/
def MainState.Clean (s : MainState) : Prop :=
  (∀ tid, s.threads tid ≠ none → tid ∈ s.joined) ∧ s.head = none

/-- The node whose `done` the last `reap_threads` is about to test.
Source: `aesdsocket.c`, `main` and `reap_threads`
Kind: D -/
def MainPc.tested : MainPc → Option ℕ
  | .reap .final _ (.test cur _) => some cur
  | _ => none

/-- When the last `reap_threads` tests the `done` of a node, it is set.
Source: `aesdsocket.c`, `main`
Kind: D -/
def MainState.InTime (s : MainState) : MainStep → Prop
  | .main _ => ∀ cur ∈ s.pc.tested, ∀ c ∈ s.store cur, c.val.done = true
  | _ => True

/-- Whether a step comes in time is found in the state.
Source: none: infrastructure
Kind: D -/
instance MainState.decidableInTime (s : MainState) : ∀ t, Decidable (s.InTime t)
  | .main _ =>
      inferInstanceAs (Decidable (∀ cur ∈ s.pc.tested, ∀ c ∈ s.store cur, c.val.done = true))
  | .signal => inferInstanceAs (Decidable True)
  | .handler _ _ => inferInstanceAs (Decidable True)

/-- The node that the traversal is at or comes to next.
Source: `aesdsocket.c`, `reap_threads`
Kind: D -/
def ReapPc.cursor : ReapPc → Option ℕ
  | .next cur => cur
  | .test cur _ | .join cur _ | .remove cur _ => some cur
  | .free _ tmp => tmp

/-- The last traversal has left no node behind it.
Source: `aesdsocket.c`, `main` and `reap_threads`
Kind: D -/
def MainPc.NoneLeft (head : Option ℕ) : MainPc → Prop
  | .reap .final _ pc => pc.cursor = head
  | .closeSocket | .destroyMutex | .unlink | .returned => head = none
  | _ => True

section shutdown

variable {build : Build} {s s' : MainState} {t : MainStep} {steps : List MainStep} {l : List ℕ}

/-- Where `main` holds no node, nothing is left exactly when the list is empty behind the last
call.
Source: `aesdsocket.c`, `main`
Kind: L -/
theorem MainPc.noneLeft_of_idle {pc : MainPc} {head : Option ℕ} (hidle : pc.idle = true) :
    pc.NoneLeft head ↔ (pc.past = true → head = none) := by
  cases pc with
  | closeSocket | destroyMutex | unlink | returned => exact ⟨fun h _ => h, fun h => h rfl⟩
  | insertHead _ _ | create _ _ | rollback _ _ | rollbackFree _ _ | reap _ _ _ => cases hidle
  | _ => exact iff_of_true trivial nofun

/-- A turn of `reap_threads` with the same cursor and head leaves the same.
Source: `aesdsocket.c`, `main` and `reap_threads`
Kind: L -/
theorem MainPc.noneLeft_reap_iff {site : ReapSite} {n n' : ℕ} {pc pc' : ReapPc}
    {head head' : Option ℕ} (h : site = .final → (pc'.cursor = head' ↔ pc.cursor = head)) :
    (MainPc.reap site n' pc').NoneLeft head' ↔ (MainPc.reap site n pc).NoneLeft head := by
  cases site with
  | inLoop => exact Iff.rfl
  | final => exact h rfl

/-- A step that tests nothing comes in time.
Source: `aesdsocket.c`, `main`
Kind: L -/
theorem MainState.inTime_of_tested (h : s.pc.tested = none) : s.InTime t := by
  cases t with
  | main ev =>
      intro cur hcur
      rw [h] at hcur
      cases hcur
  | _ => trivial

/-- Where `main` holds no node, it tests none.
Source: `aesdsocket.c`, `main`
Kind: L -/
theorem MainPc.tested_of_idle {pc : MainPc} (hidle : pc.idle = true) : pc.tested = none := by
  cases pc with
  | reap _ _ _ => cases hidle
  | _ => rfl

/-- **The last traversal leaves a node behind it in no other way than by a `done` that is not
set.**
Source: `aesdsocket.c`, `reap_threads`
Kind: P -/
theorem noneLeft_step (hl : Listed s l) (hstep : s.Steps build t s') (hsafe : ¬ s.Dangling t) :
    s'.pc.NoneLeft s'.head ↔ s.pc.NoneLeft s.head ∧ s.InTime t := by
  have hpos := hl.position
  cases hstep with
  | faults hbad => exact absurd hbad hsafe
  | moves hpc hpc' hpast =>
      rw [and_iff_left (MainState.inTime_of_tested (MainPc.tested_of_idle hpc)),
        MainPc.noneLeft_of_idle hpc, MainPc.noneLeft_of_idle hpc', hpast]
  | enters hpc hpast =>
      rw [and_iff_left (MainState.inTime_of_tested (MainPc.tested_of_idle hpc)),
        MainPc.noneLeft_of_idle hpc, hpast]
      exact iff_of_true rfl nofun
  | mallocs hpc | inserts hpc _ | creates hpc _ | createFails hpc | unlinks hpc _
  | rollsBack hpc _ =>
      refine iff_of_true trivial ⟨?_, MainState.inTime_of_tested ?_⟩
      · rw [hpc]
        trivial
      · rw [hpc]
        rfl
  | @leaves _ site _ hpc =>
      have htested : s.pc.tested = none := by rw [hpc]; cases site <;> rfl
      rw [and_iff_left (MainState.inTime_of_tested htested), hpc]
      cases site with
      | inLoop => exact Iff.rfl
      | final => exact eq_comm
  | @visits _ site reapedCount cur c hpc _ =>
      have htested : s.pc.tested = none := by rw [hpc]; cases site <;> rfl
      rw [and_iff_left (MainState.inTime_of_tested htested), hpc]
      exact MainPc.noneLeft_reap_iff fun _ => Iff.rfl
  | @skips site reapedCount cur tmp c hpc hc hdone =>
      rw [hpc] at hpos
      obtain ⟨pre, rest, rfl, rfl⟩ := hpos
      cases site with
      | inLoop =>
          refine iff_of_true trivial ⟨?_, MainState.inTime_of_tested ?_⟩
          · rw [hpc]
            trivial
          · rw [hpc]
            rfl
      | final =>
          -- the traversal goes on behind a node that stays in the list
          have hlinked : s.store.Linked s.head ((pre ++ [cur]) ++ rest) := by
            rw [List.append_assoc]
            exact hl.linked
          have hnodup : ((pre ++ [cur]) ++ rest).Nodup := by
            rw [List.append_assoc]
            exact hl.nodup
          refine iff_of_false (fun h => ?_) fun h => ?_
          · exact List.append_ne_nil_of_right_ne_nil pre (List.cons_ne_nil cur [])
              ((hlinked.head?_eq_iff hnodup).mp h)
          · have hset := h.2 cur (by rw [hpc]; rfl) c hc
            rw [hdone] at hset
            cases hset
  | @finds ev site reapedCount cur tmp c hpc hc hdone =>
      have htime : s.InTime (.main ev) := by
        intro cur' hcur' c' hc'
        rw [hpc] at hcur'
        cases site with
        | inLoop => cases hcur'
        | final =>
            cases hcur'
            cases hc.symm.trans hc'
            exact hdone
      rw [and_iff_left htime, hpc]
      exact MainPc.noneLeft_reap_iff fun _ => Iff.rfl
  | @joins _ site reapedCount cur tid tmp c th hpc =>
      have htested : s.pc.tested = none := by rw [hpc]; cases site <;> rfl
      rw [and_iff_left (MainState.inTime_of_tested htested), hpc]
      exact MainPc.noneLeft_reap_iff fun _ => Iff.rfl
  | @removes _ site reapedCount cur tmp head store hpc hop =>
      have htested : s.pc.tested = none := by rw [hpc]; cases site <;> rfl
      rw [and_iff_left (MainState.inTime_of_tested htested), hpc]
      rw [hpc] at hpos
      obtain ⟨pre, rest, rfl, rfl⟩ := hpos
      obtain ⟨store', head', hop', hlinked, -⟩ := hl.remove
      cases hop.symm.trans hop'
      have hnodup := (List.nodup_cons.mp (List.nodup_middle.mp hl.nodup)).2
      apply MainPc.noneLeft_reap_iff
      intro _
      exact (hlinked.head?_eq_iff hnodup).trans (hl.linked.head?_eq_iff hl.nodup).symm
  | @frees _ site reapedCount cur tmp hpc _ =>
      have htested : s.pc.tested = none := by rw [hpc]; cases site <;> rfl
      rw [and_iff_left (MainState.inTime_of_tested htested), hpc]
      exact MainPc.noneLeft_reap_iff fun _ => Iff.rfl
  | signals => exact (and_iff_left trivial).symm
  | handles _ _ _ => exact (and_iff_left trivial).symm

/-- In every run the last traversal has left no node behind it exactly when every `done` that it
tested was set.
Source: `aesdsocket.c`, `main`
Kind: L -/
theorem noneLeft_of_run (hrun : mainRun build steps = some s) :
    s.pc.NoneLeft s.head ↔ Meets (MainState.step build) MainState.InTime .start steps := by
  refine run_induction (P := fun steps s => s.pc.NoneLeft s.head ↔
    Meets (MainState.step build) MainState.InTime .start steps) Iff.rfl ?_ hrun
  intro steps s t s' hrun' ih hstep
  obtain ⟨⟨l, hl⟩, ht, -⟩ := lifetime_of_run hrun'
  rw [noneLeft_step hl (MainState.steps_of_step hstep) (not_dangling hl ht), ih, meets_concat]
  refine and_congr_right fun _ => ⟨fun h u hu => ?_, fun h => h s hrun'⟩
  cases hrun'.symm.trans hu
  exact h

/-- At the end of the server an empty list says that every thread was joined.
Source: `aesdsocket.c`, `main`
Kind: L -/
theorem clean_iff_head (hl : Listed s l) (ht : Threaded s) (hpast : s.pc.past = true) :
    s.Clean ↔ s.head = none := by
  refine ⟨fun h => h.2, fun hhead => ⟨fun tid htid => ?_, hhead⟩⟩
  have hempty : l = [] := by
    rw [hl.linked.head_eq] at hhead
    exact List.head?_eq_none_iff.mp hhead
  have hloose : s.pc.loose = none := by
    cases hpc : s.pc <;> rw [hpc] at hpast <;> first | rfl | cases hpast
  obtain ⟨th, hth⟩ := Option.ne_none_iff_exists'.mp htid
  obtain ⟨-, ⟨n, hn, -⟩ | ⟨-, -, hjoined, -⟩⟩ := ht.thread tid th hth
  · -- there is no node left for the thread to have
    have hlive : s.store.val? th.connInfo ≠ none := by
      rw [hn]
      exact nofun
    rw [hl.live, hempty, hloose] at hlive
    rcases hlive with hmem | hsome
    · cases hmem
    · cases hsome
  · exact hjoined

/-- **The end of the server.** In any interleaving of connections, handlers and signals, once `main`
is past its last `reap_threads` every thread that was ever created has been joined and the list is
empty exactly when `done` was set at every node at the moment that `reap_threads` tested it.
Source: `aesdsocket.c`, `main` and `reap_threads`
Kind: P -/
theorem clean_shutdown_iff (hrun : mainRun build steps = some s) (hpast : s.pc.past = true) :
    s.Clean ↔ Meets (MainState.step build) MainState.InTime .start steps := by
  obtain ⟨⟨l, hl⟩, ht, -⟩ := lifetime_of_run hrun
  rw [clean_iff_head hl ht hpast, ← noneLeft_of_run hrun]
  cases hpc : s.pc with
  | closeSocket | destroyMutex | unlink | returned => exact Iff.rfl
  | _ =>
      rw [hpc] at hpast
      cases hpast

/-- A client has connected, and `main` has begun its last `reap_threads` after a signal.
Source: `aesdsocket.c`, `main`
Kind: D -/
def stopWhileServing : List MainStep :=
  acceptOne 4 ++ List.replicate 3 (.main .goOn) ++ [.signal, .main .goOn]

/-- A handler waits for its client to send.
Source: `aesdsocket.c`, `main`
Kind: D -/
def waitForClient (tid : ℕ) : List MainStep :=
  [.handler tid (.malloc .moved fun _ => 0), .handler tid (.openDevice true)]

/-- The handler finishes before its node is tested: `main` returns and has joined it.
Source: `aesdsocket.c`, `main`
Kind: N+ -/
theorem clean_shutdown_in_time :
    ∃ s, mainRun .dataFile
        (stopWhileServing ++ failAtOnce 0 ++ List.replicate 9 (.main .goOn)) = some s ∧
      s.pc = .returned ∧ s.threads 0 ≠ none ∧ s.Clean := by
  obtain ⟨s, hs, hend⟩ := Option.map_eq_some_iff.mp (show (mainRun .dataFile
    (stopWhileServing ++ failAtOnce 0 ++ List.replicate 9 (.main .goOn))).map
    (fun s => (s.pc, (s.threads 0).isSome)) = some (.returned, true) by decide +kernel)
  rw [Prod.mk.injEq] at hend
  refine ⟨s, hs, hend.1, Option.isSome_iff_ne_none.mp hend.2, ?_⟩
  exact (clean_shutdown_iff hs (by rw [hend.1]; rfl)).mpr (by decide +kernel)

/-- The handler waits in `recv`: `main` returns all the same, with its node in the list and its
thread not joined.
Source: `aesdsocket.c`, `main` and `reap_threads`
Kind: N− -/
theorem shutdown_not_clean :
    ∃ s, mainRun .dataFile
        (stopWhileServing ++ waitForClient 0 ++ List.replicate 6 (.main .goOn)) = some s ∧
      s.pc = .returned ∧ s.head = some 0 ∧ s.threads 0 ≠ none ∧ 0 ∉ s.joined ∧ ¬ s.Clean := by
  obtain ⟨s, hs, hend⟩ := Option.map_eq_some_iff.mp (show (mainRun .dataFile
    (stopWhileServing ++ waitForClient 0 ++ List.replicate 6 (.main .goOn))).map
    (fun s => (s.pc, s.head, (s.threads 0).isSome, s.joined)) =
      some (.returned, some 0, true, []) by decide +kernel)
  simp only [Prod.mk.injEq] at hend
  obtain ⟨hpc, hhead, hthread, hjoined⟩ := hend
  have hnot : 0 ∉ s.joined := by
    rw [hjoined]
    exact List.not_mem_nil
  have hthere := Option.isSome_iff_ne_none.mp hthread
  exact ⟨s, hs, hpc, hhead, hthere, hnot, fun h => hnot (h.1 0 hthere)⟩

end shutdown

end Aesd.Server
