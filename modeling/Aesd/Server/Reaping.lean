import Aesd.Server.Lifetime

/-!
# One call of `reap_threads` (`server/aesdsocket.c`)

`reap_threads` walks the connection list with a saved successor and takes the nodes out whose flag
`done` it finds set; each removal is a second walk, from the head. Here the call is taken as a
whole, on any list in any store. The flags are an argument: a handler may set its flag while the
call goes on, and what counts is what is read when the traversal comes to the node.

* `Reap.take_spec` — one node is joined, taken out and freed;
* `Reap.loop_spec` — what the traversal does from a place of the list on;
* `reap_exact_filter` — the call leaves the nodes that are not done, in their order;
* `MainState.run_reap` — the steps of `main` in `reap_threads` do what the call does;
* `reap_call_of_run` — and so does every call in a run of the server that is left alone.
-/

namespace Aesd.Server

open Aesd.Lib Aesd.Lib.Store

/-! ### The call -/

/-- The list, and what a call of `reap_threads` has done so far.
Source: `aesdsocket.c`, `reap_threads`
Kind: D -/
structure Reap where
  store : Store ConnNode
  head : Option ℕ
  /-- The `thread_id`s given to `pthread_join`. -/
  joined : List (Option ℕ)
  freed : List ℕ
  reapedCount : ℕ

/-- The body of the loop for a node that is done: `pthread_join`, `SLIST_REMOVE` and `free`; `none`
when one of them follows a pointer to a node that is not there.
Source: `aesdsocket.c`, `reap_threads`
Kind: D -/
def Reap.take (bound : ℕ) (r : Reap) (cur : ℕ) : Option Reap :=
  (r.store cur).bind fun c => (r.store.remove bound r.head cur).bind fun (store, head) =>
    (store cur).map fun _ =>
      { store := Function.update store cur none
        head := head
        joined := r.joined ++ [c.val.threadId]
        freed := r.freed ++ [cur]
        reapedCount := r.reapedCount + 1 }

/-- `SLIST_FOREACH_SAFE` with the body of the loop: the link of a node is read before the body. One
unit of fuel is one turn; `bound` is the fuel of the searches.
Source: `aesdsocket.c`, `reap_threads`
Kind: D -/
def Reap.loop (done : ℕ → Bool) (bound : ℕ) : ℕ → Reap → Option ℕ → Option Reap
  | _, r, none => some r
  | 0, _, some _ => none
  | fuel + 1, r, some cur =>
      (r.store cur).bind fun c =>
        if done cur then (r.take bound cur).bind fun r' => loop done bound fuel r' c.next
        else loop done bound fuel r c.next

/-- A whole call of `reap_threads`: the traversal from the head of the list.
Source: `aesdsocket.c`, `reap_threads`
Kind: D -/
def reapThreads (done : ℕ → Bool) (fuel : ℕ) (store : Store ConnNode) (head : Option ℕ) :
    Option Reap :=
  Reap.loop done fuel fuel ⟨store, head, [], [], 0⟩ head

/-- The thread of a node.
Source: `aesdsocket.c`, `main`
Kind: D -/
def threadOf (store : Store ConnNode) (node : ℕ) : Option ℕ :=
  (store.val? node).bind ConnNode.threadId

/-! ### What the call does -/

section call

variable {done : ℕ → Bool} {bound fuel : ℕ} {r : Reap} {kept rest : List ℕ} {cur : ℕ}

/-- **One node.** It is joined, taken out of the list and freed, and nothing else is touched.
Source: `aesdsocket.c`, `reap_threads`
Kind: P -/
theorem Reap.take_spec (hl : Linked r.store r.head (kept ++ cur :: rest))
    (hnodup : (kept ++ cur :: rest).Nodup) (hbound : kept.length ≤ bound) :
    ∃ r', r.take bound cur = some r' ∧ Linked r'.store r'.head (kept ++ rest) ∧
      r'.joined = r.joined ++ [threadOf r.store cur] ∧ r'.freed = r.freed ++ [cur] ∧
      r'.reapedCount = r.reapedCount + 1 ∧
      r'.store.val? = Function.update r.store.val? cur none := by
  have hcur : cur ∈ kept ++ cur :: rest := List.mem_append_right kept List.mem_cons_self
  obtain ⟨c, hc⟩ := Option.ne_none_iff_exists'.mp (Seg.live hl hcur)
  obtain ⟨store, head, hremove, hlinked, hval⟩ := remove_spec hl hnodup hbound
  have hout : cur ∉ kept ++ rest := (List.nodup_middle.mp hnodup).notMem
  have hlive : ∃ c', store cur = some c' := by
    apply Option.ne_none_iff_exists'.mp
    rw [ne_eq, ← val?_eq_none, hval, val?_eq_none, hc]
    exact Option.some_ne_none c
  obtain ⟨c', hc'⟩ := hlive
  have htake : r.take bound cur = some ⟨Function.update store cur none, head,
      r.joined ++ [c.val.threadId], r.freed ++ [cur], r.reapedCount + 1⟩ := by
    simp only [Reap.take, hc, hremove, hc', Option.bind_some, Option.map_some]
  refine ⟨_, htake, hlinked.congr (map_next_update_of_notMem hout), ?_, rfl, rfl, ?_⟩
  · rw [threadOf, val?, hc]
    rfl
  · rw [val?_update, hval]
    rfl

/-- What the traversal of `rest` has done, with the nodes of `kept` behind it.
Source: `aesdsocket.c`, `reap_threads`
Kind: D -/
structure Reap.Traversed (done : ℕ → Bool) (kept rest : List ℕ) (r r' : Reap) : Prop where
  linked : Linked r'.store r'.head (kept ++ rest.filter fun a => !done a)
  joined : r'.joined = r.joined ++ (rest.filter done).map (threadOf r.store)
  freed : r'.freed = r.freed ++ rest.filter done
  reapedCount : r'.reapedCount = r.reapedCount + (rest.filter done).length
  /-- The nodes freed are gone, and all others have what they had. -/
  payload : ∀ a, r'.store.val? a = if a ∈ rest ∧ done a = true then none else r.store.val? a

/-- A node that is not done joins those behind.
Source: `aesdsocket.c`, `reap_threads`
Kind: L -/
theorem Reap.Traversed.skip {r' : Reap} (ht : Traversed done (kept ++ [cur]) rest r r')
    (hdone : ¬ done cur = true) : Traversed done kept (cur :: rest) r r' := by
  have hfilter : (cur :: rest).filter done = rest.filter done := List.filter_cons_of_neg hdone
  have hkeep : (cur :: rest).filter (fun a => !done a) = cur :: rest.filter fun a => !done a :=
    List.filter_cons_of_pos (by simp [hdone])
  refine ⟨?_, ?_, ?_, ?_, fun a => ?_⟩
  · have hlinked := ht.linked
    rwa [hkeep, ← List.singleton_append, ← List.append_assoc]
  · rw [hfilter]
    exact ht.joined
  · rw [hfilter]
    exact ht.freed
  · rw [hfilter]
    exact ht.reapedCount
  · have hmem : (a ∈ cur :: rest ∧ done a = true) ↔ (a ∈ rest ∧ done a = true) := by
      rw [List.mem_cons]
      constructor
      · rintro ⟨rfl | ha, h⟩
        · exact absurd h hdone
        · exact ⟨ha, h⟩
      · exact fun h => ⟨Or.inr h.1, h.2⟩
    simp only [hmem]
    exact ht.payload a

/-- A node that is done was taken out first.
Source: `aesdsocket.c`, `reap_threads`
Kind: L -/
theorem Reap.Traversed.take {r₁ r' : Reap} (ht : Traversed done kept rest r₁ r')
    (hdone : done cur = true) (hout : cur ∉ rest)
    (hjoined : r₁.joined = r.joined ++ [threadOf r.store cur])
    (hfreed : r₁.freed = r.freed ++ [cur])
    (hcount : r₁.reapedCount = r.reapedCount + 1)
    (hval : r₁.store.val? = Function.update r.store.val? cur none) :
    Traversed done kept (cur :: rest) r r' := by
  have hfilter : (cur :: rest).filter done = cur :: rest.filter done :=
    List.filter_cons_of_pos hdone
  have hkeep : (cur :: rest).filter (fun a => !done a) = rest.filter fun a => !done a :=
    List.filter_cons_of_neg (by simp [hdone])
  refine ⟨?_, ?_, ?_, ?_, fun a => ?_⟩
  · rw [hkeep]
    exact ht.linked
  · have hsame : (rest.filter done).map (threadOf r₁.store) =
        (rest.filter done).map (threadOf r.store) := by
      apply List.map_congr_left
      intro a ha
      have hne : a ≠ cur := fun h => hout (h ▸ (List.mem_filter.mp ha).1)
      rw [threadOf, threadOf, hval, Function.update_of_ne hne]
    rw [hfilter, List.map_cons, ht.joined, hjoined, hsame, List.append_assoc,
      List.singleton_append]
  · rw [hfilter, ht.freed, hfreed, List.append_assoc, List.singleton_append]
  · rw [hfilter, List.length_cons, ht.reapedCount, hcount]
    omega
  · rw [ht.payload a, hval]
    by_cases ha : a = cur
    · subst ha
      rw [Function.update_self, ite_self, if_pos ⟨List.mem_cons_self, hdone⟩]
    · simp only [List.mem_cons, ha, false_or, Function.update_of_ne ha]

/-- **The traversal.** The induction is on the nodes that are still to be visited: a node that is
not done joins those behind, and the saved successor of one that is done is still in the list.
Source: `aesdsocket.c`, `reap_threads`
Kind: L -/
theorem Reap.loop_spec (hl : Linked r.store r.head (kept ++ rest)) (hnodup : (kept ++ rest).Nodup)
    (hfuel : rest.length ≤ fuel) (hbound : (kept ++ rest).length ≤ bound) :
    ∃ r', Reap.loop done bound fuel r rest.head? = some r' ∧ Traversed done kept rest r r' := by
  induction rest generalizing kept fuel r with
  | nil =>
      refine ⟨r, ?_, hl, ?_, ?_, rfl, ?_⟩
      · rw [List.head?_nil, Reap.loop]
      · exact (List.append_nil _).symm
      · exact (List.append_nil _).symm
      · intro a
        exact (if_neg fun h => List.not_mem_nil h.1).symm
  | cons cur rest ih =>
      obtain ⟨n, rfl⟩ := Nat.exists_eq_succ_of_ne_zero (Nat.ne_zero_of_lt (Nat.lt_of_succ_le hfuel))
      have hfuel' : rest.length ≤ n := Nat.le_of_succ_le_succ hfuel
      have hcur : cur ∈ kept ++ cur :: rest := List.mem_append_right kept List.mem_cons_self
      obtain ⟨c, hc⟩ := Option.ne_none_iff_exists'.mp (Seg.live hl hcur)
      have hnext : c.next = rest.head? := hl.next_eq hc
      by_cases hdone : done cur = true
      · obtain ⟨hout, hnodup'⟩ := List.nodup_cons.mp (List.nodup_middle.mp hnodup)
        rw [List.length_append, List.length_cons] at hbound
        obtain ⟨r₁, htake, hl₁, hjoined, hfreed, hcount, hval⟩ :=
          take_spec hl hnodup (by omega : kept.length ≤ bound)
        have hbound' : (kept ++ rest).length ≤ bound := by
          rw [List.length_append]
          omega
        obtain ⟨r', hloop, ht⟩ := ih hl₁ hnodup' hfuel' hbound'
        refine ⟨r', ?_, ht.take hdone ?_ hjoined hfreed hcount hval⟩
        · rw [List.head?_cons, Reap.loop, hc, Option.bind_some, if_pos hdone, htake,
            Option.bind_some, hnext]
          exact hloop
        · exact fun h => hout (List.mem_append_right kept h)
      · rw [← List.singleton_append, ← List.append_assoc] at hl hnodup hbound
        obtain ⟨r', hloop, ht⟩ := ih hl hnodup hfuel' hbound
        refine ⟨r', ?_, ht.skip hdone⟩
        rw [List.head?_cons, Reap.loop, hc, Option.bind_some, if_neg hdone, hnext]
        exact hloop

end call

/-- **Reaping is an exact filter.** On a list of distinct nodes of any length, and whatever the
flags are when the traversal comes to them, the call returns; it has joined the thread of each node
that is done, and freed the node, once and in their order; the list has the nodes that are not done,
in their order; the result is the number of those that were; and no other node has changed. A link
of a freed node is never followed: the call would have no result.
Source: `aesdsocket.c`, `reap_threads`; `queue.h`
Kind: P -/
theorem reap_exact_filter {store : Store ConnNode} {head : Option ℕ} {l : List ℕ} {fuel : ℕ}
    (hl : Linked store head l) (hnodup : l.Nodup) (hfuel : l.length ≤ fuel) (done : ℕ → Bool) :
    ∃ r, reapThreads done fuel store head = some r ∧
      Linked r.store r.head (l.filter fun a => !done a) ∧
      r.joined = (l.filter done).map (threadOf store) ∧
      r.freed = l.filter done ∧ r.freed.Nodup ∧
      r.reapedCount = (l.filter done).length ∧
      ∀ a, r.store.val? a = if a ∈ l ∧ done a = true then none else store.val? a := by
  have hcall : ∃ r, Reap.loop done fuel fuel ⟨store, head, [], [], 0⟩ l.head? = some r ∧
      Reap.Traversed done [] l ⟨store, head, [], [], 0⟩ r := Reap.loop_spec hl hnodup hfuel hfuel
  obtain ⟨r, hloop, ht⟩ := hcall
  rw [← hl.head_eq] at hloop
  have hfreed : r.freed = l.filter done := ht.freed
  refine ⟨r, hloop, ht.linked, ht.joined, hfreed, ?_, ?_, ht.payload⟩
  · rw [hfreed]
    exact hnodup.filter done
  · exact ht.reapedCount.trans (Nat.zero_add _)

/-- Three nodes, of which the first two are done.
Source: `aesdsocket.c`, `main`
Kind: D -/
def threeNodes : Store ConnNode
  | 0 => some ⟨some 1, ⟨some 7, 3, true⟩⟩
  | 1 => some ⟨some 2, ⟨some 8, 4, true⟩⟩
  | 2 => some ⟨none, ⟨some 9, 5, false⟩⟩
  | _ => none

/-- The head of the list is removed twice, and the last node is left.
Source: `aesdsocket.c`, `reap_threads`
Kind: N+ -/
theorem reap_exact_filter_three_nodes :
    ∃ r, reapThreads (fun a => a != 2) 3 threeNodes (some 0) = some r ∧
      Linked r.store r.head [2] ∧ r.joined = [some 7, some 8] ∧ r.freed = [0, 1] ∧
      r.reapedCount = 2 := by
  have hl : Linked threeNodes (some 0) [0, 1, 2] :=
    ⟨rfl, _, rfl, rfl, _, rfl, rfl, _, rfl, rfl⟩
  obtain ⟨r, hcall, hlinked, hjoined, hfreed, -, hcount, -⟩ :=
    reap_exact_filter hl (by decide) le_rfl fun a => a != 2
  exact ⟨r, hcall, hlinked, hjoined, hfreed, hcount⟩

/-! ### The steps of `main` in the call -/

section steps

variable {build : Build} {done : ℕ → Bool} {bound fuel cur : ℕ} {r r' : Reap} {link : Option ℕ}

/-- What taking one node out does.
Source: `aesdsocket.c`, `reap_threads`
Kind: L -/
theorem Reap.take_eq_some (htake : r.take bound cur = some r') :
    ∃ c store head c', r.store cur = some c ∧ r.store.remove bound r.head cur = some (store, head) ∧
      store cur = some c' ∧ r' = ⟨Function.update store cur none, head,
        r.joined ++ [c.val.threadId], r.freed ++ [cur], r.reapedCount + 1⟩ := by
  obtain ⟨c, hc, htake⟩ := Option.bind_eq_some_iff.mp htake
  obtain ⟨⟨store, head⟩, hremove, htake⟩ := Option.bind_eq_some_iff.mp htake
  obtain ⟨c', hc', rfl⟩ := Option.map_eq_some_iff.mp htake
  exact ⟨c, store, head, c', hc, hremove, hc', rfl⟩

/-- The traversal ends at the end of the list.
Source: `aesdsocket.c`, `reap_threads`
Kind: L -/
theorem Reap.loop_none (done : ℕ → Bool) (bound fuel : ℕ) (r : Reap) :
    Reap.loop done bound fuel r none = some r := by
  cases fuel <;> rfl

/-- One turn of the loop.
Source: `aesdsocket.c`, `reap_threads`
Kind: L -/
theorem Reap.loop_cases (hloop : Reap.loop done bound fuel r (some cur) = some r') :
    ∃ n c, fuel = n + 1 ∧ r.store cur = some c ∧
      ((done cur = true ∧ ∃ r₁, r.take bound cur = some r₁ ∧
        Reap.loop done bound n r₁ c.next = some r') ∨
      (done cur = false ∧ Reap.loop done bound n r c.next = some r')) := by
  cases fuel with
  | zero => cases hloop
  | succ n =>
      obtain ⟨c, hc, hloop⟩ := Option.bind_eq_some_iff.mp hloop
      refine ⟨n, c, rfl, hc, ?_⟩
      by_cases hdone : done cur = true
      · rw [if_pos hdone] at hloop
        exact Or.inl ⟨hdone, Option.bind_eq_some_iff.mp hloop⟩
      · rw [if_neg hdone] at hloop
        exact Or.inr ⟨Bool.eq_false_iff.mpr hdone, hloop⟩

/-- What was joined stays on record.
Source: `aesdsocket.c`, `reap_threads`
Kind: L -/
theorem Reap.loop_joined (hloop : Reap.loop done bound fuel r link = some r') :
    ∃ more, r'.joined = r.joined ++ more := by
  induction fuel using Nat.strong_induction_on generalizing r link with
  | h fuel ih =>
      cases link with
      | none =>
          rw [Reap.loop_none] at hloop
          cases hloop
          exact ⟨[], (List.append_nil _).symm⟩
      | some cur =>
          obtain ⟨n, c, rfl, -, ⟨-, r₁, htake, hrest⟩ | ⟨-, hrest⟩⟩ := loop_cases hloop
          · obtain ⟨c₁, store, head, c', -, -, -, rfl⟩ := take_eq_some htake
            obtain ⟨more, hmore⟩ := ih n (Nat.lt_succ_self n) hrest
            exact ⟨c₁.val.threadId :: more, by rw [hmore, List.append_assoc]; rfl⟩
          · exact ih n (Nat.lt_succ_self n) hrest

/-- What the call sees of the state of `main`.
Source: `aesdsocket.c`, `main` and `reap_threads`
Kind: D -/
def MainState.reapView (s : MainState) (reapedCount : ℕ) : Reap :=
  ⟨s.store, s.head, s.joined.map some, s.freed, reapedCount⟩

/-- `main` goes on by itself.
Source: `aesdsocket.c`, `main`
Kind: D -/
def goOn (n : ℕ) : List MainStep := List.replicate n (.main .goOn)

variable {s : MainState} {site : ReapSite} {k tid : ℕ} {c c' : Cell ConnNode} {th : Thread}
  {store : Store ConnNode} {head : Option ℕ}

/-- The steps of `main` add up.
Source: none: infrastructure
Kind: L -/
theorem run_goOn_add {t s' : MainState} {m n : ℕ}
    (hfirst : run (MainState.step build) s (goOn m) = some t)
    (hsecond : run (MainState.step build) t (goOn n) = some s') :
    run (MainState.step build) s (goOn (m + n)) = some s' := by
  rw [goOn, List.replicate_add]
  exact run_append.mpr ⟨t, hfirst, hsecond⟩

/-- `main` when a node was joined, taken out of the list and freed.
Source: `aesdsocket.c`, `main`
Kind: D -/
def MainState.taken (s : MainState) (pc : MainPc) (cur tid : ℕ) (store : Store ConnNode)
    (head : Option ℕ) : MainState :=
  { s with
    store := Function.update store cur none, head := head, joined := s.joined ++ [tid]
    reaped := s.reaped ++ [cur], freed := s.freed ++ [cur], pc := pc }

/-- A turn of the loop at a node that is not done.
Source: `aesdsocket.c`, `main` and `reap_threads`
Kind: L -/
theorem MainState.run_skip (hpc : s.pc = .reap site k (.next (some cur)))
    (hc : s.store cur = some c) (hdone : c.val.done = false) :
    run (MainState.step build) s (goOn 2) = some { s with pc := .reap site k (.next c.next) } := by
  simp [goOn, run, MainState.step, MainState.mainStep, MainState.reapThreads, hpc, hc, hdone]

/-- A turn of the loop at a node that is done, and whose thread can be joined.
Source: `aesdsocket.c`, `main` and `reap_threads`
Kind: L -/
theorem MainState.run_take (hpc : s.pc = .reap site k (.next (some cur)))
    (hc : s.store cur = some c) (hdone : c.val.done = true) (htid : c.val.threadId = some tid)
    (hth : s.threads tid = some th) (hend : th.handler.pc = .finished) (hnew : tid ∉ s.joined)
    (hremove : s.store.remove s.nextNode s.head cur = some (store, head))
    (hc' : store cur = some c') :
    run (MainState.step build) s (goOn 5) =
      some (s.taken (.reap site (k + 1) (.next c.next)) cur tid store head) := by
  simp [goOn, run, MainState.step, MainState.mainStep, MainState.reapThreads, MainState.free,
    MainState.taken, hpc, hc, hdone, htid, hth, hend, hnew, hremove, hc']

/-- A payload that is there after a node was taken out and freed was there before.
Source: `aesdsocket.c`, `main`
Kind: L -/
theorem val?_of_taken {store' : Store ConnNode} {a : ℕ} {n : ConnNode}
    (hremove : store'.remove bound link cur = some (store, head))
    (ha : Store.val? (Function.update store cur none) a = some n) : store'.val? a = some n := by
  rw [val?_update, val?_of_remove hremove] at ha
  by_cases hne : a = cur
  · rw [hne, Function.update_self] at ha
    cases ha
  · rwa [Function.update_of_ne hne] at ha

/-- A thread that is joined next can be joined, when all those on record at the end can.
Source: `aesdsocket.c`, `reap_threads`
Kind: L -/
theorem joinable_of_loop {joined : List ℕ} {thread : Option ℕ} {threads : ℕ → Option Thread}
    (hr : r.joined = joined.map some ++ [thread])
    (hloop : Reap.loop done bound fuel r link = some r')
    (hjoin : ∃ tids : List ℕ, r'.joined = tids.map some ∧ tids.Nodup ∧
      ∀ tid ∈ tids, ∃ th, threads tid = some th ∧ th.handler.pc = .finished) :
    ∃ tid th, thread = some tid ∧ tid ∉ joined ∧ threads tid = some th ∧
      th.handler.pc = .finished := by
  obtain ⟨more, hmore⟩ := Reap.loop_joined hloop
  obtain ⟨tids, htids, hnodup, hall⟩ := hjoin
  rw [htids, hr, List.append_assoc, List.singleton_append, List.map_eq_append_iff] at hmore
  obtain ⟨before, behind, rfl, hbefore, hbehind⟩ := hmore
  obtain rfl : before = joined := List.map_injective_iff.mpr (Option.some_injective ℕ) hbefore
  obtain ⟨tid, others, rfl, hthread, -⟩ := List.map_eq_cons_iff.mp hbehind
  obtain ⟨th, hth, hend⟩ := hall tid (List.mem_append_right _ List.mem_cons_self)
  refine ⟨tid, th, hthread.symm, fun hmem => ?_, hth, hend⟩
  exact (List.nodup_append.mp hnodup).2.2 tid hmem tid List.mem_cons_self rfl

/-- **The steps of `main` do what the call does**, when no other thread runs in between and the
threads of the nodes that are done can be joined.
Source: `aesdsocket.c`, `reap_threads`
Kind: P -/
theorem MainState.run_reap (hpc : s.pc = .reap site k (.next link))
    (hdone : ∀ a n, s.store.val? a = some n → n.done = done a)
    (hloop : Reap.loop done s.nextNode fuel (s.reapView k) link = some r)
    (hjoin : ∃ tids : List ℕ, r.joined = tids.map some ∧ tids.Nodup ∧
      ∀ tid ∈ tids, ∃ th, s.threads tid = some th ∧ th.handler.pc = .finished) :
    ∃ n s', run (MainState.step build) s (goOn n) = some s' ∧ s'.pc = site.after ∧
      s'.reapView r.reapedCount = r ∧ s'.fault = s.fault := by
  have hval : ∀ {s : MainState} {cur : ℕ} {c : Cell ConnNode}, s.store cur = some c →
      s.store.val? cur = some c.val := fun h => congrArg (Option.map Cell.val) h
  induction fuel using Nat.strong_induction_on generalizing s link k with
  | h fuel ih =>
      cases link with
      | none =>
          rw [Reap.loop_none] at hloop
          cases hloop
          refine ⟨1, { s with pc := site.after }, ?_, rfl, rfl, rfl⟩
          simp [goOn, run, MainState.step, MainState.mainStep, MainState.reapThreads, hpc]
      | some cur =>
          obtain ⟨n, c, rfl, hc, ⟨hflag, r₁, htake, hrest⟩ | ⟨hflag, hrest⟩⟩ :=
            Reap.loop_cases hloop
          · obtain ⟨c₁, store, head, c', hc₁, hremove, hc', rfl⟩ := Reap.take_eq_some htake
            obtain rfl : c = c₁ := Option.some.inj (hc.symm.trans hc₁)
            obtain ⟨tid, th, htid, hnew, hth, hend⟩ := joinable_of_loop rfl hrest hjoin
            have hflag' : c.val.done = true := (hdone cur c.val (hval hc)).trans hflag
            have hturn : run (MainState.step build) s (goOn 5) = _ :=
              run_take hpc hc hflag' htid hth hend hnew hremove hc'
            have hdone' : ∀ a n,
                (s.taken (.reap site (k + 1) (.next c.next)) cur tid store head).store.val? a =
                  some n → n.done = done a := fun a n ha => hdone a n (val?_of_taken hremove ha)
            have hrest' : Reap.loop done s.nextNode n
                ((s.taken (.reap site (k + 1) (.next c.next)) cur tid store head).reapView (k + 1))
                c.next = some r := by
              rw [MainState.reapView, MainState.taken, List.map_append, List.map_singleton, ← htid]
              exact hrest
            obtain ⟨m, s', hrun, hlast⟩ := ih n (Nat.lt_succ_self n) rfl hdone' hrest' hjoin
            exact ⟨5 + m, s', run_goOn_add hturn hrun, hlast⟩
          · have hturn : run (MainState.step build) s (goOn 2) = _ :=
              run_skip hpc hc ((hdone cur c.val (hval hc)).trans hflag)
            obtain ⟨m, s', hrun, hlast⟩ := ih n (Nat.lt_succ_self n)
              (s := { s with pc := .reap site k (.next c.next) }) rfl hdone hrest hjoin
            exact ⟨2 + m, s', run_goOn_add hturn hrun, hlast⟩

/-! ### The call in a run of the server -/

/-- The flag of a node as it is.
Source: `aesdsocket.c`, `main`
Kind: D -/
def MainState.isDone (s : MainState) (node : ℕ) : Bool := (s.store.val? node).any ConnNode.done

/-- Whether a node is done is what it says.
Source: `aesdsocket.c`, `main`
Kind: L -/
theorem MainState.isDone_of_val? {a : ℕ} {n : ConnNode} (ha : s.store.val? a = some n) :
    n.done = s.isDone a := by
  rw [MainState.isDone, ha]
  rfl

/-- The thread of a node that is done has returned, and was not joined.
Source: `aesdsocket.c`, `main` and `reap_threads`
Kind: L -/
theorem Threaded.joinable {l : List ℕ} {a : ℕ} (ht : Threaded s) (hl : Listed s l)
    (hpc : s.pc = .reap site k (.next link)) (ha : a ∈ l) (hdone : s.isDone a = true) :
    ∃ tid th, threadOf s.store a = some tid ∧ s.threads tid = some th ∧ th.connInfo = a ∧
      th.handler.pc = .finished ∧ tid ∉ s.joined := by
  obtain ⟨n, hn⟩ := Option.ne_none_iff_exists'.mp (hl.of_mem ha)
  rw [← MainState.isDone_of_val? hn] at hdone
  have hthread : n.threadId ≠ none := by
    intro hnone
    rw [ht.fresh a n hn hnone] at hdone
    cases hdone
  obtain ⟨tid, htid⟩ := Option.ne_none_iff_exists'.mp hthread
  obtain ⟨th, hth, hnode, hflag⟩ := ht.threaded a n tid hn htid
  refine ⟨tid, th, ?_, hth, hnode, hflag.mp hdone, fun hjoined => ?_⟩
  · rw [threadOf, hn]
    exact htid
  · obtain ⟨th', hth', -, hwhere⟩ := ht.joined tid hjoined
    cases hth.symm.trans hth'
    rcases hwhere with hreaped | hnode'
    · rw [hnode] at hreaped
      exact (hl.reaped a hreaped).1 ha
    · rw [hpc] at hnode'
      cases hnode'

/-- The threads that are on record when the call is over: each was joined once.
Source: `aesdsocket.c`, `main` and `reap_threads`
Kind: L -/
theorem Threaded.joinable_all {l : List ℕ} (ht : Threaded s) (hl : Listed s l)
    (hpc : s.pc = .reap site k (.next link)) :
    ∃ tids : List ℕ,
      s.joined.map some ++ (l.filter s.isDone).map (threadOf s.store) = tids.map some ∧
      tids.Nodup ∧ ∀ tid ∈ tids, ∃ th, s.threads tid = some th ∧ th.handler.pc = .finished := by
  have hthread : ∀ a ∈ l.filter s.isDone, ∃ tid th, threadOf s.store a = some tid ∧
      s.threads tid = some th ∧ th.connInfo = a ∧ th.handler.pc = .finished ∧ tid ∉ s.joined := by
    intro a ha
    obtain ⟨hmem, hdone⟩ := List.mem_filter.mp ha
    exact ht.joinable hl hpc hmem hdone
  refine ⟨s.joined ++ (l.filter s.isDone).map fun a => (threadOf s.store a).getD 0, ?_, ?_, ?_⟩
  · rw [List.map_append, List.map_map]
    congr 1
    apply List.map_congr_left
    intro a ha
    obtain ⟨tid, th, htid, -⟩ := hthread a ha
    simp only [Function.comp_apply, htid, Option.getD_some]
  · refine List.nodup_append.mpr ⟨ht.joined_nodup, ?_, ?_⟩
    · refine List.Nodup.map_on ?_ (hl.nodup.filter _)
      -- two nodes with one thread are the node of that thread
      intro a ha b hb heq
      obtain ⟨tid, th, htid, hth, hnode, -⟩ := hthread a ha
      obtain ⟨tid', th', htid', hth', hnode', -⟩ := hthread b hb
      rw [htid, htid', Option.getD_some, Option.getD_some] at heq
      subst heq
      cases hth.symm.trans hth'
      exact hnode.symm.trans hnode'
    · rintro tid hjoined tid' hnew rfl
      obtain ⟨a, ha, rfl⟩ := List.mem_map.mp hnew
      obtain ⟨tid, th, htid, -, -, -, hnot⟩ := hthread a ha
      rw [htid, Option.getD_some] at hjoined
      exact hnot hjoined
  · intro tid htid
    rcases List.mem_append.mp htid with hjoined | hnew
    · obtain ⟨th, hth, hend, -⟩ := ht.joined tid hjoined
      exact ⟨th, hth, hend⟩
    · obtain ⟨a, ha, rfl⟩ := List.mem_map.mp hnew
      obtain ⟨tid, th, htid, hth, -, hend, -⟩ := hthread a ha
      exact ⟨th, by rw [htid]; exact hth, hend⟩

/-- **A call of `reap_threads` in a run of the server.** Left alone, `main` comes to the end of the
call, which has freed the nodes that are done and left the others in their order; no step of it was
a fault, and no join waited.
Source: `aesdsocket.c`, `reap_threads`
Kind: P -/
theorem reap_call_of_run {steps : List MainStep} (hrun : mainRun build steps = some s)
    (hpc : s.pc = .reap site 0 (.next s.head)) :
    ∃ l n s', s.store.Linked s.head l ∧ run (MainState.step build) s (goOn n) = some s' ∧
      s'.pc = site.after ∧ s'.store.Linked s'.head (l.filter fun a => !s.isDone a) ∧
      s'.freed = s.freed ++ l.filter s.isDone ∧ s'.fault = false := by
  obtain ⟨⟨l, hl⟩, ht, hfault⟩ := lifetime_of_run hrun
  have hcall : ∃ r, Reap.loop s.isDone s.nextNode s.nextNode (s.reapView 0) l.head? = some r ∧
      Reap.Traversed s.isDone [] l (s.reapView 0) r :=
    Reap.loop_spec hl.linked hl.nodup hl.length_le hl.length_le
  obtain ⟨r, hloop, htrav⟩ := hcall
  rw [← hl.linked.head_eq] at hloop
  have hdone : ∀ a n, s.store.val? a = some n → n.done = s.isDone a := fun _ _ =>
    MainState.isDone_of_val?
  obtain ⟨tids, hmap, hnodup, hall⟩ := ht.joinable_all hl hpc
  have hdo : ∃ n s', run (MainState.step build) s (goOn n) = some s' ∧ s'.pc = site.after ∧
      s'.reapView r.reapedCount = r ∧ s'.fault = s.fault :=
    MainState.run_reap hpc hdone hloop ⟨tids, htrav.joined.trans hmap, hnodup, hall⟩
  obtain ⟨n, s', hsteps, hend, hview, hfault'⟩ := hdo
  refine ⟨l, n, s', hl.linked, hsteps, hend, ?_, ?_, hfault'.trans hfault⟩
  · have hlinked := htrav.linked
    rw [← hview] at hlinked
    exact hlinked
  · have hfreed := htrav.freed
    rw [← hview] at hfreed
    exact hfreed

end steps

end Aesd.Server
