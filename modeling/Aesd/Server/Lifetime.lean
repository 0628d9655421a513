import Aesd.Server.Main
import Mathlib.Data.List.Range

/-!
# The lifetime of a connection node

What ties the list, the nodes in memory, the threads and the place of `main` together, in every
interleaving. `Listed s l` is about memory: the nodes that are there are those of the list `l`, and
at most one that `main` has just allocated or just taken out. `Threaded s` is about the threads:
each has its node, which knows it, or it has finished, was joined, and its node was freed.

* `not_dangling` — from such a state no step uses a pointer to nothing;
* `lifetime_of_run` — both hold in every state of every run;
* `node_lifetime` — what follows for the list, for joining and freeing, and for the handlers.
-/

namespace Aesd.Server

open Aesd.Lib Aesd.Driver

/-! ### What the place of `main` says -/

/-- The node that is in memory and not in the list.
Source: `aesdsocket.c`, `main` and `reap_threads`
Kind: D -/
def MainPc.loose : MainPc → Option ℕ
  | .insertHead _ node | .rollbackFree _ node => some node
  | .reap _ _ (.free cur _) => some cur
  | _ => none

/-- The node that has been given no thread.
Source: `aesdsocket.c`, `main`
Kind: D -/
def MainPc.unthreaded : MainPc → Option ℕ
  | .insertHead _ node | .create _ node | .rollback _ node | .rollbackFree _ node => some node
  | _ => none

/-- The node in the list that has been given no thread.
Source: `aesdsocket.c`, `main`
Kind: D -/
def MainPc.settingUp : MainPc → Option ℕ
  | .create _ node | .rollback _ node => some node
  | _ => none

/-- The node in memory whose thread has been joined.
Source: `aesdsocket.c`, `main` and `reap_threads`
Kind: D -/
def MainPc.joinedNode : MainPc → Option ℕ
  | .reap _ _ (.remove cur _) | .reap _ _ (.free cur _) => some cur
  | _ => none

/-- The node in memory that `reap_threads` has taken out of the list.
Source: `aesdsocket.c`, `main` and `reap_threads`
Kind: D -/
def MainPc.unlinkedNode : MainPc → Option ℕ
  | .reap _ _ (.free cur _) => some cur
  | _ => none

/-- The node set up is in the list; the traversal of `reap_threads` has a node of the list and the
one behind it, or the rest of the list.
Source: `aesdsocket.c`, `reap_threads`
Kind: D -/
def MainPc.Position (l : List ℕ) : MainPc → Prop
  | .create _ node | .rollback _ node => node ∈ l
  | .reap _ _ (.next cur) => ∃ pre rest, l = pre ++ rest ∧ cur = rest.head?
  | .reap _ _ (.test cur tmp) | .reap _ _ (.join cur tmp) | .reap _ _ (.remove cur tmp) =>
      ∃ pre rest, l = pre ++ cur :: rest ∧ tmp = rest.head?
  | .reap _ _ (.free _ tmp) => ∃ pre rest, l = pre ++ rest ∧ tmp = rest.head?
  | _ => True

/-- Nothing is said about a node at these places.
Source: `aesdsocket.c`, `main` and `reap_threads`
Kind: L -/
theorem MainPc.of_idle {pc : MainPc} (hidle : pc.idle = true) :
    pc.loose = none ∧ pc.unthreaded = none ∧ pc.joinedNode = none ∧ pc.unlinkedNode = none ∧
      ∀ l, pc.Position l := by
  cases pc <;> first | exact ⟨rfl, rfl, rfl, rfl, fun _ => trivial⟩ | cases hidle

/-- A node that was taken out is loose.
Source: `aesdsocket.c`, `main`
Kind: L -/
theorem MainPc.loose_of_unlinkedNode {pc : MainPc} {p : ℕ} (h : pc.unlinkedNode = some p) :
    pc.loose = some p := by
  unfold MainPc.unlinkedNode at h
  split at h
  · exact h
  · cases h

/-- A loose node has no thread yet, or was taken out.
Source: `aesdsocket.c`, `main`
Kind: L -/
theorem MainPc.loose_cases {pc : MainPc} {p : ℕ} (h : pc.loose = some p) :
    pc.unthreaded = some p ∨ pc.unlinkedNode = some p := by
  unfold MainPc.loose at h
  split at h
  · exact Or.inl h
  · exact Or.inl h
  · exact Or.inr h
  · cases h

/-- A node without a thread is being set up in the list, or is loose.
Source: `aesdsocket.c`, `main`
Kind: L -/
theorem MainPc.unthreaded_cases {pc : MainPc} {p : ℕ} (h : pc.unthreaded = some p) :
    pc.settingUp = some p ∨ pc.loose = some p := by
  unfold MainPc.unthreaded at h
  split at h
  · exact Or.inr h
  · exact Or.inl h
  · exact Or.inl h
  · exact Or.inr h
  · cases h

/-- A node that is being set up in the list is in it.
Source: `aesdsocket.c`, `main`
Kind: L -/
theorem MainPc.Position.mem_of_settingUp {pc : MainPc} {l : List ℕ} {p : ℕ}
    (hpos : pc.Position l) (h : pc.settingUp = some p) : p ∈ l := by
  unfold MainPc.settingUp at h
  split at h
  · cases h
    exact hpos
  · cases h
    exact hpos
  · cases h

/-! ### The nodes in memory -/

/-- The nodes in memory are those of the list and the loose one.
Source: `aesdsocket.c`, `main`
Kind: D -/
structure Listed (s : MainState) (l : List ℕ) : Prop where
  linked : s.store.Linked s.head l
  nodup : l.Nodup
  live : ∀ p, s.store.val? p ≠ none ↔ p ∈ l ∨ s.pc.loose = some p
  loose : ∀ p, s.pc.loose = some p → p ∉ l
  known : ∀ p, s.store.val? p ≠ none → p < s.nextNode
  position : s.pc.Position l
  reaped : ∀ p ∈ s.reaped, p ∉ l ∧ p < s.nextNode ∧
    (s.store.val? p ≠ none → s.pc.unlinkedNode = some p)
  unlinked : ∀ p, s.pc.unlinkedNode = some p → p ∈ s.reaped
  freed : ∀ p ∈ s.freed, s.store.val? p = none ∧ p < s.nextNode
  freed_nodup : s.freed.Nodup

section listed

variable {build : Build} {s s' : MainState} {t : MainStep} {l : List ℕ} {p : ℕ}

/-- The nodes of the list are there.
Source: `aesdsocket.c`, `main`
Kind: L -/
theorem Listed.of_mem (hl : Listed s l) (hp : p ∈ l) : s.store.val? p ≠ none :=
  (hl.live p).mpr (Or.inl hp)

/-- The search of `SLIST_REMOVE` is no longer than the number of nodes ever allocated.
Source: `aesdsocket.c`, `main`
Kind: L -/
theorem Listed.length_le (hl : Listed s l) : l.length ≤ s.nextNode := by
  have hsub : l ⊆ List.range s.nextNode := by
    intro p hp
    exact List.mem_range.mpr (hl.known p (hl.of_mem hp))
  have hle := (List.subperm_of_subset hl.nodup hsub).length_le
  rwa [List.length_range] at hle

/-- A node of the list can be taken out.
Source: `aesdsocket.c`, `main`
Kind: L -/
theorem Listed.remove {pre rest : List ℕ} {cur : ℕ} (hl : Listed s (pre ++ cur :: rest)) :
    ∃ store head, s.store.remove s.nextNode s.head cur = some (store, head) ∧
      store.Linked head (pre ++ rest) ∧ store.val? = s.store.val? := by
  refine Store.remove_spec hl.linked hl.nodup ?_
  have hlen := hl.length_le
  rw [List.length_append] at hlen
  omega

/-- A step that leaves the links and the ledgers of nodes alone.
Source: `aesdsocket.c`, `main`
Kind: L -/
theorem Listed.frame (hl : Listed s l)
    (hlinks : ∀ a, (s'.store a).map Cell.next = (s.store a).map Cell.next)
    (hhead : s'.head = s.head) (hnext : s'.nextNode = s.nextNode) (hreaped : s'.reaped = s.reaped)
    (hfreed : s'.freed = s.freed) (hloose : s'.pc.loose = s.pc.loose)
    (hunlinked : s'.pc.unlinkedNode = s.pc.unlinkedNode) (hpos : s'.pc.Position l) :
    Listed s' l := by
  have hnone : ∀ a, s'.store.val? a = none ↔ s.store.val? a = none := by
    intro a
    have hsame := hlinks a
    rw [Store.val?_eq_none, Store.val?_eq_none, ← Option.map_eq_none_iff (f := Cell.next), hsame,
      Option.map_eq_none_iff]
  refine ⟨?_, hl.nodup, fun p => ?_, fun p hp => ?_, fun p hp => ?_, hpos, fun p hp => ?_,
    fun p hp => ?_, fun p hp => ?_, ?_⟩
  · rw [hhead]
    exact hl.linked.congr fun a _ => hlinks a
  · rw [hloose, ← hl.live p]
    exact not_congr (hnone p)
  · exact hl.loose p (hloose ▸ hp)
  · rw [hnext]
    exact hl.known p fun h => hp ((hnone p).mpr h)
  · rw [hreaped] at hp
    obtain ⟨hout, hlt, hmem⟩ := hl.reaped p hp
    rw [hnext, hunlinked]
    exact ⟨hout, hlt, fun h => hmem fun h' => h ((hnone p).mpr h')⟩
  · rw [hreaped]
    exact hl.unlinked p (hunlinked ▸ hp)
  · rw [hfreed] at hp
    rw [hnext]
    exact ⟨(hnone p).mpr (hl.freed p hp).1, (hl.freed p hp).2⟩
  · rw [hfreed]
    exact hl.freed_nodup

/-- `main` moves on.
Source: `aesdsocket.c`, `main`
Kind: L -/
theorem Listed.setPc (hl : Listed s l) {pc pc' : MainPc} (hpc : s.pc = pc)
    (hloose : pc'.loose = pc.loose) (hunlinked : pc'.unlinkedNode = pc.unlinkedNode)
    (hpos : pc'.Position l) : Listed { s with pc := pc' } l := by
  subst hpc
  exact hl.frame (fun _ => rfl) rfl rfl rfl rfl hloose hunlinked hpos

/-- A new payload leaves the links alone.
Source: none: infrastructure
Kind: L -/
theorem map_next_setVal {store : Store ConnNode} {c : Cell ConnNode} (hc : store p = some c)
    (n : ConnNode) (a : ℕ) :
    (Function.update store p (some { c with val := n }) a).map Cell.next =
      (store a).map Cell.next := by
  by_cases ha : a = p
  · subst ha
    rw [Function.update_self, hc]
    rfl
  · rw [Function.update_of_ne ha]

/-- A node is taken out of the list and is loose then.
Source: `aesdsocket.c`, `main`
Kind: L -/
theorem Listed.takeOut {pre rest : List ℕ} {cur : ℕ} (hl : Listed s (pre ++ cur :: rest))
    {store : Store ConnNode} {head : Option ℕ} {pc' : MainPc} {reaped : List ℕ}
    (hop : s.store.remove s.nextNode s.head cur = some (store, head)) (hold : s.pc.loose = none)
    (hloose : pc'.loose = some cur) (hpos : pc'.Position (pre ++ rest))
    (hreaped : ∀ p ∈ reaped, p ∈ s.reaped ∨ pc'.unlinkedNode = some p)
    (hunlinked : ∀ p, pc'.unlinkedNode = some p → p ∈ reaped) :
    Listed { s with store := store, head := head, reaped := reaped, pc := pc' } (pre ++ rest) := by
  obtain ⟨store', head', hop', hlinked, hval⟩ := hl.remove
  cases hop.symm.trans hop'
  have hnodup := hl.nodup
  rw [List.nodup_middle, List.nodup_cons] at hnodup
  have hmem : ∀ p, p ∈ pre ++ cur :: rest ↔ p ∈ pre ++ rest ∨ p = cur := by
    intro p
    simp only [List.mem_append, List.mem_cons]
    tauto
  have hcur := hl.of_mem ((hmem cur).mpr (Or.inr rfl))
  refine ⟨hlinked, hnodup.2, fun p => ?_, fun p hp => ?_, fun p hp => ?_, hpos, fun p hp => ?_,
    hunlinked, fun p hp => ?_, hl.freed_nodup⟩
  · change store.val? p ≠ none ↔ _
    rw [hval, hl.live p, hold, hmem p, hloose, Option.some_inj]
    simp [eq_comm]
  · change pc'.loose = some p at hp
    rw [hloose, Option.some_inj] at hp
    subst hp
    exact hnodup.1
  · change store.val? p ≠ none at hp
    rw [hval] at hp
    exact hl.known p hp
  · change _ ∧ _ ∧ (store.val? p ≠ none → _)
    rw [hval]
    rcases hreaped p hp with hbefore | hnow
    · obtain ⟨hnot, hlt, hgone⟩ := hl.reaped p hbefore
      refine ⟨fun h => hnot ((hmem p).mpr (Or.inl h)), hlt, fun h => ?_⟩
      have hloose' := MainPc.loose_of_unlinkedNode (hgone h)
      rw [hold] at hloose'
      cases hloose'
    · have hcur' := MainPc.loose_of_unlinkedNode hnow
      rw [hloose, Option.some_inj] at hcur'
      subst hcur'
      exact ⟨hnodup.1, hl.known _ hcur, fun _ => hnow⟩
  · change store.val? p = none ∧ _
    rw [hval]
    exact hl.freed p hp

/-- The loose node is freed.
Source: `aesdsocket.c`, `main`
Kind: L -/
theorem Listed.freeLoose {cur : ℕ} (hl : Listed s l) {pc' : MainPc}
    (hold : s.pc.loose = some cur) (hloose : pc'.loose = none) (hpos : pc'.Position l)
    (hunlinked : pc'.unlinkedNode = none) :
    Listed { s with
      store := Function.update s.store cur none, freed := s.freed ++ [cur], pc := pc' } l := by
  have hnot := hl.loose cur hold
  have hlive := (hl.live cur).mpr (Or.inr hold)
  have hval : ∀ p, p ≠ cur →
      Store.val? (Function.update s.store cur none) p = s.store.val? p :=
    fun p hp => Store.val?_update_of_ne _ hp none
  have hgone : Store.val? (Function.update s.store cur none) cur = none :=
    Store.val?_update_self _ cur none
  refine ⟨hl.linked.congr (Store.map_next_update_of_notMem hnot), hl.nodup, fun p => ?_,
    fun p hp => ?_, fun p hp => ?_, hpos, fun p hp => ?_, fun p hp => ?_, fun p hp => ?_, ?_⟩
  · change (Store.val? (Function.update s.store cur none) p ≠ none) ↔ _ ∨ pc'.loose = some p
    rw [hloose]
    by_cases hp : p = cur
    · subst hp
      rw [hgone]
      exact iff_of_false (fun h => h rfl) (not_or_intro hnot nofun)
    · rw [hval p hp, hl.live p, hold]
      simp [Ne.symm hp]
  · change pc'.loose = some p at hp
    rw [hloose] at hp
    cases hp
  · change Store.val? (Function.update s.store cur none) p ≠ none at hp
    apply hl.known
    by_cases hpc : p = cur
    · subst hpc
      exact hlive
    · rwa [hval p hpc] at hp
  · change _ ∧ _ ∧ (Store.val? (Function.update s.store cur none) p ≠ none → _)
    obtain ⟨hout, hlt, hmem⟩ := hl.reaped p hp
    refine ⟨hout, hlt, fun h => ?_⟩
    by_cases hpc : p = cur
    · subst hpc
      exact absurd hgone h
    · rw [hval p hpc] at h
      have hcur := MainPc.loose_of_unlinkedNode (hmem h)
      rw [hold, Option.some_inj] at hcur
      exact absurd hcur.symm hpc
  · change pc'.unlinkedNode = some p at hp
    rw [hunlinked] at hp
    cases hp
  · change Store.val? (Function.update s.store cur none) p = none ∧ _
    rcases List.mem_append.mp hp with hbefore | hnow
    · obtain ⟨hnone, hlt⟩ := hl.freed p hbefore
      have hne : p ≠ cur := by
        rintro rfl
        exact hlive hnone
      exact ⟨(hval p hne).trans hnone, hlt⟩
    · rw [List.mem_singleton] at hnow
      subst hnow
      exact ⟨hgone, hl.known p hlive⟩
  · change (s.freed ++ [cur]).Nodup
    rw [List.nodup_append]
    refine ⟨hl.freed_nodup, List.nodup_singleton cur, fun a ha b hb => ?_⟩
    rw [List.mem_singleton] at hb
    subst hb
    rintro rfl
    exact hlive (hl.freed a ha).1

/-- A new node is allocated.
Source: `aesdsocket.c`, `main`
Kind: L -/
theorem Listed.newNode {clfd : ℕ} (hl : Listed s l) (hpc : s.pc = .malloc clfd) :
    Listed (s.newNode clfd) l := by
  have hold : s.pc.loose = none := by rw [hpc]; rfl
  have hfresh : s.store.val? s.nextNode = none := by
    by_contra hlive
    exact Nat.lt_irrefl _ (hl.known _ hlive)
  have hnot : s.nextNode ∉ l := fun h => hl.of_mem h hfresh
  have hval : ∀ p, p ≠ s.nextNode → (s.newNode clfd).store.val? p = s.store.val? p :=
    fun p hp => Store.val?_update_of_ne _ hp _
  have hnew : (s.newNode clfd).store.val? s.nextNode = some ⟨none, clfd, false⟩ :=
    Store.val?_update_self _ _ _
  refine ⟨hl.linked.congr (Store.map_next_update_of_notMem hnot), hl.nodup, fun p => ?_,
    fun p hp => ?_, fun p hp => ?_, trivial, fun p hp => ?_, nofun, fun p hp => ?_,
    hl.freed_nodup⟩
  · change _ ↔ _ ∨ some s.nextNode = some p
    by_cases hp : p = s.nextNode
    · subst hp
      rw [hnew]
      exact iff_of_true nofun (Or.inr rfl)
    · rw [hval p hp, hl.live p, hold]
      simp [Ne.symm hp]
  · cases hp
    exact hnot
  · change p < s.nextNode + 1
    by_cases hpn : p = s.nextNode
    · omega
    · rw [hval p hpn] at hp
      have := hl.known p hp
      omega
  · obtain ⟨hout, hlt, hmem⟩ := hl.reaped p hp
    refine ⟨hout, Nat.lt_succ_of_lt hlt, fun h => ?_⟩
    rw [hval p (Nat.ne_of_lt hlt)] at h
    have hloose := MainPc.loose_of_unlinkedNode (hmem h)
    rw [hold] at hloose
    cases hloose
  · obtain ⟨hnone, hlt⟩ := hl.freed p hp
    exact ⟨(hval p (Nat.ne_of_lt hlt)).trans hnone, Nat.lt_succ_of_lt hlt⟩

/-- The loose node becomes the head of the list.
Source: `aesdsocket.c`, `main`
Kind: L -/
theorem Listed.insertHead {clfd node : ℕ} (hl : Listed s l) (hpc : s.pc = .insertHead clfd node)
    {store : Store ConnNode} {head : Option ℕ}
    (hop : s.store.insertHead s.head node = some (store, head)) :
    Listed { s with store := store, head := head, pc := .create clfd node } (node :: l) := by
  have hold : s.pc.loose = some node := by rw [hpc]; rfl
  have hnot := hl.loose node hold
  have hlive := (hl.live node).mpr (Or.inr hold)
  obtain ⟨store', hop', hlinked, hval⟩ :=
    Store.insertHead_spec hl.linked hnot fun h => hlive (Store.val?_eq_none.mpr h)
  cases hop.symm.trans hop'
  refine ⟨hlinked, List.nodup_cons.mpr ⟨hnot, hl.nodup⟩, fun p => ?_, nofun, fun p hp => ?_,
    List.mem_cons_self, fun p hp => ?_, nofun, fun p hp => ?_, hl.freed_nodup⟩
  · change store.val? p ≠ none ↔ _ ∨ none = some p
    rw [hval, hl.live p, hold, List.mem_cons]
    simp [eq_comm, or_comm]
  · change store.val? p ≠ none at hp
    rw [hval] at hp
    exact hl.known p hp
  · obtain ⟨hout, hlt, hmem⟩ := hl.reaped p hp
    have hgone : s.store.val? p = none := by
      by_contra h
      have hun := hmem h
      rw [hpc] at hun
      cases hun
    refine ⟨fun h => ?_, hlt, fun h => ?_⟩
    · rcases List.mem_cons.mp h with rfl | h
      · exact hlive hgone
      · exact hout h
    · change store.val? p ≠ none at h
      rw [hval] at h
      exact absurd hgone h
  · change store.val? p = none ∧ _
    rw [hval]
    exact hl.freed p hp

/-- The traversal starts with the whole list.
Source: `aesdsocket.c`, `main` and `reap_threads`
Kind: L -/
theorem Listed.position_enterReap (hl : Listed s l) (site : ReapSite) :
    (s.enterReap site).pc.Position l :=
  ⟨[], l, rfl, hl.linked.head_eq⟩

/-- **Every step keeps the nodes in memory listed.**
Source: `aesdsocket.c`, `main` and `reap_threads`
Kind: P -/
theorem Listed.step (hl : Listed s l) (hstep : s.Steps build t s') (hsafe : ¬ s.Dangling t) :
    ∃ l', Listed s' l' := by
  have hpos := hl.position
  cases hstep with
  | faults hbad => exact absurd hbad hsafe
  | moves hpc hpc' _ =>
      obtain ⟨hloose, -, -, hunlinked, -⟩ := MainPc.of_idle hpc
      obtain ⟨hloose', -, -, hunlinked', hpos'⟩ := MainPc.of_idle hpc'
      exact ⟨l, hl.setPc rfl (hloose'.trans hloose.symm) (hunlinked'.trans hunlinked.symm)
        (hpos' l)⟩
  | enters hpc _ =>
      obtain ⟨hloose, -, -, hunlinked, -⟩ := MainPc.of_idle hpc
      exact ⟨l, hl.setPc rfl hloose.symm hunlinked.symm (hl.position_enterReap .final)⟩
  | mallocs hpc => exact ⟨l, hl.newNode hpc⟩
  | inserts hpc hop => exact ⟨_, hl.insertHead hpc hop⟩
  | creates hpc hc =>
      refine ⟨l, hl.frame (map_next_setVal hc _) rfl rfl rfl rfl ?_ ?_
        (hl.position_enterReap .inLoop)⟩
      · rw [hpc]
        rfl
      · rw [hpc]
        rfl
  | createFails hpc =>
      rw [hpc] at hpos
      exact ⟨l, hl.setPc hpc rfl rfl hpos⟩
  | unlinks hpc hop =>
      rw [hpc] at hpos
      obtain ⟨pre, rest, rfl⟩ := List.append_of_mem hpos
      exact ⟨_, hl.takeOut hop (by rw [hpc]; rfl) rfl trivial (fun p hp => Or.inl hp) nofun⟩
  | rollsBack hpc _ => exact ⟨l, hl.freeLoose (by rw [hpc]; rfl) rfl trivial rfl⟩
  | @leaves _ site _ hpc =>
      cases site with
      | inLoop => exact ⟨l, hl.setPc hpc rfl rfl trivial⟩
      | final => exact ⟨l, hl.setPc hpc rfl rfl trivial⟩
  | visits hpc hc =>
      rw [hpc] at hpos
      obtain ⟨pre, rest, rfl, hcur⟩ := hpos
      cases rest with
      | nil => cases hcur
      | cons a rest =>
          cases hcur
          exact ⟨_, hl.setPc hpc rfl rfl ⟨pre, rest, rfl, hl.linked.next_eq hc⟩⟩
  | @skips site reapedCount cur tmp c hpc _ _ =>
      rw [hpc] at hpos
      obtain ⟨pre, rest, rfl, htmp⟩ := hpos
      refine ⟨_, hl.setPc hpc rfl rfl ⟨pre ++ [cur], rest, ?_, htmp⟩⟩
      rw [List.append_assoc, List.singleton_append]
  | finds hpc _ _ =>
      rw [hpc] at hpos
      exact ⟨l, hl.setPc hpc rfl rfl hpos⟩
  | joins hpc _ _ _ _ _ =>
      rw [hpc] at hpos
      exact ⟨l, hl.frame (fun _ => rfl) rfl rfl rfl rfl (by rw [hpc]; rfl) (by rw [hpc]; rfl) hpos⟩
  | @removes _ site reapedCount cur tmp head store hpc hop =>
      rw [hpc] at hpos
      obtain ⟨pre, rest, rfl, htmp⟩ := hpos
      refine ⟨_, hl.takeOut hop (by rw [hpc]; rfl) rfl ⟨pre, rest, rfl, htmp⟩ (fun p hp => ?_) ?_⟩
      · rcases List.mem_append.mp hp with hbefore | hnow
        · exact Or.inl hbefore
        · rw [List.mem_singleton.mp hnow]
          exact Or.inr rfl
      · rintro p ⟨⟩
        exact List.mem_concat_self
  | frees hpc _ =>
      rw [hpc] at hpos
      exact ⟨l, hl.freeLoose (by rw [hpc]; rfl) rfl hpos rfl⟩
  | signals => exact ⟨l, hl.frame (fun _ => rfl) rfl rfl rfl rfl rfl rfl hpos⟩
  | handles _ _ hc =>
      exact ⟨l, hl.frame (map_next_setVal hc _) rfl rfl rfl rfl rfl rfl hpos⟩

/-- At the start the list is empty.
Source: `aesdsocket.c`, `main`
Kind: L -/
theorem listed_start : Listed .start [] :=
  ⟨rfl, List.nodup_nil, fun _ => iff_of_false (fun h => h rfl) (not_or_intro List.not_mem_nil nofun),
    nofun, fun _ h => absurd rfl h, trivial, nofun, nofun, nofun, List.nodup_nil⟩

end listed

/-! ### The threads -/

/-- Every thread has its node, which knows it and is marked when the thread has finished; or it has
finished, was joined, and its node was freed.
Source: `aesdsocket.c`, `main`
Kind: D -/
structure Threaded (s : MainState) : Prop where
  unthreaded : ∀ p n, s.store.val? p = some n →
    (n.threadId = none ↔ s.pc.unthreaded = some p)
  fresh : ∀ p n, s.store.val? p = some n → n.threadId = none → n.done = false
  threaded : ∀ p n tid, s.store.val? p = some n → n.threadId = some tid →
    ∃ th, s.threads tid = some th ∧ th.connInfo = p ∧
      (n.done = true ↔ th.handler.pc = .finished)
  thread : ∀ tid th, s.threads tid = some th → tid < s.nextThread ∧
    ((∃ n, s.store.val? th.connInfo = some n ∧ n.threadId = some tid) ∨
      (th.connInfo ∈ s.freed ∧ th.connInfo ∈ s.reaped ∧ tid ∈ s.joined ∧
        th.handler.pc = .finished))
  joined : ∀ tid ∈ s.joined, ∃ th, s.threads tid = some th ∧ th.handler.pc = .finished ∧
    (th.connInfo ∈ s.reaped ∨ s.pc.joinedNode = some th.connInfo)
  joined_nodup : s.joined.Nodup
  reaping : ∀ p n tid, s.pc.joinedNode = some p → s.store.val? p = some n →
    n.threadId = some tid → tid ∈ s.joined
  injective : ∀ tid tid' th th', s.threads tid = some th → s.threads tid' = some th' →
    th.connInfo = th'.connInfo → tid = tid'

section threaded

variable {build : Build} {s s' : MainState} {t : MainStep} {l : List ℕ} {p : ℕ}

/-- A step that leaves the payloads and the threads alone.
Source: `aesdsocket.c`, `main` and `reap_threads`
Kind: L -/
theorem Threaded.frame (ht : Threaded s) (hval : s'.store.val? = s.store.val?)
    (hthreads : s'.threads = s.threads) (hnext : s'.nextThread = s.nextThread)
    (hjoined : s'.joined = s.joined) (hfreed : s'.freed = s.freed)
    (hreaped : ∀ p ∈ s.reaped, p ∈ s'.reaped) (hun : s'.pc.unthreaded = s.pc.unthreaded)
    (hnode : s'.pc.joinedNode = s.pc.joinedNode) : Threaded s' := by
  refine ⟨?_, ?_, ?_, fun tid th hth => ?_, fun tid htid => ?_, ?_, ?_, ?_⟩
  · rw [hval, hun]
    exact ht.unthreaded
  · rw [hval]
    exact ht.fresh
  · rw [hval, hthreads]
    exact ht.threaded
  · rw [hthreads] at hth
    rw [hnext, hval, hjoined, hfreed]
    obtain ⟨hlt, hleft | ⟨hf, hr, hj⟩⟩ := ht.thread tid th hth
    · exact ⟨hlt, Or.inl hleft⟩
    · exact ⟨hlt, Or.inr ⟨hf, hreaped _ hr, hj⟩⟩
  · rw [hjoined] at htid
    rw [hthreads, hnode]
    obtain ⟨th, hth, hend, hr⟩ := ht.joined tid htid
    exact ⟨th, hth, hend, hr.imp_left (hreaped _)⟩
  · rw [hjoined]
    exact ht.joined_nodup
  · rw [hval, hnode, hjoined]
    exact ht.reaping
  · rw [hthreads]
    exact ht.injective

/-- `main` moves on.
Source: `aesdsocket.c`, `main` and `reap_threads`
Kind: L -/
theorem Threaded.setPc (ht : Threaded s) {pc pc' : MainPc} (hpc : s.pc = pc)
    (hun : pc'.unthreaded = pc.unthreaded) (hnode : pc'.joinedNode = pc.joinedNode) :
    Threaded { s with pc := pc' } := by
  subst hpc
  exact ht.frame rfl rfl rfl rfl rfl (fun _ h => h) hun hnode

/-- The node of a thread that has not finished is in memory and knows the thread.
Source: `aesdsocket.c`, `main`
Kind: L -/
theorem Threaded.own_node (ht : Threaded s) {tid : ℕ} {th : Thread}
    (hth : s.threads tid = some th) (hrun : th.handler.pc ≠ .finished) :
    ∃ n, s.store.val? th.connInfo = some n ∧ n.threadId = some tid ∧ n.done = false := by
  obtain ⟨n, hn, htid⟩ := (ht.thread tid th hth).2.resolve_right fun h => hrun h.2.2.2
  obtain ⟨th', hth', -, hdone⟩ := ht.threaded _ n tid hn htid
  cases hth.symm.trans hth'
  refine ⟨n, hn, htid, ?_⟩
  rw [← Bool.not_eq_true, hdone]
  exact hrun

/-- A new node is allocated.
Source: `aesdsocket.c`, `main`
Kind: L -/
theorem Threaded.newNode {clfd : ℕ} (ht : Threaded s) (hl : Listed s l)
    (hpc : s.pc = .malloc clfd) : Threaded (s.newNode clfd) := by
  have hcases : ∀ {p : ℕ} {n : ConnNode}, (s.newNode clfd).store.val? p = some n →
      (p = s.nextNode ∧ ⟨none, clfd, false⟩ = n) ∨ (p ≠ s.nextNode ∧ s.store.val? p = some n) :=
    Store.val?_update_eq_some_iff.mp
  have hold : ∀ p n, s.store.val? p = some n → (s.newNode clfd).store.val? p = some n := by
    intro p n hn
    refine Store.val?_update_eq_some_iff.mpr (Or.inr ⟨Nat.ne_of_lt (hl.known p ?_), hn⟩)
    rw [hn]
    exact nofun
  refine ⟨fun p n hn => ?_, fun p n hn htid => ?_, fun p n tid hn htid => ?_, fun tid th hth => ?_,
    fun tid htid => ?_, ht.joined_nodup, nofun, ht.injective⟩
  · change _ ↔ some s.nextNode = some p
    rcases hcases hn with ⟨rfl, rfl⟩ | ⟨hp, hn⟩
    · exact iff_of_true rfl rfl
    · rw [ht.unthreaded p n hn, hpc]
      exact iff_of_false nofun fun h => hp (Option.some.inj h).symm
  · rcases hcases hn with ⟨rfl, rfl⟩ | ⟨hp, hn⟩
    · rfl
    · exact ht.fresh p n hn htid
  · rcases hcases hn with ⟨rfl, rfl⟩ | ⟨hp, hn⟩
    · cases htid
    · exact ht.threaded p n tid hn htid
  · obtain ⟨hlt, hleft | hright⟩ := ht.thread tid th hth
    · obtain ⟨n, hn, htid⟩ := hleft
      exact ⟨hlt, Or.inl ⟨n, hold _ n hn, htid⟩⟩
    · exact ⟨hlt, Or.inr hright⟩
  · obtain ⟨th, hth, hend, hr⟩ := ht.joined tid htid
    refine ⟨th, hth, hend, Or.inl (hr.resolve_right ?_)⟩
    rw [hpc]
    exact nofun

/-- A node is given a thread.
Source: `aesdsocket.c`, `main`
Kind: L -/
theorem Threaded.newThread {clfd node : ℕ} {c : Cell ConnNode} (ht : Threaded s) (hl : Listed s l)
    (hpc : s.pc = .create clfd node) (hc : s.store node = some c) :
    Threaded ((s.newThread node c).enterReap .inLoop) := by
  have hnode : s.store.val? node = some c.val := by rw [Store.val?, hc]; rfl
  have hnone : c.val.threadId = none := (ht.unthreaded node c.val hnode).mpr (by rw [hpc]; rfl)
  have hcases : ∀ {p : ℕ} {n : ConnNode},
      ((s.newThread node c).enterReap .inLoop).store.val? p = some n →
        (p = node ∧ { c.val with threadId := some s.nextThread } = n) ∨
          (p ≠ node ∧ s.store.val? p = some n) :=
    Store.val?_update_eq_some_iff.mp
  have hthreads : ∀ tid th, s.threads tid = some th →
      ((s.newThread node c).enterReap .inLoop).threads tid = some th := by
    intro tid th hth
    have hne : tid ≠ s.nextThread := Nat.ne_of_lt (ht.thread tid th hth).1
    exact (Function.update_of_ne hne _ _).trans hth
  have hfirst : ∀ tid th, s.threads tid = some th → th.connInfo ≠ node := by
    intro tid th hth hinfo
    obtain ⟨-, hleft | ⟨hf, -⟩⟩ := ht.thread tid th hth
    · obtain ⟨n, hn, htid⟩ := hleft
      rw [hinfo, hnode, Option.some_inj] at hn
      subst hn
      rw [hnone] at htid
      cases htid
    · have hgone := (hl.freed _ hf).1
      rw [hinfo, hnode] at hgone
      cases hgone
  refine ⟨fun p n hn => ?_, fun p n hn htid => ?_, fun p n tid hn htid => ?_, fun tid th hth => ?_,
    fun tid htid => ?_, ht.joined_nodup, fun p n tid hp => ?_,
    fun tid tid' th th' hth hth' hinfo => ?_⟩
  · refine iff_of_false (fun htid => ?_) (by rintro ⟨⟩)
    rcases hcases hn with ⟨rfl, rfl⟩ | ⟨hp, hn⟩
    · cases htid
    · have hun := (ht.unthreaded p n hn).mp htid
      rw [hpc] at hun
      exact hp (Option.some.inj hun).symm
  · rcases hcases hn with ⟨rfl, rfl⟩ | ⟨hp, hn⟩
    · cases htid
    · exact ht.fresh p n hn htid
  · rcases hcases hn with ⟨rfl, rfl⟩ | ⟨hp, hn⟩
    · cases htid
      refine ⟨⟨p, .start⟩, Function.update_self _ _ _, rfl, ?_⟩
      change c.val.done = true ↔ _
      rw [ht.fresh p c.val hnode hnone]
      exact iff_of_false Bool.false_ne_true (by rintro ⟨⟩)
    · obtain ⟨th, hth, hrest⟩ := ht.threaded p n tid hn htid
      exact ⟨th, hthreads tid th hth, hrest⟩
  · change tid < s.nextThread + 1 ∧ _
    rcases update_eq_some_iff.mp hth with ⟨rfl, rfl⟩ | ⟨-, hth⟩
    · exact ⟨Nat.lt_succ_self _,
        Or.inl ⟨_, Store.val?_update_eq_some_iff.mpr (Or.inl ⟨rfl, rfl⟩), rfl⟩⟩
    · obtain ⟨hlt, hleft | hright⟩ := ht.thread tid th hth
      · obtain ⟨n, hn, hn'⟩ := hleft
        exact ⟨Nat.lt_succ_of_lt hlt, Or.inl ⟨n,
          Store.val?_update_eq_some_iff.mpr (Or.inr ⟨hfirst tid th hth, hn⟩), hn'⟩⟩
      · exact ⟨Nat.lt_succ_of_lt hlt, Or.inr hright⟩
  · obtain ⟨th, hth, hend, hr⟩ := ht.joined tid htid
    refine ⟨th, hthreads tid th hth, hend, Or.inl (hr.resolve_right ?_)⟩
    rw [hpc]
    rintro ⟨⟩
  · cases hp
  · rcases update_eq_some_iff.mp hth with ⟨rfl, rfl⟩ | ⟨-, hth⟩
    · rcases update_eq_some_iff.mp hth' with ⟨rfl, -⟩ | ⟨-, hth'⟩
      · rfl
      · exact absurd hinfo.symm (hfirst tid' th' hth')
    · rcases update_eq_some_iff.mp hth' with ⟨rfl, rfl⟩ | ⟨-, hth'⟩
      · exact absurd hinfo (hfirst tid th hth)
      · exact ht.injective tid tid' th th' hth hth' hinfo

/-- The loose node is freed: it had no thread, or `reap_threads` has joined its thread.
Source: `aesdsocket.c`, `main` and `reap_threads`
Kind: L -/
theorem Threaded.freeLoose {cur : ℕ} (ht : Threaded s) {pc' : MainPc}
    (hun : pc'.unthreaded = none) (hnode : pc'.joinedNode = none)
    (hcur : ∀ p, s.pc.unthreaded = some p → p = cur)
    (hgone : ∀ n tid, s.store.val? cur = some n → n.threadId = some tid →
      cur ∈ s.reaped ∧ tid ∈ s.joined)
    (hreaped : ∀ p, s.pc.joinedNode = some p → p ∈ s.reaped) :
    Threaded { s with
      store := Function.update s.store cur none, freed := s.freed ++ [cur], pc := pc' } := by
  have hval : ∀ p, p ≠ cur →
      Store.val? (Function.update s.store cur none) p = s.store.val? p :=
    fun p hp => Store.val?_update_of_ne _ hp none
  have hne : ∀ p n, Store.val? (Function.update s.store cur none) p = some n → p ≠ cur := by
    rintro p n hn rfl
    rw [Store.val?_update_self] at hn
    cases hn
  refine ⟨fun p n hn => ?_, fun p n hn htid => ?_, fun p n tid hn htid => ?_, fun tid th hth => ?_,
    fun tid htid => ?_, ht.joined_nodup, fun p n tid hp => ?_, ht.injective⟩
  · have hp := hne p n hn
    rw [hval p hp] at hn
    change _ ↔ pc'.unthreaded = some p
    rw [ht.unthreaded p n hn, hun]
    exact iff_of_false (fun h => hp (hcur p h)) nofun
  · rw [hval p (hne p n hn)] at hn
    exact ht.fresh p n hn htid
  · rw [hval p (hne p n hn)] at hn
    exact ht.threaded p n tid hn htid
  · change _ ∧ ((∃ n, Store.val? (Function.update s.store cur none) th.connInfo = some n ∧ _) ∨
      th.connInfo ∈ s.freed ++ [cur] ∧ _)
    obtain ⟨hlt, hleft | ⟨hf, hright⟩⟩ := ht.thread tid th hth
    · obtain ⟨n, hn, htid⟩ := hleft
      by_cases hth' : th.connInfo = cur
      · rw [hth'] at hn ⊢
        obtain ⟨hr, hj⟩ := hgone n tid hn htid
        obtain ⟨th', hth'', hend, -⟩ := ht.joined tid hj
        cases hth.symm.trans hth''
        exact ⟨hlt, Or.inr ⟨List.mem_concat_self, hr, hj, hend⟩⟩
      · exact ⟨hlt, Or.inl ⟨n, (hval _ hth').trans hn, htid⟩⟩
    · exact ⟨hlt, Or.inr ⟨List.mem_append_left _ hf, hright⟩⟩
  · obtain ⟨th, hth, hend, hr⟩ := ht.joined tid htid
    exact ⟨th, hth, hend, Or.inl (hr.elim id (hreaped _))⟩
  · change pc'.joinedNode = some p at hp
    rw [hnode] at hp
    cases hp

/-- A thread is joined.
Source: `aesdsocket.c`, `main` and `reap_threads`
Kind: L -/
theorem Threaded.join {site : ReapSite} {reapedCount cur tid : ℕ} {tmp : Option ℕ}
    {c : Cell ConnNode} {th : Thread} (ht : Threaded s)
    (hpc : s.pc = .reap site reapedCount (.join cur tmp)) (hc : s.store cur = some c)
    (htid : c.val.threadId = some tid) (hth : s.threads tid = some th) (hnew : tid ∉ s.joined)
    (hend : th.handler.pc = .finished) :
    Threaded { s with
      joined := s.joined ++ [tid], pc := .reap site reapedCount (.remove cur tmp) } := by
  have hcur : s.store.val? cur = some c.val := by rw [Store.val?, hc]; rfl
  refine ⟨fun p n hn => ?_, ht.fresh, ht.threaded, fun tid' th' hth' => ?_, fun tid' htid' => ?_,
    ?_, fun p n tid' hp hn hn' => ?_, ht.injective⟩
  · rw [ht.unthreaded p n hn, hpc]
    rfl
  · obtain ⟨hlt, hleft | ⟨hf, hr, hj, hfin⟩⟩ := ht.thread tid' th' hth'
    · exact ⟨hlt, Or.inl hleft⟩
    · exact ⟨hlt, Or.inr ⟨hf, hr, List.mem_append_left _ hj, hfin⟩⟩
  · rcases List.mem_append.mp htid' with hbefore | hnow
    · obtain ⟨th', hth', hfin, hr⟩ := ht.joined tid' hbefore
      refine ⟨th', hth', hfin, Or.inl (hr.resolve_right ?_)⟩
      rw [hpc]
      rintro ⟨⟩
    · rw [List.mem_singleton] at hnow
      subst hnow
      obtain ⟨th', hth', hinfo, -⟩ := ht.threaded cur c.val tid' hcur htid
      refine ⟨th', hth', ?_, Or.inr (by rw [hinfo]; rfl)⟩
      cases hth.symm.trans hth'
      exact hend
  · change (s.joined ++ [tid]).Nodup
    rw [List.nodup_append]
    refine ⟨ht.joined_nodup, List.nodup_singleton tid, fun a ha b hb => ?_⟩
    rw [List.mem_singleton] at hb
    rintro rfl
    exact hnew (hb ▸ ha)
  · cases hp
    change s.store.val? cur = some n at hn
    rw [hcur, Option.some_inj] at hn
    subst hn
    cases htid.symm.trans hn'
    exact List.mem_concat_self

/-- A handler does not write its thread number.
Source: `aesdsocket.c`, `main`; `handler.c`, `handle_connection`
Kind: L -/
theorem Event.mark_threadId (ev : Event) (n : ConnNode) : (ev.mark n).threadId = n.threadId := by
  cases ev <;> rfl

/-- `done` is set by the last event.
Source: `aesdsocket.c`, `main`; `handler.c`, `handle_connection`
Kind: L -/
theorem Event.mark_done (ev : Event) (n : ConnNode) (hdone : n.done = false) :
    (ev.mark n).done = true ↔ ev = .setDone := by
  cases ev with
  | setDone => exact iff_of_true rfl rfl
  | _ =>
      refine iff_of_false ?_ nofun
      change ¬ n.done = true
      rw [hdone]
      decide

/-- A handler takes a step.
Source: `aesdsocket.c`, `main`; `handler.c`, `handle_connection`
Kind: L -/
theorem Threaded.handle {tid : ℕ} {ev : Event} {th : Thread} {h : Handler} {c : Cell ConnNode}
    (ht : Threaded s) (hth : s.threads tid = some th) (hh : th.handler.step build ev = some h)
    (hc : s.store th.connInfo = some c) :
    Threaded { s with
      threads := Function.update s.threads tid (some { th with handler := h })
      store := Function.update s.store th.connInfo (some { c with val := ev.mark c.val }) } := by
  have hrun : th.handler.pc ≠ .finished := by
    intro hend
    simp only [Handler.step, hend] at hh
    cases hh
  obtain ⟨n₀, hn₀, htid₀, hdone₀⟩ := ht.own_node hth hrun
  have hcval : s.store.val? th.connInfo = some c.val := by rw [Store.val?, hc]; rfl
  cases hn₀.symm.trans hcval
  have hfin := (Handler.steps_of_step hh).finished_iff
  have hcases : ∀ {p : ℕ} {n : ConnNode}, Store.val? (Function.update s.store th.connInfo
      (some { c with val := ev.mark c.val })) p = some n →
        (p = th.connInfo ∧ ev.mark c.val = n) ∨ (p ≠ th.connInfo ∧ s.store.val? p = some n) :=
    Store.val?_update_eq_some_iff.mp
  have hother : ∀ tid' th', s.threads tid' = some th' →
      th' ≠ th → Function.update s.threads tid (some { th with handler := h }) tid' = some th' := by
    intro tid' th' hth' hne
    refine update_eq_some_iff.mpr (Or.inr ⟨?_, hth'⟩)
    rintro rfl
    exact hne (Option.some.inj (hth'.symm.trans hth))
  have hsame : ∀ tid' th', Function.update s.threads tid (some { th with handler := h }) tid' =
      some th' → ∃ th₀, s.threads tid' = some th₀ ∧ th₀.connInfo = th'.connInfo := by
    intro tid' th' hth'
    rcases update_eq_some_iff.mp hth' with ⟨rfl, rfl⟩ | ⟨-, hth'⟩
    · exact ⟨th, hth, rfl⟩
    · exact ⟨th', hth', rfl⟩
  refine ⟨fun p n hn => ?_, fun p n hn hnone => ?_, fun p n tid' hn htid' => ?_,
    fun tid' th' hth' => ?_, fun tid' htid' => ?_, ht.joined_nodup, fun p n tid' hp hn hn' => ?_,
    fun tid₁ tid₂ th₁ th₂ h₁ h₂ hinfo => ?_⟩
  · rcases hcases hn with ⟨rfl, rfl⟩ | ⟨hp, hn⟩
    · rw [Event.mark_threadId]
      exact ht.unthreaded _ _ hcval
    · exact ht.unthreaded p n hn
  · rcases hcases hn with ⟨rfl, rfl⟩ | ⟨hp, hn⟩
    · rw [Event.mark_threadId, htid₀] at hnone
      cases hnone
    · exact ht.fresh p n hn hnone
  · rcases hcases hn with ⟨rfl, rfl⟩ | ⟨hp, hn⟩
    · rw [Event.mark_threadId, htid₀] at htid'
      cases htid'
      refine ⟨_, Function.update_self _ _ _, rfl, ?_⟩
      rw [Event.mark_done ev c.val hdone₀]
      exact hfin.symm
    · obtain ⟨th', hth', hinfo, hdone⟩ := ht.threaded p n tid' hn htid'
      refine ⟨th', hother tid' th' hth' ?_, hinfo, hdone⟩
      rintro rfl
      exact hp hinfo.symm
  · rcases update_eq_some_iff.mp hth' with ⟨rfl, rfl⟩ | ⟨htid, hth'⟩
    · exact ⟨(ht.thread tid' th hth).1, Or.inl ⟨_,
        Store.val?_update_eq_some_iff.mpr (Or.inl ⟨rfl, rfl⟩), by rw [Event.mark_threadId, htid₀]⟩⟩
    · obtain ⟨hlt, hleft | hright⟩ := ht.thread tid' th' hth'
      · obtain ⟨n, hn, hn'⟩ := hleft
        have hinfo : th'.connInfo ≠ th.connInfo := fun h =>
          htid (ht.injective tid' tid th' th hth' hth h)
        exact ⟨hlt, Or.inl ⟨n, Store.val?_update_eq_some_iff.mpr (Or.inr ⟨hinfo, hn⟩), hn'⟩⟩
      · exact ⟨hlt, Or.inr hright⟩
  · obtain ⟨th', hth', hend, hr⟩ := ht.joined tid' htid'
    refine ⟨th', hother tid' th' hth' ?_, hend, hr⟩
    rintro rfl
    exact hrun hend
  · rcases hcases hn with ⟨rfl, rfl⟩ | ⟨hpi, hn⟩
    · rw [Event.mark_threadId] at hn'
      exact ht.reaping _ _ tid' hp hcval hn'
    · exact ht.reaping p n tid' hp hn hn'
  · obtain ⟨a, ha, hinfo₁⟩ := hsame tid₁ th₁ h₁
    obtain ⟨b, hb, hinfo₂⟩ := hsame tid₂ th₂ h₂
    exact ht.injective tid₁ tid₂ a b ha hb (by rw [hinfo₁, hinfo₂, hinfo])

/-- **Every step keeps the threads and their nodes together.**
Source: `aesdsocket.c`, `main` and `reap_threads`; `handler.c`, `handle_connection`
Kind: P -/
theorem Threaded.step (ht : Threaded s) (hl : Listed s l) (hstep : s.Steps build t s')
    (hsafe : ¬ s.Dangling t) : Threaded s' := by
  cases hstep with
  | faults hbad => exact absurd hbad hsafe
  | moves hpc hpc' _ =>
      obtain ⟨-, hun, hnode, -⟩ := MainPc.of_idle hpc
      obtain ⟨-, hun', hnode', -⟩ := MainPc.of_idle hpc'
      exact ht.setPc rfl (hun'.trans hun.symm) (hnode'.trans hnode.symm)
  | enters hpc _ =>
      obtain ⟨-, hun, hnode, -⟩ := MainPc.of_idle hpc
      exact ht.setPc rfl hun.symm hnode.symm
  | mallocs hpc => exact ht.newNode hl hpc
  | @inserts _ clfd node store head hpc hop =>
      have hold : s.pc.loose = some node := by rw [hpc]; rfl
      have hlive := (hl.live node).mpr (Or.inr hold)
      obtain ⟨store', hop', -, hval⟩ := Store.insertHead_spec hl.linked (hl.loose node hold)
        fun h => hlive (Store.val?_eq_none.mpr h)
      cases hop.symm.trans hop'
      exact ht.frame hval rfl rfl rfl rfl (fun _ h => h) (by rw [hpc]; rfl) (by rw [hpc]; rfl)
  | creates hpc hc => exact ht.newThread hl hpc hc
  | createFails hpc => exact ht.setPc hpc rfl rfl
  | unlinks hpc hop =>
      have hpos := hl.position
      rw [hpc] at hpos
      obtain ⟨pre, rest, rfl⟩ := List.append_of_mem hpos
      obtain ⟨store', head', hop', -, hval⟩ := hl.remove
      cases hop.symm.trans hop'
      exact ht.frame hval rfl rfl rfl rfl (fun _ h => h) (by rw [hpc]; rfl) (by rw [hpc]; rfl)
  | @rollsBack _ clfd node hpc _ =>
      have hun : s.pc.unthreaded = some node := by rw [hpc]; rfl
      refine ht.freeLoose rfl rfl (fun p hp => ?_) (fun n tid hn htid => ?_) fun p hp => ?_
      · exact (Option.some.inj (hun.symm.trans hp)).symm
      · rw [(ht.unthreaded node n hn).mpr hun] at htid
        cases htid
      · rw [hpc] at hp
        cases hp
  | @leaves _ site _ hpc =>
      cases site with
      | inLoop => exact ht.setPc hpc rfl rfl
      | final => exact ht.setPc hpc rfl rfl
  | visits hpc _ | skips hpc _ _ | finds hpc _ _ => exact ht.setPc hpc rfl rfl
  | joins hpc hc htid hth hnew hend => exact ht.join hpc hc htid hth hnew hend
  | removes hpc hop =>
      have hpos := hl.position
      rw [hpc] at hpos
      obtain ⟨pre, rest, rfl, -⟩ := hpos
      obtain ⟨store', head', hop', -, hval⟩ := hl.remove
      cases hop.symm.trans hop'
      exact ht.frame hval rfl rfl rfl rfl (fun _ h => List.mem_append_left _ h) (by rw [hpc]; rfl)
        (by rw [hpc]; rfl)
  | @frees _ site reapedCount cur tmp hpc _ =>
      have hreaped : cur ∈ s.reaped := hl.unlinked cur (by rw [hpc]; rfl)
      have hnode : s.pc.joinedNode = some cur := by rw [hpc]; rfl
      refine ht.freeLoose rfl rfl (fun p hp => ?_) (fun n tid hn htid => ?_) fun p hp => ?_
      · rw [hpc] at hp
        cases hp
      · exact ⟨hreaped, ht.reaping cur n tid hnode hn htid⟩
      · cases hnode.symm.trans hp
        exact hreaped
  | signals => exact ht.frame rfl rfl rfl rfl rfl (fun _ h => h) rfl rfl
  | handles hth hh hc => exact ht.handle hth hh hc

/-- At the start there are no nodes and no threads.
Source: `aesdsocket.c`, `main`
Kind: L -/
theorem threaded_start : Threaded .start where
  unthreaded _ _ h := nomatch h
  fresh _ _ h := nomatch h
  threaded _ _ _ h := nomatch h
  thread _ _ h := nomatch h
  joined _ h := nomatch h
  joined_nodup := List.nodup_nil
  reaping _ _ _ h := nomatch h
  injective _ _ _ _ h := nomatch h

/-! ### No pointer dangles -/

/-- A node of the list is in memory.
Source: `aesdsocket.c`, `main`
Kind: L -/
theorem Listed.store_ne_none (hl : Listed s l) (hp : p ∈ l) : s.store p ≠ none :=
  hl.linked.live hp

/-- **No step uses a pointer to nothing.**
Source: `aesdsocket.c`, `main`
Kind: P -/
theorem not_dangling (hl : Listed s l) (ht : Threaded s) : ¬ s.Dangling t := by
  intro hbad
  have hpos := hl.position
  have hloose : ∀ p, s.pc.loose = some p → s.store p ≠ none := fun p hp h =>
    (hl.live p).mpr (Or.inr hp) (Store.val?_eq_none.mpr h)
  cases t with
  | signal => exact hbad
  | handler tid ev =>
      obtain ⟨th, hth, hrun, hnone⟩ := hbad
      obtain ⟨n, hn, -, -⟩ := ht.own_node hth hrun
      rw [Store.val?_eq_none.mpr hnone] at hn
      cases hn
  | main ev =>
      cases hpc : s.pc with
      | insertHead clfd node =>
          simp only [MainState.Dangling, hpc] at hbad
          exact hloose node (by rw [hpc]; rfl) hbad
      | rollbackFree clfd node =>
          simp only [MainState.Dangling, hpc] at hbad
          exact hloose node (by rw [hpc]; rfl) hbad
      | create clfd node =>
          simp only [MainState.Dangling, hpc] at hbad
          rw [hpc] at hpos
          exact hl.store_ne_none hpos hbad
      | rollback clfd node =>
          simp only [MainState.Dangling, hpc] at hbad
          rw [hpc] at hpos
          obtain ⟨pre, rest, rfl⟩ := List.append_of_mem hpos
          obtain ⟨store', head', hop, -⟩ := hl.remove
          rw [hop] at hbad
          cases hbad
      | reap site reapedCount pc =>
          rw [hpc] at hpos
          cases pc with
          | next cur =>
              cases cur with
              | none => simp only [MainState.Dangling, hpc] at hbad
              | some cur =>
                  simp only [MainState.Dangling, hpc] at hbad
                  obtain ⟨pre, rest, rfl, hcur⟩ := hpos
                  have hmem : cur ∈ rest := List.mem_of_head? hcur.symm
                  exact hl.store_ne_none (List.mem_append_right _ hmem) hbad
          | test cur tmp =>
              simp only [MainState.Dangling, hpc] at hbad
              obtain ⟨pre, rest, rfl, -⟩ := hpos
              exact hl.store_ne_none (List.mem_append_right _ List.mem_cons_self) hbad
          | join cur tmp =>
              simp only [MainState.Dangling, hpc] at hbad
              obtain ⟨pre, rest, rfl, -⟩ := hpos
              have hmem : cur ∈ pre ++ cur :: rest := List.mem_append_right _ List.mem_cons_self
              obtain ⟨c, hc⟩ := Option.ne_none_iff_exists'.mp (hl.store_ne_none hmem)
              have hn : s.store.val? cur = some c.val := by rw [Store.val?, hc]; rfl
              have hsome : c.val.threadId ≠ none := by
                rw [Ne, ht.unthreaded cur c.val hn, hpc]
                rintro ⟨⟩
              obtain ⟨tid, htid⟩ := Option.ne_none_iff_exists'.mp hsome
              obtain ⟨th, hth, hinfo, -⟩ := ht.threaded cur c.val tid hn htid
              -- a thread that was joined has lost its node
              obtain ⟨th', hth', -, hr⟩ := ht.joined tid (hbad c tid th hc htid hth)
              cases hth.symm.trans hth'
              rw [hpc, hinfo] at hr
              rcases hr with hr | hr
              · exact (hl.reaped cur hr).1 hmem
              · cases hr
          | remove cur tmp =>
              simp only [MainState.Dangling, hpc] at hbad
              obtain ⟨pre, rest, rfl, -⟩ := hpos
              obtain ⟨store', head', hop, -⟩ := hl.remove
              rw [hop] at hbad
              cases hbad
          | free cur tmp =>
              simp only [MainState.Dangling, hpc] at hbad
              exact hloose cur (by rw [hpc]; rfl) hbad
      | _ => simp only [MainState.Dangling, hpc] at hbad

/-- Only a step with a dangling pointer sets `fault`.
Source: `aesdsocket.c`, `main`
Kind: L -/
theorem MainState.Steps.fault_eq (hstep : s.Steps build t s') (hsafe : ¬ s.Dangling t) :
    s'.fault = s.fault := by
  cases hstep with
  | faults hbad => exact absurd hbad hsafe
  | _ => rfl

/-- **The invariants hold in every state of every run.**
Source: `aesdsocket.c`, `main` and `reap_threads`; `handler.c`, `handle_connection`
Kind: P -/
theorem lifetime_of_run {steps : List MainStep} (hrun : mainRun build steps = some s) :
    (∃ l, Listed s l) ∧ Threaded s ∧ s.fault = false := by
  refine run_induction (P := fun _ s => (∃ l, Listed s l) ∧ Threaded s ∧ s.fault = false)
    ⟨⟨[], listed_start⟩, threaded_start, rfl⟩ ?_ hrun
  rintro steps s t s' - ⟨⟨l, hl⟩, ht, hfault⟩ hstep
  have hsafe : ¬ s.Dangling t := not_dangling hl ht
  have hsteps := MainState.steps_of_step hstep
  exact ⟨hl.step hsteps hsafe, ht.step hl hsteps hsafe, (hsteps.fault_eq hsafe).trans hfault⟩

end threaded

/-! ### The lifetime of a node -/

/-- The event of one thread.
Source: `aesdsocket.c`, `main`; `handler.c`, `handle_connection`
Kind: D -/
def MainStep.ofThread (tid : ℕ) : MainStep → Option Event
  | .handler tid' ev => if tid' = tid then some ev else none
  | _ => none

/-- The events of one thread.
Source: `aesdsocket.c`, `main`; `handler.c`, `handle_connection`
Kind: D -/
def threadEvents (tid : ℕ) (steps : List MainStep) : List Event :=
  steps.filterMap (MainStep.ofThread tid)

section lifetime

variable {build : Build} {s s' : MainState} {t : MainStep} {steps : List MainStep}

/-- The event of one more step.
Source: none: infrastructure
Kind: L -/
theorem threadEvents_concat (tid : ℕ) (steps : List MainStep) (t : MainStep) :
    threadEvents tid (steps ++ [t]) = threadEvents tid steps ++ (t.ofThread tid).toList :=
  filterMap_concat _ steps t

/-- A step of `main` or a signal leaves a thread that is there alone, and makes at most the next
one.
Source: `aesdsocket.c`, `main`
Kind: L -/
theorem MainState.Steps.threads_cases (hstep : s.Steps build t s') (hsafe : ¬ s.Dangling t)
    {tid : ℕ} {th : Thread} (hth : s'.threads tid = some th) :
    (t.ofThread tid = none ∧ s.threads tid = some th) ∨
    (t.ofThread tid = none ∧ tid = s.nextThread ∧ th.handler = .start) ∨
    ∃ th₀ ev, t.ofThread tid = some ev ∧ s.threads tid = some th₀ ∧
      th₀.handler.step build ev = some th.handler := by
  cases hstep with
  | faults hbad => exact absurd hbad hsafe
  | @creates _ clfd node c hpc hc =>
      rcases update_eq_some_iff.mp hth with ⟨rfl, rfl⟩ | ⟨-, hth⟩
      · exact Or.inr (Or.inl ⟨rfl, rfl, rfl⟩)
      · exact Or.inl ⟨rfl, hth⟩
  | @handles tid' ev th' h c hth' hh hc =>
      rw [MainStep.ofThread]
      rcases update_eq_some_iff.mp hth with ⟨rfl, rfl⟩ | ⟨htid, hth⟩
      · exact Or.inr (Or.inr ⟨th', ev, if_pos rfl, hth', hh⟩)
      · exact Or.inl ⟨if_neg (Ne.symm htid), hth⟩
  | _ => exact Or.inl ⟨rfl, hth⟩

/-- A thread that has taken a step is there.
Source: `aesdsocket.c`, `main`; `handler.c`, `handle_connection`
Kind: L -/
theorem MainState.Steps.thread_of_ofThread (hstep : s.Steps build t s') (hsafe : ¬ s.Dangling t)
    {tid : ℕ} {ev : Event} (hof : t.ofThread tid = some ev) : s.threads tid ≠ none := by
  cases hstep with
  | faults hbad => exact absurd hbad hsafe
  | handles hth _ _ =>
      rw [MainStep.ofThread, Option.ite_none_right_eq_some] at hof
      rw [← hof.1, hth]
      exact nofun
  | _ => cases hof

/-- **Every thread runs as `handle_connection` does.**
Source: `aesdsocket.c`, `main`; `handler.c`, `handle_connection`
Kind: P -/
theorem handleConnection_of_mainRun (hrun : mainRun build steps = some s) :
    (∀ tid th, s.threads tid = some th →
      handleConnection build (threadEvents tid steps) = some th.handler) ∧
    ∀ tid, s.nextThread ≤ tid → threadEvents tid steps = [] := by
  refine run_induction (P := fun steps s => (∀ tid th, s.threads tid = some th →
      handleConnection build (threadEvents tid steps) = some th.handler) ∧
    ∀ tid, s.nextThread ≤ tid → threadEvents tid steps = [])
    ⟨by simp [MainState.start], fun _ _ => rfl⟩ ?_ hrun
  rintro steps s t s' hrun' ⟨hconn, hnone⟩ hstep
  obtain ⟨⟨l, hl⟩, ht, -⟩ := lifetime_of_run hrun'
  have hsafe : ¬ s.Dangling t := not_dangling hl ht
  have hsteps := MainState.steps_of_step hstep
  constructor
  · intro tid th hth
    rw [threadEvents_concat]
    rcases hsteps.threads_cases hsafe hth with
      ⟨hof, hth'⟩ | ⟨hof, htid, hstart⟩ | ⟨th₀, ev, hof, hth₀, hh⟩
    · rw [hof, Option.toList_none, List.append_nil]
      exact hconn tid th hth'
    · rw [hof, Option.toList_none, List.append_nil, hnone tid (Nat.le_of_eq htid.symm), hstart]
      rfl
    · rw [hof]
      exact run_concat.mpr ⟨_, hconn tid th₀ hth₀, hh⟩
  · intro tid htid
    have hle : s.nextThread ≤ tid := by
      refine Nat.le_trans ?_ htid
      cases hsteps with
      | faults hbad => exact absurd hbad hsafe
      | creates _ _ => exact Nat.le_succ _
      | _ => exact Nat.le_refl _
    rw [threadEvents_concat, hnone tid hle, List.nil_append]
    cases hof : t.ofThread tid with
    | none => rfl
    | some ev =>
        obtain ⟨th, hth⟩ := Option.ne_none_iff_exists'.mp (hsteps.thread_of_ofThread hsafe hof)
        have := (ht.thread tid th hth).1
        omega

/-- The nodes of the list.
Source: `aesdsocket.c`, `main`
Kind: L -/
theorem mem_list_iff {l : List ℕ} {p : ℕ} (hl : Listed s l) (ht : Threaded s) : p ∈ l ↔
    ((∃ tid th, s.threads tid = some th ∧ th.connInfo = p) ∧ p ∉ s.reaped) ∨
      s.pc.settingUp = some p := by
  constructor
  · intro hp
    obtain ⟨n, hn⟩ := Option.ne_none_iff_exists'.mp (hl.of_mem hp)
    cases htid : n.threadId with
    | none =>
        have hun := (ht.unthreaded p n hn).mp htid
        exact Or.inr ((MainPc.unthreaded_cases hun).resolve_right fun h => hl.loose p h hp)
    | some tid =>
        obtain ⟨th, hth, hinfo, -⟩ := ht.threaded p n tid hn htid
        exact Or.inl ⟨⟨tid, th, hth, hinfo⟩, fun h => (hl.reaped p h).1 hp⟩
  · rintro (⟨⟨tid, th, hth, rfl⟩, hnot⟩ | hset)
    · obtain ⟨-, ⟨n, hn, htid⟩ | ⟨-, hr, -⟩⟩ := ht.thread tid th hth
      · have hlive : s.store.val? th.connInfo ≠ none := by
          rw [hn]
          exact nofun
        apply ((hl.live _).mp hlive).resolve_right
        intro hloose
        rcases MainPc.loose_cases hloose with hun | hun
        · rw [(ht.unthreaded _ n hn).mpr hun] at htid
          cases htid
        · exact hnot (hl.unlinked _ hun)
      · exact absurd hr hnot
    · exact hl.position.mem_of_settingUp hset

/-- **The lifetime of a connection node.** In every state that `main`, the threads and the signals
can reach in any interleaving, whatever fails: the list holds, without duplicates, exactly the nodes
that were given a thread and that `reap_threads` has not taken out, and at most the one being set
up; no thread is joined twice, no two threads have one node, and no node is freed twice; a thread
that was joined has set `done`, and that was the last thing it did; the thread of a node that was
freed was joined; a handler that has not finished has its node in memory; and no pointer to a node
that is not there was ever used.
Source: `aesdsocket.c`, `main` and `reap_threads`; `handler.c`, `handle_connection`
Kind: P -/
theorem node_lifetime (hrun : mainRun build steps = some s) :
    (∃ l, s.store.Linked s.head l ∧ l.Nodup ∧ ∀ p, p ∈ l ↔
      ((∃ tid th, s.threads tid = some th ∧ th.connInfo = p) ∧ p ∉ s.reaped) ∨
        s.pc.settingUp = some p) ∧
    s.joined.Nodup ∧ s.freed.Nodup ∧
    (∀ tid tid' th th', s.threads tid = some th → s.threads tid' = some th' →
      th.connInfo = th'.connInfo → tid = tid') ∧
    (∀ tid ∈ s.joined, ∃ th es, s.threads tid = some th ∧ th.handler.pc = .finished ∧
      threadEvents tid steps = es ++ [.setDone]) ∧
    (∀ p ∈ s.freed, s.store p = none ∧
      ∀ tid th, s.threads tid = some th → th.connInfo = p → tid ∈ s.joined) ∧
    (∀ tid th, s.threads tid = some th → th.handler.pc ≠ .finished → s.store th.connInfo ≠ none) ∧
    s.fault = false := by
  obtain ⟨⟨l, hl⟩, ht, hfault⟩ := lifetime_of_run hrun
  refine ⟨⟨l, hl.linked, hl.nodup, fun p => ?_⟩, ht.joined_nodup, hl.freed_nodup, ht.injective,
    fun tid htid => ?_, fun p hp => ⟨Store.val?_eq_none.mp (hl.freed p hp).1, ?_⟩,
    fun tid th hth hrunning => ?_, hfault⟩
  · exact mem_list_iff hl ht
  · obtain ⟨th, hth, hend, -⟩ := ht.joined tid htid
    obtain ⟨es, hes⟩ := exists_eq_concat_setDone ((handleConnection_of_mainRun hrun).1 tid th hth) hend
    exact ⟨th, es, hth, hend, hes⟩
  · intro tid th hth hinfo
    obtain ⟨-, ⟨n, hn, -⟩ | ⟨-, -, hj, -⟩⟩ := ht.thread tid th hth
    · rw [hinfo, (hl.freed p hp).1] at hn
      cases hn
    · exact hj
  · obtain ⟨n, hn, -, -⟩ := ht.own_node hth hrunning
    intro hnone
    rw [Store.val?_eq_none.mpr hnone] at hn
    cases hn

/-- `main` accepts a connection and gives it a thread.
Source: `aesdsocket.c`, `main`
Kind: D -/
def acceptOne (clfd : ℕ) : List MainStep :=
  [.main .goOn, .main (.accept (.ok clfd)), .main (.malloc true), .main .goOn, .main (.create true)]

/-- A thread that gets no memory.
Source: `aesdsocket.c`, `main`
Kind: D -/
def failAtOnce (tid : ℕ) : List MainStep :=
  [.handler tid (.malloc .fail fun _ => 0), .handler tid .closeClient, .handler tid .setDone]

/-- A connection whose thread has finished when `reap_threads` comes to its node.
Source: `aesdsocket.c`, `main` and `reap_threads`
Kind: D -/
def acceptAndReap : List MainStep :=
  acceptOne 4 ++ failAtOnce 0 ++ List.replicate 6 (.main .goOn)

/-- Its thread is joined once, after it has set `done`, and its node is freed once.
Source: `aesdsocket.c`, `reap_threads`
Kind: N+ -/
theorem node_lifetime_reaped :
    ∃ s, mainRun .charDevice acceptAndReap = some s ∧ s.joined = [0] ∧ s.freed = [0] ∧
      ∃ es, threadEvents 0 acceptAndReap = es ++ [.setDone] := by
  obtain ⟨s, hs, hend⟩ := Option.map_eq_some_iff.mp (show (mainRun .charDevice acceptAndReap).map
    (fun s => (s.joined, s.freed)) = some ([0], [0]) by decide +kernel)
  rw [Prod.mk.injEq] at hend
  obtain ⟨-, -, -, -, hjoined, -⟩ := node_lifetime hs
  obtain ⟨th, es, -, -, hes⟩ := hjoined 0 (by rw [hend.1]; exact List.mem_singleton_self 0)
  exact ⟨s, hs, hend.1, hend.2, es, hes⟩

end lifetime

end Aesd.Server
