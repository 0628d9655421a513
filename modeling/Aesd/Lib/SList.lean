import Mathlib.Data.List.Nodup
import Mathlib.Logic.Function.Basic
import Mathlib.Tactic.Common

/-!
# Singly linked lists in a store

Nodes are cells of a store, each with a link to the next node and a payload; a list is a link to its
first node. The operations are those of the `SLIST` macros: insertion at the head, removal by a
search from the head, and a traversal that follows the links. An operation is `none` when it follows
a link to a node that is not there, or when its search does not end within the fuel.

* `Linked store head l` — the nodes that are met from `head` are those of `l`;
* `insertHead_spec`, `remove_spec` — what the operations do to the list, and that they leave the
  payloads alone;
* `Linked.next_eq` — the link of a node is the node behind it in the list;
* `Linked.head?_eq_iff` — when a place in the list is its first node.
-/

namespace Aesd.Lib

/-- A node: the link to the next one, and the payload.
Source: none: infrastructure
Kind: D -/
structure Cell (α : Type*) where
  next : Option ℕ
  val : α

/-- The nodes that are there.
Source: none: infrastructure
Kind: D -/
abbrev Store (α : Type*) := ℕ → Option (Cell α)

/-- What a partial function has after one value of it is set.
Source: none: infrastructure
Kind: L -/
theorem update_eq_some_iff {β : Type*} {f : ℕ → Option β} {a b : ℕ} {x y : β} :
    Function.update f a (some x) b = some y ↔ (b = a ∧ x = y) ∨ (b ≠ a ∧ f b = some y) := by
  by_cases hb : b = a
  · subst hb
    rw [Function.update_self, Option.some_inj]
    simp
  · rw [Function.update_of_ne hb]
    simp [hb]

namespace Store

variable {α : Type*}

/-- The payload of a node.
Source: none: infrastructure
Kind: D -/
def val? (store : Store α) (p : ℕ) : Option α := (store p).map Cell.val

/-! ### The operations -/

/-- `SLIST_INSERT_HEAD`: the new store and the new head.
Source: none: infrastructure
Kind: D -/
def insertHead (store : Store α) (head : Option ℕ) (elm : ℕ) : Option (Store α × Option ℕ) :=
  (store elm).map fun c => (Function.update store elm (some { c with next := head }), some elm)

/-- The search of `SLIST_REMOVE`: the node whose link is `elm`, from a node on.
Source: none: infrastructure
Kind: D -/
def findPrev (store : Store α) (elm : ℕ) : ℕ → ℕ → Option ℕ
  | 0, _ => none
  | fuel + 1, cur =>
      (store cur).bind fun c =>
        if c.next = some elm then some cur else c.next.bind (findPrev store elm fuel)

/-- `SLIST_REMOVE_AFTER`: the link of a node skips the next one.
Source: none: infrastructure
Kind: D -/
def removeAfter (store : Store α) (cur : ℕ) : Option (Store α) :=
  (store cur).bind fun c => (c.next.bind store).map fun d =>
    Function.update store cur (some { c with next := d.next })

/-- `SLIST_REMOVE`: the new store and the new head.
Source: none: infrastructure
Kind: D -/
def remove (fuel : ℕ) (store : Store α) (head : Option ℕ) (elm : ℕ) :
    Option (Store α × Option ℕ) :=
  if head = some elm then (store elm).map fun c => (store, c.next)
  else head.bind fun first => (findPrev store elm fuel first).bind fun prev =>
    (removeAfter store prev).map fun store' => (store', head)

/-! ### Segments and lists -/

/-- From the link `p`, the nodes of `l` are met one after another, up to the link `q`.
Source: none: infrastructure
Kind: D -/
def Seg (store : Store α) : Option ℕ → List ℕ → Option ℕ → Prop
  | p, [], q => p = q
  | p, a :: l, q => p = some a ∧ ∃ c, store a = some c ∧ Seg store c.next l q

/-- The nodes that are met from the head.
Source: none: infrastructure
Kind: D -/
def Linked (store : Store α) (head : Option ℕ) (l : List ℕ) : Prop := Seg store head l none

variable {store store' : Store α} {head p q : Option ℕ} {l l' pre rest : List ℕ} {a cur elm : ℕ}
  {c : Cell α}

/-- A segment is cut where it is followed.
Source: none: infrastructure
Kind: L -/
theorem seg_append : Seg store p (l ++ l') q ↔ ∃ m, Seg store p l m ∧ Seg store m l' q := by
  induction l generalizing p with
  | nil => simp [Seg]
  | cons a l ih =>
      constructor
      · rintro ⟨rfl, c, hc, hrest⟩
        obtain ⟨m, hl, hl'⟩ := ih.mp hrest
        exact ⟨m, ⟨rfl, c, hc, hl⟩, hl'⟩
      · rintro ⟨m, ⟨rfl, c, hc, hl⟩, hl'⟩
        exact ⟨rfl, c, hc, ih.mpr ⟨m, hl, hl'⟩⟩

/-- A segment depends on the links of its nodes.
Source: none: infrastructure
Kind: L -/
theorem Seg.congr (hseg : Seg store p l q)
    (hsame : ∀ a ∈ l, (store' a).map Cell.next = (store a).map Cell.next) : Seg store' p l q := by
  induction l generalizing p with
  | nil => exact hseg
  | cons a l ih =>
      obtain ⟨rfl, c, hc, hrest⟩ := hseg
      rw [List.forall_mem_cons, hc, Option.map_some, Option.map_eq_some_iff] at hsame
      obtain ⟨⟨c', hc', hnext⟩, htail⟩ := hsame
      refine ⟨rfl, c', hc', ?_⟩
      rw [hnext]
      exact ih hrest htail

/-- A segment that ends begins with its first cell.
Source: none: infrastructure
Kind: L -/
theorem Seg.head_eq (hseg : Seg store p l none) : p = l.head? := by
  cases l with
  | nil => exact hseg
  | cons a l => exact hseg.1

/-- The cells of a segment are there.
Source: none: infrastructure
Kind: L -/
theorem Seg.live (hseg : Seg store p l q) (ha : a ∈ l) : store a ≠ none := by
  induction l generalizing p with
  | nil => cases ha
  | cons b l ih =>
      obtain ⟨-, c, hc, hrest⟩ := hseg
      rcases List.mem_cons.mp ha with rfl | ha
      · rw [hc]
        exact nofun
      · exact ih hrest ha

/-- The nodes up to the end are those that the links say.
Source: none: infrastructure
Kind: L -/
theorem Seg.unique (hseg : Seg store p l none) (hseg' : Seg store p l' none) : l = l' := by
  induction l generalizing p l' with
  | nil =>
      obtain rfl : p = none := hseg
      cases l' with
      | nil => rfl
      | cons b l' => cases hseg'.1
  | cons a l ih =>
      obtain ⟨rfl, c, hc, hrest⟩ := hseg
      cases l' with
      | nil => cases hseg'
      | cons b l' =>
          obtain ⟨hab, c', hc', hrest'⟩ := hseg'
          cases hab
          cases hc.symm.trans hc'
          rw [ih hrest hrest']

/-- The head of a list is its first cell.
Source: none: infrastructure
Kind: L -/
theorem Linked.head_eq (hl : Linked store head l) : head = l.head? := Seg.head_eq hl

/-- The links determine the list.
Source: none: infrastructure
Kind: L -/
theorem Linked.unique (hl : Linked store head l) (hl' : Linked store head l') : l = l' :=
  Seg.unique hl hl'

/-- A place in the list is its first node only when nothing stands before it.
Source: none: infrastructure
Kind: L -/
theorem Linked.head?_eq_iff (hl : Linked store head (pre ++ rest)) (hnodup : (pre ++ rest).Nodup) :
    rest.head? = head ↔ pre = [] := by
  rw [hl.head_eq]
  cases pre with
  | nil => exact iff_of_true rfl rfl
  | cons a pre =>
      refine iff_of_false (fun h => ?_) (List.cons_ne_nil a pre)
      rw [List.cons_append, List.nodup_cons] at hnodup
      exact hnodup.1 (List.mem_append_right pre (List.mem_of_head? h))

/-- The link of a node is the node behind it.
Source: none: infrastructure
Kind: L -/
theorem Linked.next_eq (hl : Linked store head (pre ++ cur :: rest)) (hc : store cur = some c) :
    c.next = rest.head? := by
  obtain ⟨m, -, -, c', hc', hrest⟩ := seg_append.mp hl
  cases hc.symm.trans hc'
  exact hrest.head_eq

/-! ### What the operations do -/

/-- What the cells hold after one of them has changed.
Source: none: infrastructure
Kind: L -/
theorem val?_update (store : Store α) (a : ℕ) (cell : Option (Cell α)) :
    val? (Function.update store a cell) = Function.update (val? store) a (cell.map Cell.val) := by
  funext b
  exact Function.apply_update (fun _ => Option.map Cell.val) store a cell b

/-- What the changed cell holds.
Source: none: infrastructure
Kind: L -/
theorem val?_update_self (store : Store α) (a : ℕ) (cell : Option (Cell α)) :
    val? (Function.update store a cell) a = cell.map Cell.val := by
  rw [val?_update, Function.update_self]

/-- What another cell holds.
Source: none: infrastructure
Kind: L -/
theorem val?_update_of_ne (store : Store α) {a b : ℕ} (hne : b ≠ a) (cell : Option (Cell α)) :
    val? (Function.update store a cell) b = val? store b := by
  rw [val?_update, Function.update_of_ne hne]

/-- A cell that is not there holds nothing.
Source: none: infrastructure
Kind: L -/
theorem val?_eq_none : val? store a = none ↔ store a = none := Option.map_eq_none_iff

/-- What any cell holds after one of them has changed.
Source: none: infrastructure
Kind: L -/
theorem val?_update_eq_some_iff {b : ℕ} {v : α} :
    val? (Function.update store a (some c)) b = some v ↔
      (b = a ∧ c.val = v) ∨ (b ≠ a ∧ val? store b = some v) := by
  rw [val?_update]
  exact update_eq_some_iff

/-- A changed link leaves what the cells hold.
Source: none: infrastructure
Kind: L -/
theorem val?_update_next (hc : store a = some c) (next : Option ℕ) :
    val? (Function.update store a (some { c with next := next })) = val? store := by
  funext b
  by_cases hb : b = a
  · subst hb
    rw [val?_update_self, val?, hc]
    rfl
  · rw [val?_update_of_ne _ hb]

/-- A change outside of a list leaves its links.
Source: none: infrastructure
Kind: L -/
theorem map_next_update_of_notMem {cell : Option (Cell α)} (ha : a ∉ l) :
    ∀ b ∈ l, (Function.update store a cell b).map Cell.next = (store b).map Cell.next := by
  intro b hb
  have hne : b ≠ a := fun h => ha (h ▸ hb)
  rw [Function.update_of_ne hne]

/-- **Insertion at the head.**
Source: none: infrastructure
Kind: L -/
theorem insertHead_spec (hl : Linked store head l) (hnew : elm ∉ l) (hlive : store elm ≠ none) :
    ∃ store', insertHead store head elm = some (store', some elm) ∧
      Linked store' (some elm) (elm :: l) ∧ val? store' = val? store := by
  obtain ⟨c, hc⟩ := Option.ne_none_iff_exists'.mp hlive
  refine ⟨_, by rw [insertHead, hc]; rfl, ⟨rfl, _, Function.update_self .., ?_⟩,
    val?_update_next hc head⟩
  exact hl.congr (map_next_update_of_notMem hnew)

/-- The insertion changes links only.
Source: none: infrastructure
Kind: L -/
theorem val?_of_insertHead {head' : Option ℕ}
    (hinsert : insertHead store head elm = some (store', head')) : val? store' = val? store := by
  unfold insertHead at hinsert
  rw [Option.map_eq_some_iff] at hinsert
  obtain ⟨c, hc, heq⟩ := hinsert
  cases heq
  exact val?_update_next hc head

/-- A list with something in it has a first cell.
Source: none: infrastructure
Kind: L -/
theorem exists_head?_eq (u : List ℕ) (b : ℕ) (l : List ℕ) :
    ∃ d ∈ u ++ [b], (u ++ b :: l).head? = some d := by
  cases u with
  | nil => exact ⟨b, List.mem_singleton_self b, rfl⟩
  | cons d u => exact ⟨d, List.mem_cons_self, rfl⟩

/-- The search finds the node before the one sought.
Source: none: infrastructure
Kind: L -/
theorem findPrev_eq {b : ℕ} :
    ∀ (u : List ℕ) (fuel cur : ℕ), Seg store (some cur) (u ++ b :: elm :: rest) none →
      elm ∉ u ++ [b] → u.length < fuel → findPrev store elm fuel cur = some b
  | [], fuel + 1, cur, hseg, _, _ => by
      obtain ⟨hcur, c, hc, hnext, -⟩ := hseg
      cases hcur
      rw [findPrev, hc, Option.bind_some, if_pos hnext]
  | a :: u, fuel + 1, cur, hseg, hnot, hfuel => by
      obtain ⟨hcur, c, hc, hrest⟩ := hseg
      cases hcur
      rw [List.cons_append, List.mem_cons, not_or] at hnot
      obtain ⟨d, hmem, hd⟩ := exists_head?_eq u b (elm :: rest)
      have hnext : c.next = some d := hrest.head_eq.trans hd
      have hskip : c.next ≠ some elm := by
        rw [hnext]
        rintro ⟨⟩
        exact hnot.2 hmem
      rw [findPrev, hc, Option.bind_some, if_neg hskip, hnext, Option.bind_some]
      rw [hnext] at hrest
      exact findPrev_eq u fuel d hrest hnot.2 (Nat.lt_of_succ_lt_succ hfuel)

/-- Removal leaves the payloads alone.
Source: none: infrastructure
Kind: L -/
theorem val?_of_remove {fuel : ℕ} {head' : Option ℕ}
    (hremove : remove fuel store head elm = some (store', head')) : val? store' = val? store := by
  unfold remove at hremove
  by_cases hhead : head = some elm
  · rw [if_pos hhead, Option.map_eq_some_iff] at hremove
    obtain ⟨c, -, heq⟩ := hremove
    cases heq
    rfl
  · rw [if_neg hhead] at hremove
    obtain ⟨first, -, hremove⟩ := Option.bind_eq_some_iff.mp hremove
    obtain ⟨prev, -, hremove⟩ := Option.bind_eq_some_iff.mp hremove
    obtain ⟨store₁, hafter, heq⟩ := Option.map_eq_some_iff.mp hremove
    cases heq
    obtain ⟨c, hc, hafter⟩ := Option.bind_eq_some_iff.mp hafter
    obtain ⟨d, -, rfl⟩ := Option.map_eq_some_iff.mp hafter
    exact val?_update_next hc d.next

/-- **Removal.** The node is taken out and everything else is left in its order.
Source: none: infrastructure
Kind: L -/
theorem remove_spec {fuel : ℕ} (hl : Linked store head (pre ++ elm :: rest))
    (hnodup : (pre ++ elm :: rest).Nodup) (hfuel : pre.length ≤ fuel) :
    ∃ store' head', remove fuel store head elm = some (store', head') ∧
      Linked store' head' (pre ++ rest) ∧ val? store' = val? store := by
  rcases List.eq_nil_or_concat pre with rfl | ⟨init, b, rfl⟩
  · obtain ⟨rfl, c, hc, hrest⟩ := hl
    exact ⟨store, c.next, by rw [remove, if_pos rfl, hc]; rfl, hrest, rfl⟩
  · rw [List.concat_eq_append] at hl hnodup hfuel ⊢
    have hnot : elm ∉ init ++ [b] := fun h =>
      (List.nodup_append.mp hnodup).2.2 elm h elm List.mem_cons_self rfl
    have hl' : Linked store head (init ++ b :: elm :: rest) := by
      rwa [List.append_assoc, List.singleton_append] at hl
    have hnodup' : (init ++ b :: elm :: rest).Nodup := by
      rwa [List.append_assoc, List.singleton_append] at hnodup
    obtain ⟨first, hmem, hfirst'⟩ := exists_head?_eq init b (elm :: rest)
    have hfirst : head = some first := hl'.head_eq.trans hfirst'
    have hhead : head ≠ some elm := by
      rw [hfirst]
      rintro ⟨⟩
      exact hnot hmem
    obtain ⟨m, hinit, hm, c, hc, hnext, d, hd, hrest⟩ := seg_append.mp hl'
    have hfind : findPrev store elm fuel first = some b := by
      rw [hfirst] at hl'
      refine findPrev_eq init fuel first hl' hnot ?_
      rw [List.length_append, List.length_singleton] at hfuel
      omega
    have hafter : removeAfter store b =
        some (Function.update store b (some { c with next := d.next })) := by
      rw [removeAfter, hc, Option.bind_some, hnext, Option.bind_some, hd]
      rfl
    refine ⟨_, head, ?_, ?_, val?_update_next hc d.next⟩
    · rw [remove, if_neg hhead, hfirst, Option.bind_some, hfind, Option.bind_some, hafter,
        Option.map_some]
    · obtain ⟨-, hb, hdisj⟩ := List.nodup_append.mp hnodup'
      have hbinit : b ∉ init := fun h => hdisj b h b List.mem_cons_self rfl
      have hbrest : b ∉ rest := fun h =>
        (List.nodup_cons.mp hb).1 (List.mem_cons_of_mem _ h)
      rw [List.append_assoc, List.singleton_append]
      refine seg_append.mpr ⟨m, hinit.congr (map_next_update_of_notMem hbinit), hm, _,
        Function.update_self .., ?_⟩
      exact hrest.congr (map_next_update_of_notMem hbrest)

end Store

end Aesd.Lib
