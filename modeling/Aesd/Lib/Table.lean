import Mathlib.Logic.Function.Basic
import Mathlib.Data.Nat.Notation

/-!
# Tables of numbered places

A table gives out numbers, each to one holder at a time; a number that is given back may be given
out again, to anyone. `Assigns table has` says that the table and the holders agree on who has which
number. It is kept when a free number is taken, when a number is given back, and when one is handed
from a holder to another.
-/

namespace Aesd.Lib

/-- A place of the table is in use by a holder exactly when the holder has its number.
Source: none: infrastructure
Kind: D -/
def Assigns {κ : Type*} (table : ℕ → Option κ) (has : κ → Option ℕ) : Prop :=
  ∀ n k, table n = some k ↔ has k = some n

namespace Assigns

variable {κ : Type*} {table : ℕ → Option κ} {has has' : κ → Option ℕ} {n : ℕ} {j k : κ}

/-- The same holders, the same table.
Source: none: infrastructure
Kind: L -/
theorem congr (h : Assigns table has) (hsame : ∀ k, has' k = has k) : Assigns table has' := by
  intro n k
  rw [hsame]
  exact h n k

/-- No number is with two holders.
Source: none: infrastructure
Kind: L -/
theorem injective (h : Assigns table has) (hj : has j = some n) (hk : has k = some n) : j = k :=
  Option.some.inj (((h n j).mpr hj).symm.trans ((h n k).mpr hk))

/-- A free number is taken by a holder that has none.
Source: none: infrastructure
Kind: L -/
theorem take (h : Assigns table has) (hfree : table n = none) (hk : has k = none)
    (hself : has' k = some n) (hother : ∀ j, j ≠ k → has' j = has j) :
    Assigns (Function.update table n (some k)) has' := by
  intro m j
  by_cases hm : m = n
  · subst hm
    rw [Function.update_self, Option.some.injEq]
    by_cases hj : j = k
    · subst hj
      exact iff_of_true rfl hself
    · refine iff_of_false (Ne.symm hj) ?_
      rw [hother j hj, ← h m j, hfree]
      exact Option.some_ne_none j ∘ Eq.symm
  · rw [Function.update_of_ne hm, h m j]
    by_cases hj : j = k
    · subst hj
      rw [hk, hself]
      exact iff_of_false (by simp) (by simpa using Ne.symm hm)
    · rw [hother j hj]

/-- A holder gives its number back.
Source: none: infrastructure
Kind: L -/
theorem giveBack (h : Assigns table has) (hk : has k = some n) (hself : has' k = none)
    (hother : ∀ j, j ≠ k → has' j = has j) : Assigns (Function.update table n none) has' := by
  intro m j
  by_cases hj : j = k
  · subst hj
    rw [hself]
    refine iff_of_false ?_ (by simp)
    by_cases hm : m = n
    · rw [hm, Function.update_self]
      exact Option.some_ne_none j ∘ Eq.symm
    · rw [Function.update_of_ne hm, h m j, hk]
      simpa using Ne.symm hm
  · rw [hother j hj]
    by_cases hm : m = n
    · subst hm
      rw [Function.update_self]
      refine iff_of_false (Option.some_ne_none j ∘ Eq.symm) fun hjm => ?_
      exact hj (h.injective hjm hk)
    · rw [Function.update_of_ne hm]
      exact h m j

/-- A holder hands its number to one that has none.
Source: none: infrastructure
Kind: L -/
theorem hand (h : Assigns table has) (hne : j ≠ k) (hj : has j = some n) (hk : has k = none)
    (hself : has' j = none) (hnew : has' k = some n) (hother : ∀ i, i ≠ j → i ≠ k → has' i = has i) :
    Assigns (Function.update table n (some k)) has' := by
  classical
  have hback : Assigns (Function.update table n none) (Function.update has j none) :=
    h.giveBack hj (Function.update_self _ _ _) fun i hi => Function.update_of_ne hi _ _
  have htake : Assigns (Function.update (Function.update table n none) n (some k)) has' := by
    refine hback.take (Function.update_self _ _ _) ?_ hnew fun i hi => ?_
    · rw [Function.update_of_ne (Ne.symm hne), hk]
    · by_cases hij : i = j
      · subst hij
        rw [hself, Function.update_self]
      · rw [Function.update_of_ne hij, hother i hij hi]
  rwa [Function.update_idem] at htake

end Assigns

end Aesd.Lib
