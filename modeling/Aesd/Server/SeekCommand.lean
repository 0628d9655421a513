import Aesd.Driver.CharDevice

/-!
# The seek command in a client's bytes

A client that sends `AESDCHAR_IOCSEEKTO:X,Y` asks for a seek. The server recognises the command
with `strncmp` against `SEEKTO` and reads the two numbers with `sscanf`. Both work on the
NUL-terminated string in `data_buffer`; the library functions are modelled here on the memory they
are given.

* `strncmpEq_iff_prefix` — on bytes followed by a NUL, the comparison is the prefix test;
* `strncmpReach_le`, `cStringReach_le` — and neither function reads behind that NUL;
* `three_le_length_of_sscanf` — two numbers and a comma take at least three bytes.
-/

namespace Aesd.Server

open Aesd.Driver

/-! ### Library functions on strings -/

/-- `strncmp(s, t, n) == 0` for the memory at `s` and at `t`.
Source: `handler.c`, `handle_connection`
Kind: D -/
def strncmpEq : ℕ → List UInt8 → List UInt8 → Bool
  | 0, _, _ => true
  | n + 1, a :: s, b :: t => a == b && (a == 0 || strncmpEq n s t)
  | _ + 1, _, _ => false

/-- The number of bytes at `s` that `strncmp(s, t, n)` reads: up to the first that differs, the
first terminator or the `n`-th. A byte beyond the memory counts.
Source: `handler.c`, `handle_connection`
Kind: D -/
def strncmpReach : ℕ → List UInt8 → List UInt8 → ℕ
  | 0, _, _ => 0
  | n + 1, a :: s, b :: t => if a == b && a != 0 then strncmpReach n s t + 1 else 1
  | _ + 1, _, _ => 1

/-- The string at an address: the bytes before the terminator.
Source: `handler.c`, `handle_connection`
Kind: D -/
def cString (memory : List UInt8) : List UInt8 := memory.takeWhile (· != 0)

/-- The number of bytes that are read of the string at an address, the terminator included. A byte
beyond the memory counts.
Source: `handler.c`, `handle_connection`
Kind: D -/
def cStringReach (memory : List UInt8) : ℕ := (cString memory).length + 1

/-- `isspace` of the C locale.
Source: `handler.c`, `handle_connection`
Kind: D -/
def isSpace (b : UInt8) : Bool := b == 32 || (9 ≤ b && b ≤ 13)

/-- `isdigit`.
Source: `handler.c`, `handle_connection`
Kind: D -/
def isDigit (b : UInt8) : Bool := 48 ≤ b && b ≤ 57

/-- The number a string of digits denotes.
Source: `handler.c`, `handle_connection`
Kind: D -/
def decimal (digits : List UInt8) : ℕ := digits.foldl (fun v b => 10 * v + (b.toNat - 48)) 0

/-- A `long` from a number out of range is the nearest bound, as `strtol` returns it.
Source: `handler.c`, `handle_connection`
Kind: D -/
def clampLong (z : ℤ) : ℤ := max (-2 ^ 63) (min z (2 ^ 63 - 1))

/-- Strip an optional sign: whether it was a minus, and the rest.
Source: `handler.c`, `handle_connection`
Kind: D -/
def scanSign : List UInt8 → Bool × List UInt8
  | [] => (false, [])
  | b :: s => if b == 45 then (true, s) else if b == 43 then (false, s) else (false, b :: s)

/-- The conversion `%d` of `sscanf`: white space is skipped, then an optional sign and at least one
digit are read as a `long`, which is stored in an `int`. The results are the `int` and the rest of
the input.
Source: `handler.c`, `handle_connection`
Kind: D -/
def scanInt (s : List UInt8) : Option (ℤ × List UInt8) :=
  let signed := scanSign (s.dropWhile isSpace)
  let digits := signed.2.takeWhile isDigit
  if digits = [] then none
  else
    let value : ℤ := if signed.1 then -(decimal digits : ℤ) else decimal digits
    some ((clampLong value).bmod (2 ^ 32), signed.2.dropWhile isDigit)

/-- `sscanf(s, "%d,%d", …)`, when it returns two.
Source: `handler.c`, `handle_connection`
Kind: D -/
def sscanf (s : List UInt8) : Option (ℤ × ℤ) :=
  match scanInt s with
  | none => none
  | some (first, rest) =>
      match rest with
      | [] => none
      | b :: rest => if b == 44 then (scanInt rest).map fun r => (first, r.1) else none

/-! ### The command -/

/-- The text a seek command starts with.
Source: `handler.h`, `SEEKTO`
Kind: D -/
def seekto : List UInt8 :=
  ['A', 'E', 'S', 'D', 'C', 'H', 'A', 'R', '_', 'I', 'O', 'C', 'S', 'E', 'E', 'K', 'T', 'O',
    ':'].map Char.toUInt8

/-- The request in the arguments of a seek command; `none` for an invalid format.
Source: `handler.c`, `handle_connection`, the SEEKTO branch
Kind: D -/
def seekRequest (seekArgs : List UInt8) : Option AesdSeekto :=
  (sscanf (cString seekArgs)).map fun r => ⟨UInt32.ofInt r.1, UInt32.ofInt r.2⟩

/-- The length of the literal.
Source: `handler.c`, `handle_connection`
Kind: L -/
theorem length_seekto : seekto.length = 19 := rfl

/-- The literal ends before its NUL.
Source: `handler.c`, `handle_connection`
Kind: L -/
theorem zero_not_mem_seekto : (0 : UInt8) ∉ seekto := by decide

/-- The literal holds no newline.
Source: `handler.c`, `handle_connection`
Kind: L -/
theorem newline_not_mem_seekto : newline ∉ seekto := by decide

/-- On bytes that a NUL follows, comparing with a text is testing for a prefix.
Source: `handler.c`, `handle_connection`
Kind: L -/
theorem strncmpEq_iff_prefix (junk : List UInt8) :
    ∀ (t d : List UInt8), (0 : UInt8) ∉ t →
      (strncmpEq t.length (d ++ 0 :: junk) t = true ↔ t <+: d)
  | [], d, _ => by simp [strncmpEq]
  | b :: t, [], hzero => by
      rw [List.mem_cons, not_or] at hzero
      simp only [List.length_cons, List.nil_append, strncmpEq, Bool.and_eq_true, beq_iff_eq,
        List.prefix_nil, reduceCtorEq, iff_false, not_and]
      exact fun heq => absurd heq hzero.1
  | b :: t, a :: d, hzero => by
      rw [List.mem_cons, not_or] at hzero
      have ih := strncmpEq_iff_prefix junk t d hzero.2
      rw [List.length_cons, List.cons_append, strncmpEq, List.cons_prefix_cons, ← ih]
      simp only [Bool.and_eq_true, Bool.or_eq_true, beq_iff_eq]
      constructor
      · rintro ⟨rfl, hnul | hrest⟩
        · exact absurd hnul.symm hzero.1
        · exact ⟨rfl, hrest⟩
      · rintro ⟨rfl, hrest⟩
        exact ⟨rfl, Or.inr hrest⟩

/-- A string ends at its NUL, whatever stands behind it.
Source: `handler.c`, `handle_connection`
Kind: L -/
theorem cString_append_nul (d junk : List UInt8) : cString (d ++ 0 :: junk) = cString d := by
  unfold cString
  rw [List.takeWhile_append]
  split_ifs with hall
  · simp [(List.takeWhile_prefix _).eq_of_length hall]
  · rfl

/-- A string is no longer than the bytes it stands in.
Source: `handler.c`, `handle_connection`
Kind: L -/
theorem length_cString_le (d : List UInt8) : (cString d).length ≤ d.length :=
  (List.takeWhile_prefix _).length_le

/-- On bytes that a NUL follows, the comparison reads none behind the NUL.
Source: `handler.c`, `handle_connection`
Kind: L -/
theorem strncmpReach_le (junk : List UInt8) :
    ∀ (n : ℕ) (t d : List UInt8), strncmpReach n (d ++ 0 :: junk) t ≤ d.length + 1
  | 0, _, d => Nat.zero_le _
  | _ + 1, [], d => by
      cases d <;> exact Nat.le_add_left 1 _
  | _ + 1, b :: t, [] => by
      rw [List.nil_append, strncmpReach]
      simp
  | n + 1, b :: t, a :: d => by
      have ih := strncmpReach_le junk n t d
      rw [List.cons_append, strncmpReach, List.length_cons]
      split_ifs
      · exact Nat.succ_le_succ ih
      · exact Nat.le_add_left 1 _

/-- On bytes that a NUL follows, the string ends there at the latest.
Source: `handler.c`, `handle_connection`
Kind: L -/
theorem cStringReach_le (d junk : List UInt8) : cStringReach (d ++ 0 :: junk) ≤ d.length + 1 := by
  unfold cStringReach
  rw [cString_append_nul]
  exact Nat.succ_le_succ (length_cString_le d)

/-- A sign takes at most one byte.
Source: `handler.c`, `handle_connection`
Kind: L -/
theorem length_scanSign_le (s : List UInt8) : (scanSign s).2.length ≤ s.length := by
  cases s with
  | nil => rfl
  | cons b s =>
      rw [scanSign]
      split_ifs <;> simp

/-- A conversion consumes input.
Source: `handler.c`, `handle_connection`
Kind: L -/
theorem length_lt_of_scanInt {s rest : List UInt8} {z : ℤ} (h : scanInt s = some (z, rest)) :
    rest.length < s.length := by
  unfold scanInt at h
  dsimp only at h
  by_cases hdigits : (scanSign (s.dropWhile isSpace)).2.takeWhile isDigit = []
  · rw [if_pos hdigits] at h
    cases h
  rw [if_neg hdigits, Option.some.injEq, Prod.mk.injEq] at h
  have hsplit := congrArg List.length
    (List.takeWhile_append_dropWhile (p := isDigit) (l := (scanSign (s.dropWhile isSpace)).2))
  rw [List.length_append, h.2] at hsplit
  have hpos := List.length_pos_of_ne_nil hdigits
  have hsign := length_scanSign_le (s.dropWhile isSpace)
  have hspace := (List.dropWhile_suffix isSpace (l := s)).length_le
  omega

/-- Two numbers and the comma between them take at least three bytes.
Source: `handler.c`, `handle_connection`
Kind: L -/
theorem three_le_length_of_sscanf {s : List UInt8} {r : ℤ × ℤ} (h : sscanf s = some r) :
    3 ≤ s.length := by
  unfold sscanf at h
  cases hfirst : scanInt s with
  | none => simp [hfirst] at h
  | some first =>
      obtain ⟨z, rest⟩ := first
      have hlen := length_lt_of_scanInt hfirst
      cases rest with
      | nil => simp [hfirst] at h
      | cons b rest =>
          simp only [hfirst] at h
          split_ifs at h
          obtain ⟨second, hsecond, -⟩ := Option.map_eq_some_iff.mp h
          have hlen' := length_lt_of_scanInt hsecond
          rw [List.length_cons] at hlen
          omega

/-- Fewer than three bytes of arguments are an invalid format.
Source: `handler.c`, `handle_connection`
Kind: L -/
theorem seekRequest_of_length_lt {seekArgs : List UInt8} (h : seekArgs.length < 3) :
    seekRequest seekArgs = none := by
  unfold seekRequest
  rw [Option.map_eq_none_iff, Option.eq_none_iff_forall_not_mem]
  intro r hr
  have hlong := three_le_length_of_sscanf hr
  have hle := length_cString_le seekArgs
  omega

end Aesd.Server
