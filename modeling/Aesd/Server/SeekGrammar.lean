import Aesd.Server.Segmentation

/-!
# The language of the commands

`strncmp` and `sscanf` are how the server reads its clients' bytes; this module says what they
read. A number is white space, an optional sign and digits (`Numeral`), a command is `SEEKTO`, a
number, a comma and a number (`SeekCommand`), and what follows the second number is not looked at.
A connection is read chunk by chunk (`Understood`): a buffer that is a command is a seek, one that
begins like a command is dropped, one with a newline is a packet.

* `scanInt_eq_some_iff`, `sscanf_eq_some_iff`, `seekRequest_eq_some_iff` — the scanners accept this
  language and nothing else;
* `understood_iff` — the assembler reads a connection this way, and only this way;
* `commands_understood` — so does every run of `handle_connection`;
* `seekCommand_commandText` — what a client prints for a request is a command for it;
* `conversation_understood` — and a client whose commands arrive whole gets what it asked for.
-/

namespace Aesd.Server

open Aesd.Lib Aesd.Driver

/-! ### Numbers -/

/-- The sign before the digits of a number.
Source: `handler.c`, `handle_connection`
Kind: D -/
inductive Sign where
  | absent
  | plus
  | minus
  deriving DecidableEq

/-- The sign as it is written.
Source: `handler.c`, `handle_connection`
Kind: D -/
def Sign.text : Sign → List UInt8
  | .absent => []
  | .plus => [43]
  | .minus => [45]

/-- The number with a sign and an absolute value.
Source: `handler.c`, `handle_connection`
Kind: D -/
def Sign.value : Sign → ℕ → ℤ
  | .minus, n => -(n : ℤ)
  | _, n => n

/-- A text that `%d` accepts, and the number it denotes.
Source: `handler.c`, `handle_connection`
Kind: D -/
inductive Numeral : List UInt8 → ℤ → Prop where
  | intro (sign : Sign) {spaces digits : List UInt8} (hspaces : ∀ b ∈ spaces, isSpace b = true)
      (hdigits : ∀ b ∈ digits, isDigit b = true) (hne : digits ≠ []) :
      Numeral (spaces ++ (sign.text ++ digits)) (sign.value (decimal digits))

/-- A text with no digit at its front.
Source: `handler.c`, `handle_connection`
Kind: D -/
def Stops (rest : List UInt8) : Prop := ∀ b ∈ rest.head?, isDigit b = false

/-- The number that arrives in a field of the request: `strtol` keeps it within a `long`, the `int`
and the `uint32_t` keep its low bits.
Source: `handler.c`, `handle_connection`
Kind: D -/
def seekNumber (z : ℤ) : UInt32 := UInt32.ofInt (clampLong z)

section scan

variable {s rest : List UInt8}

/-- A scan over bytes of one kind ends where the first of another kind stands.
Source: none: infrastructure
Kind: L -/
theorem scan_append {p : UInt8 → Bool} {l r : List UInt8} (hl : ∀ b ∈ l, p b = true)
    (hr : ∀ b ∈ r.head?, p b = false) : (l ++ r).takeWhile p = l ∧ (l ++ r).dropWhile p = r := by
  rw [List.takeWhile_append_of_pos hl, List.dropWhile_append_of_pos hl]
  cases r with
  | nil => simp
  | cons b r => simp [hr b rfl]

/-- Where a scan ends, the next byte is not of its kind.
Source: none: infrastructure
Kind: L -/
theorem stop_dropWhile (p : UInt8 → Bool) (l : List UInt8) :
    ∀ b ∈ (l.dropWhile p).head?, p b = false := by
  intro b hb
  have hnot := List.head?_dropWhile_not p l
  rw [Option.mem_def.mp hb] at hnot
  simpa using hnot

/-- The sign that is stripped is the one that was written.
Source: `handler.c`, `handle_connection`
Kind: L -/
theorem exists_sign (s : List UInt8) : ∃ sign : Sign, s = sign.text ++ (scanSign s).2 ∧
    ∀ n : ℕ, (if (scanSign s).1 = true then -(n : ℤ) else n) = sign.value n := by
  cases s with
  | nil => exact ⟨.absent, rfl, fun _ => rfl⟩
  | cons b s =>
      rw [scanSign]
      by_cases hminus : b = 45
      · subst hminus
        exact ⟨.minus, rfl, fun _ => rfl⟩
      · by_cases hplus : b = 43
        · subst hplus
          exact ⟨.plus, rfl, fun _ => rfl⟩
        · refine ⟨.absent, ?_, fun n => ?_⟩ <;> simp [hminus, hplus, Sign.text, Sign.value]

/-- A digit is neither white space nor a sign.
Source: none: infrastructure
Kind: L -/
theorem digit_bounds {b : UInt8} (hb : isDigit b = true) : 48 ≤ b.toNat ∧ b.toNat ≤ 57 := by
  unfold isDigit at hb
  rw [Bool.and_eq_true, decide_eq_true_eq, decide_eq_true_eq] at hb
  exact ⟨UInt8.le_iff_toNat_le.mp hb.1, UInt8.le_iff_toNat_le.mp hb.2⟩

/-- A digit is no white space.
Source: `handler.c`, `handle_connection`
Kind: L -/
theorem not_space_of_digit {b : UInt8} (hb : isDigit b = true) : isSpace b = false := by
  have hbounds := digit_bounds hb
  unfold isSpace
  rw [Bool.or_eq_false_iff, beq_eq_false_iff_ne, Bool.and_eq_false_iff, decide_eq_false_iff_not,
    decide_eq_false_iff_not, UInt8.le_iff_toNat_le, UInt8.le_iff_toNat_le]
  refine ⟨?_, Or.inr ?_⟩
  · rintro rfl
    exact absurd hbounds.1 (by decide)
  · change ¬ b.toNat ≤ 13
    omega

/-- What the sign was written before is found behind it.
Source: `handler.c`, `handle_connection`
Kind: L -/
theorem scanSign_text (sign : Sign) {b : UInt8} (hb : isDigit b = true) (l : List UInt8) :
    scanSign (sign.text ++ b :: l) = (sign == .minus, b :: l) := by
  have hbounds := digit_bounds hb
  cases sign with
  | plus => rfl
  | minus => rfl
  | absent =>
      have hminus : b ≠ 45 := by
        rintro rfl
        exact absurd hbounds.1 (by decide)
      have hplus : b ≠ 43 := by
        rintro rfl
        exact absurd hbounds.1 (by decide)
      change scanSign (b :: l) = (false, b :: l)
      simp [scanSign, hminus, hplus]

/-- A sign or a digit is not white space.
Source: `handler.c`, `handle_connection`
Kind: L -/
theorem stop_signed (sign : Sign) {b : UInt8} (hb : isDigit b = true) (l : List UInt8) :
    ∀ c ∈ (sign.text ++ b :: l).head?, isSpace c = false := by
  intro c hc
  cases sign with
  | absent =>
      cases hc
      exact not_space_of_digit hb
  | plus =>
      cases hc
      rfl
  | minus =>
      cases hc
      rfl

/-- **The conversion `%d` accepts the numbers and nothing else.** It reads the longest one.
Source: `handler.c`, `handle_connection`
Kind: P -/
theorem scanInt_eq_some_iff {v : ℤ} : scanInt s = some (v, rest) ↔
    ∃ text z, s = text ++ rest ∧ Numeral text z ∧ Stops rest ∧
      v = (clampLong z).bmod (2 ^ 32) := by
  constructor
  · intro h
    unfold scanInt at h
    dsimp only at h
    rw [Option.ite_none_left_eq_some, Option.some.injEq, Prod.mk.injEq] at h
    obtain ⟨hne, hv, hrest⟩ := h
    obtain ⟨sign, hsign, hvalue⟩ := exists_sign (s.dropWhile isSpace)
    rw [hvalue] at hv
    refine ⟨s.takeWhile isSpace ++ (sign.text ++
      (scanSign (s.dropWhile isSpace)).2.takeWhile isDigit), _, ?_, .intro sign ?_ ?_ hne, ?_,
      hv.symm⟩
    · rw [← hrest, List.append_assoc, List.append_assoc, List.takeWhile_append_dropWhile, ← hsign,
        List.takeWhile_append_dropWhile]
    · exact fun b hb => List.mem_takeWhile_imp hb
    · exact fun b hb => List.mem_takeWhile_imp hb
    · rw [← hrest]
      exact stop_dropWhile isDigit _
  · rintro ⟨text, z, rfl, hnum, hstop, rfl⟩
    obtain ⟨sign, hspaces, hdigits, hne⟩ := hnum
    rename_i spaces digits
    obtain ⟨b, digits, rfl⟩ := List.exists_cons_of_ne_nil hne
    have hb := hdigits b List.mem_cons_self
    have hskip : (spaces ++ (sign.text ++ b :: digits) ++ rest).dropWhile isSpace =
        sign.text ++ b :: (digits ++ rest) := by
      rw [List.append_assoc, List.append_assoc, List.cons_append]
      exact (scan_append hspaces (stop_signed sign hb _)).2
    obtain ⟨hread, hleft⟩ := scan_append (l := b :: digits) hdigits hstop
    rw [List.cons_append] at hread hleft
    unfold scanInt
    dsimp only
    rw [hskip, scanSign_text sign hb]
    dsimp only
    rw [hread, hleft, if_neg hne]
    cases sign <;> rfl

/-- A comma ends a number.
Source: `handler.c`, `handle_connection`
Kind: L -/
theorem stops_comma (rest : List UInt8) : Stops (44 :: rest) := by
  intro b hb
  cases hb
  rfl

/-- **`sscanf` accepts two numbers with a comma between them and nothing else.**
Source: `handler.c`, `handle_connection`
Kind: P -/
theorem sscanf_eq_some_iff {a b : ℤ} : sscanf s = some (a, b) ↔
    ∃ first z₁ second z₂ rest, s = first ++ 44 :: (second ++ rest) ∧ Numeral first z₁ ∧
      Numeral second z₂ ∧ Stops rest ∧ a = (clampLong z₁).bmod (2 ^ 32) ∧
      b = (clampLong z₂).bmod (2 ^ 32) := by
  constructor
  · intro h
    unfold sscanf at h
    cases hfirst : scanInt s with
    | none => simp [hfirst] at h
    | some found =>
        obtain ⟨v, rest₁⟩ := found
        cases rest₁ with
        | nil => simp [hfirst] at h
        | cons c rest₁ =>
            simp only [hfirst, Option.ite_none_right_eq_some, beq_iff_eq,
              Option.map_eq_some_iff, Prod.mk.injEq] at h
            obtain ⟨rfl, ⟨w, rest⟩, hsecond, rfl, rfl⟩ := h
            obtain ⟨first, z₁, rfl, hnum₁, -, rfl⟩ := scanInt_eq_some_iff.mp hfirst
            obtain ⟨second, z₂, rfl, hnum₂, hstop, hw⟩ := scanInt_eq_some_iff.mp hsecond
            exact ⟨first, z₁, second, z₂, rest, rfl, hnum₁, hnum₂, hstop, rfl, hw⟩
  · rintro ⟨first, z₁, second, z₂, rest, rfl, hnum₁, hnum₂, hstop, rfl, rfl⟩
    have hfirst := scanInt_eq_some_iff.mpr
      ⟨first, z₁, rfl, hnum₁, stops_comma (second ++ rest), rfl⟩
    have hsecond := scanInt_eq_some_iff.mpr ⟨second, z₂, rfl, hnum₂, hstop, rfl⟩
    unfold sscanf
    simp [hfirst, hsecond]

end scan

/-! ### Commands -/

/-- The bytes are a seek command for the request: `SEEKTO`, a number, a comma and a number, with
anything behind them that does not go on with a digit.
Source: `handler.c`, `handle_connection`
Kind: D -/
def SeekCommand (data : List UInt8) (request : AesdSeekto) : Prop :=
  ∃ first z₁ second z₂ rest, data = seekto ++ (first ++ 44 :: (second ++ rest)) ∧
    Numeral first z₁ ∧ Numeral second z₂ ∧ Stops rest ∧
    request = ⟨seekNumber z₁, seekNumber z₂⟩

section command

variable {data rest : List UInt8} {request : AesdSeekto}

/-- White space is no NUL.
Source: `handler.c`, `handle_connection`
Kind: L -/
theorem isSpace_ne_zero {b : UInt8} (hb : isSpace b = true) : b ≠ 0 := by
  rintro rfl
  exact absurd hb (by decide)

/-- A digit is no NUL.
Source: `handler.c`, `handle_connection`
Kind: L -/
theorem isDigit_ne_zero {b : UInt8} (hb : isDigit b = true) : b ≠ 0 := by
  rintro rfl
  exact absurd hb (by decide)

/-- There is no terminator inside a number.
Source: `handler.c`, `handle_connection`
Kind: L -/
theorem Numeral.ne_zero {text : List UInt8} {z : ℤ} (hnum : Numeral text z) :
    ∀ b ∈ text, (b != 0) = true := by
  obtain ⟨sign, hspaces, hdigits, -⟩ := hnum
  intro b hb
  rw [List.mem_append, List.mem_append] at hb
  rw [bne_iff_ne]
  rcases hb with hb | hb | hb
  · exact isSpace_ne_zero (hspaces b hb)
  · revert b
    cases sign <;> simp [Sign.text]
  · exact isDigit_ne_zero (hdigits b hb)

/-- Cutting a text at its terminator does not change whether it goes on with a digit.
Source: `handler.c`, `handle_connection`
Kind: L -/
theorem stops_cString_iff : Stops (cString rest) ↔ Stops rest := by
  unfold cString Stops
  cases rest with
  | nil => rfl
  | cons b rest =>
      by_cases hb : b = 0
      · subst hb
        simp [isDigit]
      · simp [hb]

/-- The string that `sscanf` is given ends at the first terminator; behind two numbers, that is not
looked at.
Source: `handler.c`, `handle_connection`
Kind: L -/
theorem sscanf_cString_iff {a b : ℤ} {args : List UInt8} : sscanf (cString args) = some (a, b) ↔
    ∃ first z₁ second z₂ rest, args = first ++ 44 :: (second ++ rest) ∧ Numeral first z₁ ∧
      Numeral second z₂ ∧ Stops rest ∧ a = (clampLong z₁).bmod (2 ^ 32) ∧
      b = (clampLong z₂).bmod (2 ^ 32) := by
  rw [sscanf_eq_some_iff]
  constructor
  · rintro ⟨first, z₁, second, z₂, rest, hargs, hnum₁, hnum₂, hstop, ha, hb⟩
    have hsplit := List.takeWhile_append_dropWhile (p := (· != 0)) (l := args)
    change cString args ++ _ = args at hsplit
    refine ⟨first, z₁, second, z₂, rest ++ args.dropWhile (· != 0), ?_, hnum₁, hnum₂, ?_, ha, hb⟩
    · rw [hargs] at hsplit
      simpa using hsplit.symm
    · cases rest with
      | cons c rest => exact hstop
      | nil =>
          -- the string ends right behind the second number: the next byte is the terminator
          intro c hc
          have hnul := stop_dropWhile (· != 0) args c hc
          rw [bne_eq_false_iff_eq] at hnul
          subst hnul
          rfl
  · rintro ⟨first, z₁, second, z₂, rest, rfl, hnum₁, hnum₂, hstop, ha, hb⟩
    refine ⟨first, z₁, second, z₂, cString rest, ?_, hnum₁, hnum₂, stops_cString_iff.mpr hstop, ha,
      hb⟩
    unfold cString
    rw [List.takeWhile_append_of_pos hnum₁.ne_zero, List.takeWhile_cons_of_pos (by decide),
      List.takeWhile_append_of_pos hnum₂.ne_zero]

/-- The cast to `uint32_t` does not see the wrapping of an `int`.
Source: none: infrastructure
Kind: L -/
theorem ofInt_bmod (z : ℤ) : UInt32.ofInt (z.bmod (2 ^ 32)) = UInt32.ofInt z := by
  unfold UInt32.ofInt
  have hsame : z.bmod (2 ^ 32) % 2 ^ 32 = z % 2 ^ 32 := Int.bmod_emod
  rw [hsame]

/-- **The arguments are accepted if and only if the bytes are a command**, and then the request is
the one they denote.
Source: `handler.c`, `handle_connection`, the SEEKTO branch
Kind: P -/
theorem seekRequest_eq_some_iff (hseek : seekto <+: data) :
    seekRequest (data.drop 19) = some request ↔ SeekCommand data request := by
  obtain ⟨args, rfl⟩ := hseek
  rw [← length_seekto, List.drop_left]
  unfold seekRequest SeekCommand
  rw [Option.map_eq_some_iff]
  constructor
  · rintro ⟨⟨a, b⟩, hscan, rfl⟩
    obtain ⟨first, z₁, second, z₂, rest, rfl, hnum₁, hnum₂, hstop, rfl, rfl⟩ :=
      sscanf_cString_iff.mp hscan
    refine ⟨first, z₁, second, z₂, rest, rfl, hnum₁, hnum₂, hstop, ?_⟩
    rw [ofInt_bmod, ofInt_bmod]
    rfl
  · rintro ⟨first, z₁, second, z₂, rest, hargs, hnum₁, hnum₂, hstop, rfl⟩
    refine ⟨_, sscanf_cString_iff.mpr ⟨first, z₁, second, z₂, rest,
      List.append_cancel_left hargs, hnum₁, hnum₂, hstop, rfl, rfl⟩, ?_⟩
    rw [ofInt_bmod, ofInt_bmod]
    rfl

/-- A command begins with `SEEKTO`.
Source: `handler.c`, `handle_connection`
Kind: L -/
theorem SeekCommand.isPrefix (hcommand : SeekCommand data request) : seekto <+: data := by
  obtain ⟨first, z₁, second, z₂, rest, rfl, -⟩ := hcommand
  exact List.prefix_append _ _

end command

/-! ### Writing a command -/

/-- A number in decimal, as a client prints it.
Source: `handler.c`, `handle_connection`
Kind: D -/
def printed (n : ℕ) : List UInt8 :=
  if n < 10 then [UInt8.ofNat (48 + n)] else printed (n / 10) ++ [UInt8.ofNat (48 + n % 10)]

/-- The command for a request, as a client prints it.
Source: `handler.c`, `handle_connection`
Kind: D -/
def commandText (request : AesdSeekto) : List UInt8 :=
  seekto ++ (printed request.writeCmd.toNat ++ 44 :: printed request.writeCmdOffset.toNat)

section printed

/-- The byte of a digit.
Source: none: infrastructure
Kind: L -/
theorem toNat_digit {d : ℕ} (hd : d < 10) : (UInt8.ofNat (48 + d)).toNat = 48 + d := by
  rw [UInt8.toNat_ofNat']
  omega

/-- The byte of a digit is a digit.
Source: none: infrastructure
Kind: L -/
theorem isDigit_digit {d : ℕ} (hd : d < 10) : isDigit (UInt8.ofNat (48 + d)) = true := by
  unfold isDigit
  rw [Bool.and_eq_true, decide_eq_true_eq, decide_eq_true_eq, UInt8.le_iff_toNat_le,
    UInt8.le_iff_toNat_le, toNat_digit hd]
  change 48 ≤ 48 + d ∧ 48 + d ≤ 57
  omega

/-- One more digit.
Source: none: infrastructure
Kind: L -/
theorem decimal_concat (digits : List UInt8) (b : UInt8) :
    decimal (digits ++ [b]) = 10 * decimal digits + (b.toNat - 48) := by
  unfold decimal
  rw [List.foldl_append]
  rfl

/-- What is printed is made of digits, and denotes the number.
Source: `handler.c`, `handle_connection`
Kind: L -/
theorem printed_spec (n : ℕ) : printed n ≠ [] ∧ (∀ b ∈ printed n, isDigit b = true) ∧
    decimal (printed n) = n := by
  induction n using Nat.strong_induction_on with
  | _ n ih =>
      rw [printed]
      by_cases hsmall : n < 10
      · rw [if_pos hsmall]
        refine ⟨List.cons_ne_nil _ _, ?_, ?_⟩
        · rw [List.forall_mem_singleton]
          exact isDigit_digit hsmall
        · rw [← List.nil_append [_], decimal_concat, toNat_digit hsmall]
          simp [decimal]
      · obtain ⟨-, hdigits, hvalue⟩ := ih (n / 10) (by omega)
        have hlast : n % 10 < 10 := Nat.mod_lt n (by omega)
        rw [if_neg hsmall]
        refine ⟨List.append_ne_nil_of_right_ne_nil _ (List.cons_ne_nil _ _), ?_, ?_⟩
        · rw [List.forall_mem_append, List.forall_mem_singleton]
          exact ⟨hdigits, isDigit_digit hlast⟩
        · rw [decimal_concat, hvalue, toNat_digit hlast]
          omega

/-- What is printed of a number denotes it.
Source: `handler.c`, `handle_connection`
Kind: L -/
theorem numeral_printed (n : ℕ) : Numeral (printed n) n := by
  obtain ⟨hne, hdigits, hvalue⟩ := printed_spec n
  have hnum : Numeral ([] ++ (Sign.absent.text ++ printed n))
      (Sign.absent.value (decimal (printed n))) := .intro .absent (by simp) hdigits hne
  rw [hvalue] at hnum
  exact hnum

/-- A number that a field can hold arrives in it.
Source: `handler.c`, `handle_connection`
Kind: L -/
theorem seekNumber_toNat (x : UInt32) : seekNumber x.toNat = x := by
  have hlt := x.toNat_lt
  have hclamp : clampLong x.toNat = x.toNat := by
    unfold clampLong
    omega
  unfold seekNumber UInt32.ofInt
  rw [hclamp]
  have hmod : ((x.toNat : ℤ) % 2 ^ 32).toNat = x.toNat := by omega
  rw [hmod, UInt32.ofNat_toNat]

/-- **Every request can be asked for**: what a client prints is a command for it.
Source: `handler.c`, `handle_connection`
Kind: P -/
theorem seekCommand_commandText (request : AesdSeekto) {rest : List UInt8} (hstop : Stops rest) :
    SeekCommand (commandText request ++ rest) request := by
  refine ⟨printed request.writeCmd.toNat, _, printed request.writeCmdOffset.toNat, _, rest, ?_,
    numeral_printed _, numeral_printed _, hstop, ?_⟩
  · simp [commandText]
  · rw [seekNumber_toNat, seekNumber_toNat]

end printed

/-! ### A connection -/

/-- How a connection is read, from the bytes kept on: the actions that the chunks ask for.
Source: `handler.c`, `handle_connection`
Kind: D -/
inductive Understood : List UInt8 → List (List UInt8) → List Action → Prop where
  | ends (kept : List UInt8) : Understood kept [] []
  | seek {kept chunk : List UInt8} {chunks : List (List UInt8)} {request : AesdSeekto}
      {actions : List Action} (hcommand : SeekCommand (kept ++ chunk) request)
      (hrest : Understood [] chunks actions) :
      Understood kept (chunk :: chunks) (.seek request :: actions)
  | malformed {kept chunk : List UInt8} {chunks : List (List UInt8)} {actions : List Action}
      (hseek : seekto <+: kept ++ chunk) (hno : ∀ request, ¬ SeekCommand (kept ++ chunk) request)
      (hrest : Understood [] chunks actions) : Understood kept (chunk :: chunks) actions
  | packet {kept chunk : List UInt8} {chunks : List (List UInt8)} {actions : List Action}
      (hseek : ¬ seekto <+: kept ++ chunk) (hnl : newline ∈ kept ++ chunk)
      (hrest : Understood [] chunks actions) :
      Understood kept (chunk :: chunks) (.append (kept ++ chunk) :: actions)
  | incomplete {kept chunk : List UInt8} {chunks : List (List UInt8)} {actions : List Action}
      (hseek : ¬ seekto <+: kept ++ chunk) (hnl : newline ∉ kept ++ chunk)
      (hrest : Understood (kept ++ chunk) chunks actions) :
      Understood kept (chunk :: chunks) actions

section connection

variable {build : Build} {events : List Event} {h : Handler} {kept chunk : List UInt8}
  {cs : List (List UInt8)} {actions : List Action}

/-- A buffer that is a command is done and reset.
Source: `handler.c`, `handle_connection`
Kind: L -/
theorem receive_command {request : AesdSeekto} (hcommand : SeekCommand (kept ++ chunk) request) :
    receive kept chunk = (some (.seek request), []) := by
  have hseek := hcommand.isPrefix
  unfold receive
  rw [if_pos hseek, (seekRequest_eq_some_iff hseek).mpr hcommand]
  rfl

/-- A buffer that only begins like a command is reset.
Source: `handler.c`, `handle_connection`
Kind: L -/
theorem receive_malformed (hseek : seekto <+: kept ++ chunk)
    (hno : ∀ request, ¬ SeekCommand (kept ++ chunk) request) : receive kept chunk = (none, []) := by
  have hnone : seekRequest ((kept ++ chunk).drop 19) = none := by
    rw [Option.eq_none_iff_forall_ne_some]
    intro request hrequest
    exact hno request ((seekRequest_eq_some_iff hseek).mp hrequest)
  unfold receive
  rw [if_pos hseek, hnone]
  rfl

/-- Any other buffer with a newline is a packet.
Source: `handler.c`, `handle_connection`
Kind: L -/
theorem receive_packet (hseek : ¬ seekto <+: kept ++ chunk) (hnl : newline ∈ kept ++ chunk) :
    receive kept chunk = (some (.append (kept ++ chunk)), []) := by
  unfold receive
  rw [if_neg hseek, if_pos hnl]

/-- Any other buffer is kept.
Source: `handler.c`, `handle_connection`
Kind: L -/
theorem receive_incomplete (hseek : ¬ seekto <+: kept ++ chunk) (hnl : newline ∉ kept ++ chunk) :
    receive kept chunk = (none, kept ++ chunk) := by
  unfold receive
  rw [if_neg hseek, if_neg hnl]

/-- **The assembler reads a connection in the one way there is.**
Source: `handler.c`, `handle_connection`
Kind: P -/
theorem understood_iff : Understood kept cs actions ↔ actions = assemble kept cs := by
  constructor
  · intro hread
    induction hread with
    | ends kept => rfl
    | seek hcommand _ ih => rw [assemble, receive_command hcommand, ← ih]; rfl
    | malformed hseek hno _ ih => rw [assemble, receive_malformed hseek hno, ← ih]; rfl
    | packet hseek hnl _ ih => rw [assemble, receive_packet hseek hnl, ← ih]; rfl
    | incomplete hseek hnl _ ih => rw [assemble, receive_incomplete hseek hnl, ← ih]; rfl
  · rintro rfl
    induction cs generalizing kept with
    | nil => exact .ends kept
    | cons chunk cs ih =>
        rw [assemble]
        by_cases hseek : seekto <+: kept ++ chunk
        · by_cases hcommand : ∃ request, SeekCommand (kept ++ chunk) request
          · obtain ⟨request, hcommand⟩ := hcommand
            rw [receive_command hcommand]
            exact .seek hcommand ih
          · rw [not_exists] at hcommand
            rw [receive_malformed hseek hcommand]
            exact .malformed hseek hcommand ih
        · by_cases hnl : newline ∈ kept ++ chunk
          · rw [receive_packet hseek hnl]
            exact .packet hseek hnl ih
          · rw [receive_incomplete hseek hnl]
            exact .incomplete hseek hnl ih

/-- What a run has done and is about to do, when nothing fails but, perhaps, the open of the
device.
Source: `handler.c`, `handle_connection`
Kind: L -/
theorem actions_eq_assemble (hrun : handleConnection build events = some h)
    (hok : ∀ ev ∈ events, ev.Succeeds ∨ ev = .openDevice false) (hstored : h.pc.unstored = []) :
    deviceActions events ++ h.pc.owed h.data = assemble [] (chunks events) := by
  obtain ⟨cs, hcs, hacts, -⟩ := (follows_of_run hrun hok).stored
  rw [hstored, List.append_nil] at hcs
  rw [hcs, hacts]

/-- **The server acts on the language of its commands.** In every run in which no call fails, once
the last chunk is stored, the appends and seeks done and the one that is about to be done are the
ones the chunks ask for and no others: a seek for a buffer that is a command, with the numbers it
denotes, nothing for one that only begins like a command, a packet for any other that holds a
newline.
Source: `handler.c`, `handle_connection`
Kind: P -/
theorem commands_understood (hrun : handleConnection build events = some h)
    (hok : ∀ ev ∈ events, ev.Succeeds ∨ ev = .openDevice false) (hstored : h.pc.unstored = [])
    (actions : List Action) :
    Understood [] (chunks events) actions ↔ actions = deviceActions events ++ h.pc.owed h.data := by
  rw [understood_iff, actions_eq_assemble hrun hok hstored]

/-- A command with signs, white space and something behind it, after a line in two chunks.
Source: `handler.c`, `handle_connection`
Kind: N+ -/
theorem commands_understood_signed :
    ∃ events h, handleConnection .charDevice events = some h ∧ h.pc = .recv ∧
      chunks events = [[97], [98, 10], seekto ++ [32, 45, 49, 44, 43, 50, 120]] ∧
      deviceActions events = [.append [97, 98, 10], .seek ⟨4294967295, 2⟩] := by
  obtain ⟨h, ⟨events, hrun, hok, hcs⟩, hpc⟩ :=
    exists_run_to_recv [[97], [98, 10], seekto ++ [32, 45, 49, 44, 43, 50, 120]] .charDevice
      (by decide) (by decide)
  have hminus : Numeral ([32] ++ ([45] ++ [49])) (-1) :=
    .intro .minus (by simp [isSpace]) (by simp [isDigit]) (by simp)
  have hplus : Numeral ([] ++ ([43] ++ [50])) 2 :=
    .intro .plus (by simp) (by simp [isDigit]) (by simp)
  have hcommand : SeekCommand (seekto ++ [32, 45, 49, 44, 43, 50, 120]) ⟨4294967295, 2⟩ :=
    ⟨[32, 45, 49], -1, [43, 50], 2, [120], rfl, hminus, hplus, by simp [Stops, isDigit], by decide⟩
  have hread : Understood [] (chunks events) [.append [97, 98, 10], .seek ⟨4294967295, 2⟩] := by
    rw [hcs]
    exact .incomplete (by decide) (by decide)
      (.packet (by decide) (by decide) (.seek hcommand (.ends [])))
  have hacts := (commands_understood hrun (fun ev hev => Or.inl (hok ev hev)) (by rw [hpc]; rfl)
    _).mp hread
  rw [hpc, show Pc.owed h.data .recv = [] from rfl, List.append_nil] at hacts
  exact ⟨events, h, hrun, hpc, hcs, hacts.symm⟩

end connection

/-! ### A conversation -/

/-- A line that is not a command, without its newline.
Source: `handler.c`, `handle_connection`
Kind: D -/
structure Line where
  bytes : List UInt8
  newline_free : newline ∉ bytes
  no_command : ¬ seekto <+: bytes

/-- What a client asks for.
Source: `handler.c`, `handle_connection`
Kind: D -/
inductive Message where
  | packet (line : Line)
  | seek (request : AesdSeekto)

/-- What the server is to do for a message.
Source: `handler.c`, `handle_connection`
Kind: D -/
def Message.action : Message → Action
  | .packet line => .append (line.bytes ++ [newline])
  | .seek request => .seek request

/-- The chunks in which a message arrives. A line may be cut anywhere; of a command the last byte of
`SEEKTO` has to arrive with all that follows it.
Source: `handler.c`, `handle_connection`
Kind: D -/
def Message.Arrives : Message → List (List UInt8) → Prop
  | .packet line, cs => Cuts cs (line.bytes ++ [newline])
  | .seek request, cs => ∃ init last, cs = init ++ [last] ∧ init.flatten.length < 19 ∧
      SeekCommand (init.flatten ++ last) request

section conversation

variable {build : Build} {events : List Event} {h : Handler} {kept : List UInt8}

/-- Chunks that are neither a line nor the start of a command are kept.
Source: `handler.c`, `handle_connection`
Kind: L -/
theorem assemble_incomplete (more : List (List UInt8)) :
    ∀ (init : List (List UInt8)) (kept : List UInt8), ¬ seekto <+: kept ++ init.flatten →
      newline ∉ kept ++ init.flatten →
      assemble kept (init ++ more) = assemble (kept ++ init.flatten) more
  | [], kept, _, _ => by simp
  | c :: init, kept, hseek, hnl => by
      rw [List.flatten_cons, ← List.append_assoc] at hseek hnl ⊢
      have hno : ¬ seekto <+: kept ++ c := fun hp => hseek (hp.trans (List.prefix_append _ _))
      have hfree : newline ∉ kept ++ c := fun hmem => hnl (List.mem_append_left _ hmem)
      rw [List.cons_append, assemble, receive_incomplete hno hfree]
      exact assemble_incomplete more init (kept ++ c) hseek hnl

/-- A line is one packet, however it is cut.
Source: `handler.c`, `handle_connection`
Kind: L -/
theorem Line.assemble_eq (line : Line) {cs : List (List UInt8)}
    (hcuts : Cuts cs (line.bytes ++ [newline])) (more : List (List UInt8)) :
    assemble [] (cs ++ more) = .append (line.bytes ++ [newline]) :: assemble [] more := by
  obtain ⟨hflat, hlegal⟩ := hcuts
  rcases List.eq_nil_or_concat cs with rfl | ⟨init, last, rfl⟩
  · simp at hflat
  rw [List.concat_eq_append] at hflat hlegal ⊢
  rw [List.flatten_append, List.flatten_singleton] at hflat
  -- the last chunk is not empty, so that what comes before it is a part of the line
  have hlast : last ≠ [] := (hlegal last List.mem_concat_self).1
  have hinit : init.flatten <+: line.bytes := by
    obtain ⟨l, b, rfl⟩ := (List.eq_nil_or_concat last).resolve_left hlast
    rw [List.concat_eq_append, ← List.append_assoc] at hflat
    exact ⟨l, (List.append_inj' hflat rfl).1⟩
  have hno : ¬ seekto <+: line.bytes ++ [newline] := by
    rw [List.prefix_concat_iff]
    rintro (heq | hp)
    · have hmem : newline ∈ seekto := heq ▸ List.mem_concat_self
      exact newline_not_mem_seekto hmem
    · exact line.no_command hp
  rw [List.append_assoc, List.singleton_append, assemble_incomplete _ init [], List.nil_append,
    assemble, receive_packet]
  · rw [hflat]
    rfl
  · rw [hflat]
    exact hno
  · rw [hflat]
    exact List.mem_concat_self
  · exact fun hp => line.no_command (hp.trans hinit)
  · exact fun hmem => line.newline_free (hinit.subset hmem)

/-- A command whose last byte before the numbers arrives with them is one seek.
Source: `handler.c`, `handle_connection`
Kind: L -/
theorem assemble_command {request : AesdSeekto} {init : List (List UInt8)} {last : List UInt8}
    (hshort : init.flatten.length < 19) (hcommand : SeekCommand (init.flatten ++ last) request)
    (more : List (List UInt8)) :
    assemble [] (init ++ [last] ++ more) = .seek request :: assemble [] more := by
  have hinit : init.flatten <+: seekto := by
    apply List.prefix_of_prefix_length_le (List.prefix_append _ last) hcommand.isPrefix
    exact Nat.le_of_lt hshort
  rw [List.append_assoc, List.singleton_append, assemble_incomplete _ init [], List.nil_append,
    assemble, receive_command hcommand]
  · rfl
  · intro hp
    have hlong : 19 ≤ init.flatten.length := hp.length_le
    omega
  · exact fun hmem => newline_not_mem_seekto (hinit.subset hmem)

/-- The messages are read one after the other.
Source: `handler.c`, `handle_connection`
Kind: L -/
theorem assemble_messages {messages : List Message} {css : List (List (List UInt8))}
    (harrive : List.Forall₂ Message.Arrives messages css) :
    assemble [] css.flatten = messages.map Message.action := by
  induction harrive with
  | nil => rfl
  | @cons message cs messages css hone _ ih =>
      rw [List.flatten_cons, List.map_cons, ← ih]
      cases message with
      | packet line => exact line.assemble_eq hone _
      | seek request =>
          obtain ⟨init, last, rfl, hshort, hcommand⟩ := hone
          exact assemble_command hshort hcommand _

/-- **A conversation is understood.** Whatever a client asks for, line by line and command by
command, is what the server does, in that order and nothing else, when no call fails; the lines may
be cut in any way, the commands before the end of their `SEEKTO`.
Source: `handler.c`, `handle_connection`
Kind: P -/
theorem conversation_understood {messages : List Message} {css : List (List (List UInt8))}
    (hrun : handleConnection build events = some h)
    (hok : ∀ ev ∈ events, ev.Succeeds ∨ ev = .openDevice false) (hstored : h.pc.unstored = [])
    (harrive : List.Forall₂ Message.Arrives messages css) (hcs : chunks events = css.flatten) :
    deviceActions events ++ h.pc.owed h.data = messages.map Message.action := by
  rw [actions_eq_assemble hrun hok hstored, hcs, assemble_messages harrive]

/-- A line and the command that a client prints for a request, each in two chunks.
Source: `handler.c`, `handle_connection`
Kind: N+ -/
theorem conversation_understood_two_messages :
    ∃ events h, handleConnection .charDevice events = some h ∧ h.pc = .recv ∧
      chunks events = [[97], [98, 10], seekto.take 5, seekto.drop 5 ++ [49, 44, 50, 10]] ∧
      deviceActions events = [.append [97, 98, 10], .seek ⟨1, 2⟩] := by
  obtain ⟨h, ⟨events, hrun, hok, hcs⟩, hpc⟩ :=
    exists_run_to_recv [[97], [98, 10], seekto.take 5, seekto.drop 5 ++ [49, 44, 50, 10]]
      .charDevice (by decide) (by decide)
  have htext : commandText ⟨1, 2⟩ ++ [10] =
      [seekto.take 5].flatten ++ (seekto.drop 5 ++ [49, 44, 50, 10]) := by
    have hone : printed 1 = [49] := by rw [printed]; rfl
    have htwo : printed 2 = [50] := by rw [printed]; rfl
    change seekto ++ (printed 1 ++ 44 :: printed 2) ++ [10] = _
    rw [hone, htwo]
    rfl
  have hstop : Stops [10] := by simp [Stops, isDigit]
  have hcommand := seekCommand_commandText ⟨1, 2⟩ hstop
  rw [htext] at hcommand
  have harrive : List.Forall₂ Message.Arrives
      [.packet ⟨[97, 98], by decide, by decide⟩, .seek ⟨1, 2⟩]
      [[[97], [98, 10]], [seekto.take 5, seekto.drop 5 ++ [49, 44, 50, 10]]] :=
    .cons ⟨rfl, by decide⟩ (.cons ⟨[seekto.take 5], _, rfl, by decide, hcommand⟩ .nil)
  have hacts := conversation_understood hrun (fun ev hev => Or.inl (hok ev hev))
    (by rw [hpc]; rfl) harrive hcs
  rw [hpc, show Pc.owed h.data .recv = [] from rfl, List.append_nil] at hacts
  exact ⟨events, h, hrun, hpc, hcs, hacts⟩

end conversation

end Aesd.Server
