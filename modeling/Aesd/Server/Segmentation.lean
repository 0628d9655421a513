import Aesd.Server.Assembly

/-!
# What the cutting into chunks decides

TCP keeps no boundaries: the same stream may arrive in any chunks. The handler looks at what it has
after each chunk, so the chunks decide what it does. A chunk with more than one line is appended as
one packet, and the numbers of a seek command are read from what has arrived with the last byte of
`AESDCHAR_IOCSEEKTO:`.

* `assemble_same_iff` — the streams for which all cuttings lead to the same actions;
* `segmentation_independent_iff` — the same for runs of `handle_connection`.
-/

namespace Aesd.Server

open Aesd.Lib Aesd.Driver

/-- The stream cut into what `recv` may deliver.
Source: `handler.c`, `handle_connection`
Kind: D -/
def Cuts (cs : List (List UInt8)) (stream : List UInt8) : Prop :=
  cs.flatten = stream ∧ ∀ c ∈ cs, c ≠ [] ∧ c.length ≤ 1023

/-- The positions at which a cutting of the stream can make a seek command start: the start of the
stream, and the end of what may be taken for the arguments of the command before.
Source: `handler.c`, `handle_connection`
Kind: D -/
inductive CommandStart (stream : List UInt8) : ℕ → Prop where
  | first (h : seekto <+: stream) : CommandStart stream 0
  | next {r j : ℕ} (hstart : CommandStart stream r) (hj : j ≤ 1022)
      (h : seekto <+: stream.drop (r + 19 + j)) : CommandStart stream (r + 19 + j)

/-- No cutting can make a difference: the stream is at most one line and no seek command, or it has
no newline and no cutting makes it hold a valid seek command.
Source: `handler.c`, `handle_connection`
Kind: D -/
def Uncuttable (stream : List UInt8) : Prop :=
  (¬ seekto <+: stream ∧ newline ∉ stream.dropLast) ∨
    (seekto <+: stream ∧ newline ∉ stream ∧
      ∀ r j, CommandStart stream r → j ≤ 1022 →
        seekRequest ((stream.drop (r + 19)).take j) = none)

/-- A command in the stream begins with the literal.
Source: `handler.c`, `handle_connection`
Kind: L -/
theorem CommandStart.prefix_drop {stream : List UInt8} {r : ℕ} (h : CommandStart stream r) :
    seekto <+: stream.drop r := by
  cases h with
  | first h => simpa using h
  | next _ _ h => exact h

/-- Its arguments stand behind the literal.
Source: `handler.c`, `handle_connection`
Kind: L -/
theorem CommandStart.drop_eq {stream : List UInt8} {r : ℕ} (h : CommandStart stream r) :
    stream.drop r = seekto ++ stream.drop (r + 19) := by
  obtain ⟨tail, htail⟩ := h.prefix_drop
  rw [← List.drop_drop, ← htail]
  rfl

/-- Two streams are cut one after the other.
Source: none: infrastructure
Kind: L -/
theorem cuts_append {cs cs' : List (List UInt8)} {s s' : List UInt8} (h : Cuts cs s)
    (h' : Cuts cs' s') : Cuts (cs ++ cs') (s ++ s') := by
  refine ⟨by rw [List.flatten_append, h.1, h'.1], ?_⟩
  rw [List.forall_mem_append]
  exact ⟨h.2, h'.2⟩

/-- A short stream may arrive as one chunk.
Source: none: infrastructure
Kind: L -/
theorem cuts_singleton {c : List UInt8} (hne : c ≠ []) (hle : c.length ≤ 1023) : Cuts [c] c :=
  ⟨by simp, by simpa using ⟨hne, hle⟩⟩

/-! ### Streams that no cutting changes -/

section uncuttable

variable {stream : List UInt8}

/-- A stream of one line, complete or not, is one packet or none.
Source: `handler.c`, `handle_connection`
Kind: L -/
theorem assemble_line (hseek : ¬ seekto <+: stream) (hnl : newline ∉ stream.dropLast) :
    ∀ (cs : List (List UInt8)) (kept : List UInt8), newline ∉ kept → kept ++ cs.flatten = stream →
      (∀ c ∈ cs, c ≠ []) →
      assemble kept cs = if newline ∈ stream then [.append stream] else []
  | [], kept, hfree, hstream, _ => by
      rw [List.flatten_nil, List.append_nil] at hstream
      rw [← hstream, if_neg hfree, assemble]
  | c :: cs, kept, hfree, hstream, hne => by
      rw [List.forall_mem_cons] at hne
      rw [List.flatten_cons, ← List.append_assoc] at hstream
      have hno : ¬ seekto <+: kept ++ c := fun hp =>
        hseek (hp.trans ⟨cs.flatten, hstream⟩)
      rw [assemble, receive, if_neg hno]
      by_cases hmem : newline ∈ kept ++ c
      · -- the newline is the last byte, so that nothing is left
        have hnil : cs = [] := by
          by_contra hcs
          obtain ⟨c', cs', rfl⟩ := List.exists_cons_of_ne_nil hcs
          have hrest : (c' :: cs').flatten ≠ [] := by
            rw [List.flatten_cons]
            exact List.append_ne_nil_of_left_ne_nil (hne.2 c' List.mem_cons_self) _
          rw [← hstream, List.dropLast_append_of_ne_nil hrest] at hnl
          exact hnl (List.mem_append_left _ hmem)
        subst hnil
        rw [List.flatten_nil, List.append_nil] at hstream
        rw [if_pos hmem, hstream, if_pos (hstream ▸ hmem)]
        rfl
      · rw [if_neg hmem]
        exact assemble_line hseek hnl cs (kept ++ c) hmem hstream hne.2

/-- Bytes that complete a `SEEKTO` are fewer than its length.
Source: `handler.c`, `handle_connection`
Kind: L -/
theorem length_lt_of_completes {kept c : List UInt8} (hno : ¬ seekto <+: kept)
    (hp : seekto <+: kept ++ c) : kept.length < 19 := by
  by_contra hge
  refine hno (List.prefix_of_prefix_length_le hp (List.prefix_append kept c) ?_)
  exact Nat.le_of_not_lt hge

/-- A stream without a newline in which no cutting finds a valid command leads to nothing.
Source: `handler.c`, `handle_connection`
Kind: L -/
theorem assemble_quiet (hnl : newline ∉ stream)
    (hquiet : ∀ r j, CommandStart stream r → j ≤ 1022 →
      seekRequest ((stream.drop (r + 19)).take j) = none) :
    ∀ (cs : List (List UInt8)) (kept : List UInt8) (p : ℕ), kept ++ cs.flatten = stream.drop p →
      (∀ c ∈ cs, c.length ≤ 1023) → ¬ seekto <+: kept →
      (seekto <+: stream.drop p → CommandStart stream p) → assemble kept cs = []
  | [], _, _, _, _, _, _ => rfl
  | c :: cs, kept, p, hstream, hle, hno, hstart => by
      rw [List.forall_mem_cons] at hle
      rw [List.flatten_cons, ← List.append_assoc] at hstream
      have hfree : newline ∉ kept ++ c := fun hmem =>
        hnl (List.mem_of_mem_drop (hstream ▸ List.mem_append_left _ hmem))
      rw [assemble, receive]
      by_cases hseek : seekto <+: kept ++ c
      · have hp : CommandStart stream p := hstart (hseek.trans ⟨cs.flatten, hstream⟩)
        have hlen := length_lt_of_completes hno hseek
        have hlong : 19 ≤ (kept ++ c).length := hseek.length_le
        obtain ⟨j, hj⟩ : ∃ j, (kept ++ c).length = 19 + j := ⟨_, (Nat.add_sub_of_le hlong).symm⟩
        have hj' : j ≤ 1022 := by
          rw [List.length_append] at hj
          have := hle.1
          omega
        have hargs : (kept ++ c).drop 19 = (stream.drop (p + 19)).take j := by
          rw [← List.drop_drop, ← hstream, List.drop_append_of_le_length hlong,
            List.take_append_of_le_length (by rw [List.length_drop]; omega)]
          exact (List.take_of_length_le (by rw [List.length_drop]; omega)).symm
        have hrest : cs.flatten = stream.drop (p + 19 + j) := by
          rw [Nat.add_assoc, ← hj, ← List.drop_drop, ← hstream, List.drop_left]
        rw [if_pos hseek, hargs, hquiet p j hp hj']
        refine assemble_quiet hnl hquiet cs [] (p + 19 + j) hrest hle.2 (by decide) ?_
        exact fun h => .next hp hj' h
      · rw [if_neg hseek, if_neg hfree]
        exact assemble_quiet hnl hquiet cs (kept ++ c) p hstream hle.2 hseek hstart

/-- **All cuttings of such a stream lead to the same actions.**
Source: `handler.c`, `handle_connection`
Kind: P -/
theorem assemble_same {cs cs' : List (List UInt8)} (hu : Uncuttable stream) (hcs : Cuts cs stream)
    (hcs' : Cuts cs' stream) : assemble [] cs = assemble [] cs' := by
  rcases hu with ⟨hseek, hnl⟩ | ⟨hseek, hnl, hquiet⟩
  · have hline : ∀ {cs}, Cuts cs stream → assemble [] cs = _ := fun h =>
      assemble_line hseek hnl _ [] List.not_mem_nil h.1 fun c hc => (h.2 c hc).1
    rw [hline hcs, hline hcs']
  · have hnone : ∀ {cs}, Cuts cs stream → assemble [] cs = [] := fun h =>
      assemble_quiet hnl hquiet _ [] 0 (by simpa using h.1) (fun c hc => (h.2 c hc).2) (by decide)
        fun _ => .first hseek
    rw [hnone hcs, hnone hcs']

end uncuttable

/-! ### Cutting into bytes -/

/-- The cutting into single bytes.
Source: `handler.c`, `handle_connection`
Kind: D -/
def bytewise (u : List UInt8) : List (List UInt8) := u.map fun b => [b]

/-- A stream may arrive byte by byte.
Source: `handler.c`, `handle_connection`
Kind: L -/
theorem cuts_bytewise (u : List UInt8) : Cuts (bytewise u) u := by
  refine ⟨?_, ?_⟩
  · induction u with
    | nil => rfl
    | cons b u ih => exact congrArg (b :: ·) ih
  · intro c hc
    obtain ⟨b, -, rfl⟩ := List.mem_map.mp hc
    exact ⟨by simp, by simp⟩

/-- Single bytes without a newline lead to nothing: a `SEEKTO` is complete before any of its
arguments arrives. It is then dropped, so that the number of bytes kept is known modulo its
length.
Source: `handler.c`, `handle_connection`
Kind: L -/
theorem assemble_bytewise :
    ∀ (u kept : List UInt8), newline ∉ u → newline ∉ kept → ¬ seekto <+: kept →
      assemble kept (bytewise u) = [] ∧ ¬ seekto <+: remainder kept (bytewise u) ∧
        (remainder kept (bytewise u)).length % 19 = (kept.length + u.length) % 19
  | [], kept, _, _, hno => ⟨rfl, hno, rfl⟩
  | b :: u, kept, hu, hfree, hno => by
      rw [List.mem_cons, not_or] at hu
      have hfree' : newline ∉ kept ++ [b] := by
        rw [List.mem_append, List.mem_singleton, not_or]
        exact ⟨hfree, hu.1⟩
      change (receive kept [b]).1.toList ++ assemble (receive kept [b]).2 (bytewise u) = [] ∧
        ¬ seekto <+: remainder (receive kept [b]).2 (bytewise u) ∧
        (remainder (receive kept [b]).2 (bytewise u)).length % 19 = _
      unfold receive
      by_cases hseek : seekto <+: kept ++ [b]
      · have hlen := length_lt_of_completes hno hseek
        have hlong : 19 ≤ (kept ++ [b]).length := hseek.length_le
        rw [List.length_append, List.length_singleton] at hlong
        have hargs : seekRequest ((kept ++ [b]).drop 19) = none := by
          apply seekRequest_of_length_lt
          rw [List.length_drop, List.length_append, List.length_singleton]
          omega
        obtain ⟨hacts, hrest, hmod⟩ := assemble_bytewise u [] hu.2 List.not_mem_nil (by decide)
        rw [if_pos hseek, hargs]
        refine ⟨hacts, hrest, ?_⟩
        rw [hmod, List.length_nil, List.length_cons]
        omega
      · obtain ⟨hacts, hrest, hmod⟩ := assemble_bytewise u (kept ++ [b]) hu.2 hfree' hseek
        rw [if_neg hseek, if_neg hfree']
        refine ⟨hacts, hrest, ?_⟩
        rw [hmod, List.length_append, List.length_singleton, List.length_cons, Nat.add_assoc,
          Nat.add_comm 1]

/-- A newline completes a packet.
Source: `handler.c`, `handle_connection`
Kind: L -/
theorem receive_newline {kept : List UInt8} (hno : ¬ seekto <+: kept) (rest : List UInt8) :
    receive kept (newline :: rest) = (some (.append (kept ++ newline :: rest)), []) := by
  have hseek : ¬ seekto <+: kept ++ newline :: rest := by
    intro hp
    have hlt := length_lt_of_completes hno hp
    -- the newline would be a byte of `SEEKTO`
    have hmem : kept ++ [newline] <+: seekto := by
      apply List.prefix_of_prefix_length_le ⟨rest, by simp⟩ hp
      rw [List.length_append, List.length_singleton]
      exact hlt
    exact newline_not_mem_seekto (hmem.subset (by simp))
  unfold receive
  rw [if_neg hseek, if_pos (by simp)]

/-- A stream without a newline, then a newline: the first action is to append them, less the
`SEEKTO`s at the start.
Source: `handler.c`, `handle_connection`
Kind: L -/
theorem assemble_bytewise_newline {u : List UInt8} (hu : newline ∉ u) (rest : List UInt8)
    (cs : List (List UInt8)) :
    ∃ kept, assemble [] (bytewise u ++ (newline :: rest) :: cs) =
        .append (kept ++ newline :: rest) :: assemble [] cs ∧
      kept.length % 19 = u.length % 19 := by
  obtain ⟨hacts, hno, hmod⟩ := assemble_bytewise u [] hu List.not_mem_nil (by decide)
  refine ⟨remainder [] (bytewise u), ?_, by simpa using hmod⟩
  rw [assemble_append, hacts, List.nil_append, assemble, receive_newline hno]
  rfl

/-! ### Cutting out a command -/

/-- `SEEKTO` in single bytes, the last of them together with what is to be the arguments.
Source: `handler.c`, `handle_connection`
Kind: D -/
def commandCut (args : List UInt8) : List (List UInt8) :=
  bytewise seekto.dropLast ++ [58 :: args]

/-- A command may arrive cut before the last byte of the literal.
Source: `handler.c`, `handle_connection`
Kind: L -/
theorem cuts_commandCut {args : List UInt8} (hle : args.length ≤ 1022) :
    Cuts (commandCut args) (seekto ++ args) := by
  have hlast : Cuts [58 :: args] (58 :: args) := cuts_singleton (by simp) (Nat.succ_le_succ hle)
  have h := cuts_append (cuts_bytewise seekto.dropLast) hlast
  exact h

/-- Cut so, the command is done on its own.
Source: `handler.c`, `handle_connection`
Kind: L -/
theorem assemble_commandCut (args : List UInt8) (cs : List (List UInt8)) :
    assemble [] (commandCut args ++ cs) =
      ((seekRequest args).map .seek).toList ++ assemble [] cs := by
  have hkept : remainder [] (bytewise seekto.dropLast) = seekto.dropLast := by decide
  have hacts : assemble [] (bytewise seekto.dropLast) = [] := by decide
  have hreceive : receive seekto.dropLast (58 :: args) = ((seekRequest args).map .seek, []) := by
    have heq : seekto.dropLast ++ 58 :: args = seekto ++ args := rfl
    unfold receive
    rw [heq, if_pos (List.prefix_append _ _)]
    rfl
  rw [commandCut, List.append_assoc, assemble_append, hacts, hkept, List.nil_append,
    List.singleton_append, assemble, hreceive]

/-- Every possible start of a command is reached by some cutting.
Source: `handler.c`, `handle_connection`
Kind: L -/
theorem CommandStart.exists_cuts {stream : List UInt8} {r : ℕ} (h : CommandStart stream r) :
    ∃ cs, Cuts cs (stream.take r) ∧ ∀ cs', ∃ acts, assemble [] (cs ++ cs') =
      acts ++ assemble [] cs' := by
  induction h with
  | first _ => exact ⟨[], ⟨by simp, by simp⟩, fun cs' => ⟨[], rfl⟩⟩
  | @next r j hstart hj _ ih =>
      obtain ⟨cs, hcs, hrest⟩ := ih
      have hle : ((stream.drop (r + 19)).take j).length ≤ 1022 := (List.length_take_le _ _).trans hj
      have hcut := cuts_append hcs (cuts_commandCut hle)
      have htake : stream.take r ++ (seekto ++ (stream.drop (r + 19)).take j) =
          stream.take (r + 19 + j) := by
        rw [Nat.add_assoc, List.take_add, hstart.drop_eq]
        exact congrArg (stream.take r ++ ·) (List.take_length_add_append j).symm
      rw [htake] at hcut
      refine ⟨cs ++ commandCut _, hcut, fun cs' => ?_⟩
      obtain ⟨acts, hacts⟩ := hrest (commandCut ((stream.drop (r + 19)).take j) ++ cs')
      refine ⟨acts ++ ((seekRequest ((stream.drop (r + 19)).take j)).map Action.seek).toList, ?_⟩
      rw [List.append_assoc, hacts, assemble_commandCut, List.append_assoc]

/-! ### Streams that some cutting changes -/

section cuttable

variable {stream : List UInt8}

/-- All cuttings lead to the same actions.
Source: `handler.c`, `handle_connection`
Kind: D -/
def AssemblesAlike (stream : List UInt8) : Prop :=
  ∀ cs cs', Cuts cs stream → Cuts cs' stream → assemble [] cs = assemble [] cs'

/-- A newline with a byte after it may come alone or with that byte.
Source: `handler.c`, `handle_connection`
Kind: L -/
theorem AssemblesAlike.newline_last (hsame : AssemblesAlike stream) :
    newline ∉ stream.dropLast := by
  intro hmem
  obtain ⟨u, v, hsplit, hu⟩ := List.eq_append_cons_of_mem hmem
  have hne : stream ≠ [] := by
    rintro rfl
    exact absurd hmem (by simp)
  obtain ⟨b, w, htail⟩ : ∃ b w, v ++ [stream.getLast hne] = b :: w :=
    List.exists_cons_of_ne_nil (by simp)
  have hstream : stream = u ++ newline :: b :: w := by
    rw [← List.dropLast_append_getLast hne, hsplit, List.append_assoc, List.cons_append, htail]
  have halone : Cuts (bytewise u ++ [newline] :: bytewise (b :: w)) stream := by
    have h := cuts_append (cuts_bytewise u) (cuts_bytewise (newline :: b :: w))
    rw [← hstream] at h
    exact h
  have htogether : Cuts (bytewise u ++ [newline, b] :: bytewise w) stream := by
    have hpair : Cuts [[newline, b]] [newline, b] := cuts_singleton (by simp) (by simp)
    have h := cuts_append (cuts_bytewise u) (cuts_append hpair (cuts_bytewise w))
    rw [hstream]
    exact h
  obtain ⟨kept, hacts, hmod⟩ := assemble_bytewise_newline hu [] (bytewise (b :: w))
  obtain ⟨kept', hacts', hmod'⟩ := assemble_bytewise_newline hu [b] (bytewise w)
  have heq := hsame _ _ halone htogether
  rw [hacts, hacts', List.cons.injEq, Action.append.injEq] at heq
  have hlen := congrArg List.length heq.1
  simp only [List.length_append, List.length_cons, List.length_nil] at hlen
  omega

/-- After a `SEEKTO`, a byte may be taken for an argument or for data.
Source: `handler.c`, `handle_connection`
Kind: L -/
theorem AssemblesAlike.newline_free (hsame : AssemblesAlike stream) (hseek : seekto <+: stream) :
    newline ∉ stream := by
  intro hmem
  have hlast := hsame.newline_last
  obtain ⟨tail, rfl⟩ := hseek
  have htail : newline ∈ tail :=
    (List.mem_append.mp hmem).resolve_left newline_not_mem_seekto
  obtain ⟨u, v, rfl, hu⟩ := List.eq_append_cons_of_mem htail
  have hv : v = [] := by
    by_contra hne
    apply hlast
    rw [← List.append_assoc, List.dropLast_append_of_ne_nil (by simp),
      List.dropLast_cons_of_ne_nil hne]
    simp
  subst hv
  have hfree : newline ∉ seekto ++ u := by
    rw [List.mem_append, not_or]
    exact ⟨newline_not_mem_seekto, hu⟩
  have hbytes : Cuts (bytewise (seekto ++ u) ++ [[newline]]) (seekto ++ (u ++ [newline])) := by
    have h := cuts_append (cuts_bytewise (seekto ++ u)) (cuts_bytewise [newline])
    rw [List.append_assoc] at h
    exact h
  obtain ⟨kept, hacts, hmod⟩ := assemble_bytewise_newline hfree [] []
  cases u with
  | nil =>
      -- the newline itself is taken for an argument
      have hcommand : Cuts (commandCut [newline]) (seekto ++ ([] ++ [newline])) :=
        cuts_commandCut (by simp)
      have heq := hsame _ _ hbytes hcommand
      have hnone := assemble_commandCut [newline] []
      rw [seekRequest_of_length_lt (by simp), List.append_nil] at hnone
      rw [hacts, hnone] at heq
      cases heq
  | cons b u =>
      have hcommand : Cuts (commandCut [b] ++ (bytewise u ++ [[newline]]))
          (seekto ++ (b :: u ++ [newline])) := by
        have hb : Cuts (commandCut [b]) (seekto ++ [b]) := cuts_commandCut (by simp)
        have h := cuts_append hb (cuts_append (cuts_bytewise u) (cuts_bytewise [newline]))
        rw [List.append_assoc] at h
        exact h
      have hu' : newline ∉ u := fun h => hu (List.mem_cons_of_mem _ h)
      obtain ⟨kept', hacts', hmod'⟩ := assemble_bytewise_newline hu' [] []
      have heq := hsame _ _ hbytes hcommand
      rw [hacts, assemble_commandCut, seekRequest_of_length_lt (by simp), hacts'] at heq
      simp only [Option.map_none, Option.toList_none, List.nil_append, List.cons.injEq,
        Action.append.injEq] at heq
      have hlen := congrArg List.length heq.1
      simp only [List.length_append, length_seekto, List.length_cons] at hlen hmod
      omega

/-- Single bytes never make a seek, so no cutting may.
Source: `handler.c`, `handle_connection`
Kind: L -/
theorem AssemblesAlike.quiet (hsame : AssemblesAlike stream) (hnl : newline ∉ stream) {r j : ℕ}
    (hstart : CommandStart stream r) (hj : j ≤ 1022) :
    seekRequest ((stream.drop (r + 19)).take j) = none := by
  obtain ⟨cs, hcs, hrest⟩ := hstart.exists_cuts
  have hle : ((stream.drop (r + 19)).take j).length ≤ 1022 := (List.length_take_le _ _).trans hj
  have hcut := cuts_append hcs (cuts_append (cuts_commandCut hle)
    (cuts_bytewise ((stream.drop (r + 19)).drop j)))
  have hwhole : stream.take r ++ (seekto ++ (stream.drop (r + 19)).take j ++
      (stream.drop (r + 19)).drop j) = stream := by
    rw [List.append_assoc, List.take_append_drop, ← hstart.drop_eq, List.take_append_drop]
  rw [hwhole] at hcut
  have heq := hsame _ _ hcut (cuts_bytewise stream)
  obtain ⟨hacts, -, -⟩ := assemble_bytewise stream [] hnl List.not_mem_nil (by decide)
  obtain ⟨acts, hacts'⟩ := hrest (commandCut ((stream.drop (r + 19)).take j) ++
    bytewise ((stream.drop (r + 19)).drop j))
  rw [hacts, hacts', assemble_commandCut, List.append_eq_nil_iff, List.append_eq_nil_iff] at heq
  simpa using heq.2.1

/-- **All cuttings of a stream lead to the same actions exactly when it is uncuttable.**
Source: `handler.c`, `handle_connection`
Kind: P -/
theorem assemble_same_iff : AssemblesAlike stream ↔ Uncuttable stream := by
  constructor
  · intro hsame
    by_cases hseek : seekto <+: stream
    · have hnl := hsame.newline_free hseek
      exact Or.inr ⟨hseek, hnl, fun r j hstart hj => hsame.quiet hnl hstart hj⟩
    · exact Or.inl ⟨hseek, hsame.newline_last⟩
  · intro hu cs cs' hcs hcs'
    exact assemble_same hu hcs hcs'

end cuttable

/-! ### Runs of the handler -/

section runs

variable {build : Build} {h h' : Handler} {ev : Event} {events : List Event} {stream : List UInt8}

/-- `append_packet` receives nothing.
Source: `handler.c`, `handle_connection` and `append_packet`
Kind: L -/
theorem appendPacket_receives_nothing {buf : List UInt8} {pc pc' : AppendPc}
    (hev : appendPacket buf pc ev = some pc') : ev.received = none := by
  rcases appendPacket_event hev with ⟨ok, rfl⟩ | ⟨bytes, result, rfl⟩ | rfl
  · rfl
  · rfl
  · rfl

/-- What a step receives is what `recv` may deliver.
Source: `handler.c`, `handle_connection`
Kind: L -/
theorem Handler.Steps.received_legal (hstep : h.Steps build ev h') {c : List UInt8}
    (hc : ev.received = some c) : c ≠ [] ∧ c.length ≤ 1023 := by
  cases hstep with
  | recvGrows _ hne hle _ =>
      cases hc
      exact ⟨hne, hle⟩
  | recvFits _ hne hle _ =>
      cases hc
      exact ⟨hne, hle⟩
  | appends _ hev =>
      rw [appendPacket_receives_nothing hev] at hc
      cases hc
  | replies _ hev =>
      rw [(writeToClient_idle hev).1] at hc
      cases hc
  | _ => cases hc

/-- The chunks of a run are a cutting.
Source: `handler.c`, `handle_connection`
Kind: L -/
theorem cuts_chunks (hrun : handleConnection build events = some h) :
    Cuts (chunks events) (chunks events).flatten := by
  refine ⟨rfl, ?_⟩
  refine run_induction (P := fun es _ => ∀ c ∈ chunks es, c ≠ [] ∧ c.length ≤ 1023)
    (by simp [chunks]) ?_ hrun
  intro es t ev t' _ ih hstep
  rw [chunks_concat, List.forall_mem_append]
  refine ⟨ih, fun c hc => ?_⟩
  exact (Handler.steps_of_step hstep).received_legal (Option.mem_toList.mp hc)

/-- All connections on which the stream arrives, and on which nothing fails, lead to the same
actions on the device.
Source: `handler.c`, `handle_connection`
Kind: D -/
def ActsAlike (build : Build) (stream : List UInt8) : Prop :=
  ∀ (events₁ events₂ : List Event) (h₁ h₂ : Handler),
    handleConnection build events₁ = some h₁ → handleConnection build events₂ = some h₂ →
    h₁.pc = .finished → h₂.pc = .finished →
    (∀ ev ∈ events₁, ev.Succeeds) → (∀ ev ∈ events₂, ev.Succeeds) →
    (chunks events₁).flatten = stream → (chunks events₂).flatten = stream →
    deviceActions events₁ = deviceActions events₂

/-- **When the chunks make no difference.** All connections on which a stream arrives, and on which
nothing fails, lead to the same appends and seeks if the stream is uncuttable, and only if it is,
as long as it fits in memory.
Source: `handler.c`, `handle_connection`
Kind: P -/
theorem segmentation_independent_iff (build : Build) (stream : List UInt8) :
    (Uncuttable stream → ActsAlike build stream) ∧
      (stream.length < 2 ^ 62 → ActsAlike build stream → Uncuttable stream) := by
  constructor
  · intro hu events₁ events₂ h₁ h₂ hrun₁ hrun₂ hend₁ hend₂ hok₁ hok₂ hs₁ hs₂
    have hcuts₁ := cuts_chunks hrun₁
    have hcuts₂ := cuts_chunks hrun₂
    rw [hs₁] at hcuts₁
    rw [hs₂] at hcuts₂
    rw [actions_of_run hrun₁ hok₁ hend₁, actions_of_run hrun₂ hok₂ hend₂]
    exact assemble_same hu hcuts₁ hcuts₂
  · intro hsmall hsame
    rw [← assemble_same_iff]
    intro cs cs' hcs hcs'
    obtain ⟨events₁, h₁, hrun₁, hok₁, hend₁, rfl⟩ := exists_run cs build hcs.2 (hcs.1 ▸ hsmall)
    obtain ⟨events₂, h₂, hrun₂, hok₂, hend₂, rfl⟩ := exists_run cs' build hcs'.2 (hcs'.1 ▸ hsmall)
    rw [← actions_of_run hrun₁ hok₁ hend₁, ← actions_of_run hrun₂ hok₂ hend₂]
    exact hsame _ _ _ _ hrun₁ hrun₂ hend₁ hend₂ hok₁ hok₂ hcs.1 hcs'.1

/-- The chunks make a difference in general: `"a\nb\n"` in one chunk is one packet, in two chunks
it may be two.
Source: `handler.c`, `handle_connection`
Kind: N− -/
theorem segmentation_dependent : ¬ ∀ build stream, ActsAlike build stream := by
  intro hsame
  obtain ⟨events₁, h₁, hrun₁, hok₁, hend₁, hcs₁⟩ :=
    exists_run [[97, 10, 98, 10]] .charDevice (by simp) (by simp)
  obtain ⟨events₂, h₂, hrun₂, hok₂, hend₂, hcs₂⟩ :=
    exists_run [[97, 10], [98, 10]] .charDevice (by simp) (by simp)
  have heq := hsame .charDevice [97, 10, 98, 10] events₁ events₂ h₁ h₂ hrun₁ hrun₂ hend₁ hend₂
    hok₁ hok₂ (by rw [hcs₁]; rfl) (by rw [hcs₂]; rfl)
  rw [actions_of_run hrun₁ hok₁ hend₁, actions_of_run hrun₂ hok₂ hend₂, hcs₁, hcs₂] at heq
  exact absurd heq (by decide)

end runs

end Aesd.Server
