import Aesd.Server.System
import Aesd.Driver.Reading

/-!
# Replies while other clients write

`write_to_client` reads and sends piece by piece and gives up the device between two reads. Its
position counts from the oldest retained entry, so an entry that is evicted between two reads moves
the position past bytes that were never sent. As long as that does not happen, what is sent is a
contiguous segment of everything ever added to the device (`reply_contiguous`); it fails once an
entry is evicted between two reads that deliver (`reply_torn`).
-/

namespace Aesd.Server

open Aesd.Lib Aesd.Driver

/-! ### One reply and the writes of others -/

/-- A step while one reply is being sent: a call of the loop, or a write by another client.
Source: `handler.c`, `write_to_client`
Kind: D -/
inductive ReplyStep where
  | loop (env : KernelEnv) (event : Event)
  | other (env : WriteEnv) (buf : List UInt8)

/-- The place in `write_to_client`, the device, and the position of the descriptor.
Source: `handler.c`, `write_to_client`
Kind: D -/
structure Reply where
  pc : ReplyPc
  dev : AesdDev
  fPos : ℤ

/-- A step of the loop, or a write of bytes with a newline.
Source: `handler.c`, `write_to_client`; `main.c`, the file operations
Kind: D -/
def Reply.step (K : KernelLimits) (r : Reply) : ReplyStep → Option Reply
  | .loop env ev =>
      (writeToClient r.pc ev).bind fun pc =>
        (deviceAnswer K env ev r.fPos r.dev).map fun answer => ⟨pc, answer.2, answer.1⟩
  | .other env buf =>
      if newline ∈ buf then some { r with dev := (vfsWrite K env buf 0 r.dev).2.2 } else none

/-- The bytes a step of the reply sends.
Source: `handler.c`, `write_to_client`
Kind: D -/
def ReplyStep.sent : ReplyStep → List UInt8
  | .loop _ ev => ev.sent
  | .other _ _ => []

/-- The bytes sent in the steps.
Source: `handler.c`, `write_to_client`
Kind: D -/
def sentBytes (steps : List ReplyStep) : List UInt8 := (steps.map ReplyStep.sent).flatten

/-- The step is not a send that fails.
Source: `handler.c`, `write_to_client`
Kind: D -/
def ReplyStep.Succeeds : ReplyStep → Prop
  | .loop _ ev => ev.Succeeds
  | .other _ _ => True

/-- The step is a read that delivers something.
Source: `handler.c`, `write_to_client`
Kind: D -/
def ReplyStep.delivers : ReplyStep → Bool
  | .loop _ (.read (some (_ :: _))) => true
  | _ => false

/-- The step adds an entry to a full ring.
Source: `handler.c`, `write_to_client`; `main.c`, the file operations
Kind: D -/
def ReplyStep.Evicts (K : KernelLimits) (r : Reply) : ReplyStep → Prop
  | .loop _ _ => False
  | .other env buf => (vfsWrite K env buf 0 r.dev).1.isOk = true ∧ r.dev.commands.length = 10

/-- Whether a step evicts is found in the state.
Source: none: infrastructure
Kind: D -/
instance (K : KernelLimits) (r : Reply) : DecidablePred (ReplyStep.Evicts K r)
  | .loop _ _ => inferInstanceAs (Decidable False)
  | .other _ _ => inferInstanceAs (Decidable (_ ∧ _))

/-- No step of the run evicts.
Source: `handler.c`, `write_to_client`
Kind: D -/
def EvictsNothing (K : KernelLimits) : Reply → List ReplyStep → Prop
  | _, [] => True
  | r, t :: steps => ¬ t.Evicts K r ∧ ∀ r' ∈ r.step K t, EvictsNothing K r' steps

/-- Whether a run evicts is found by running.
Source: none: infrastructure
Kind: D -/
instance evictsNothingDecidable (K : KernelLimits) :
    ∀ (r : Reply) (steps : List ReplyStep), Decidable (EvictsNothing K r steps)
  | _, [] => inferInstanceAs (Decidable True)
  | r, t :: steps =>
      have := fun r' => evictsNothingDecidable K r' steps
      inferInstanceAs (Decidable (¬ t.Evicts K r ∧ ∀ r' ∈ r.step K t, EvictsNothing K r' steps))

/-- Nothing is evicted from the first read that delivers to the last one.
Source: `handler.c`, `write_to_client`
Kind: D -/
def CalmReply (K : KernelLimits) (r : Reply) (steps : List ReplyStep) : Prop :=
  ∃ before during after, steps = before ++ during ++ after ∧
    (∀ t ∈ before, t.delivers = false) ∧ (∀ t ∈ after, t.delivers = false) ∧
    ∀ r', run (Reply.step K) r before = some r' → EvictsNothing K r' during

/-- What has been read and not yet sent.
Source: `handler.c`, `handle_connection` and `write_to_client`
Kind: D -/
def ReplyPc.chunk : ReplyPc → List UInt8
  | .send chunk => chunk
  | _ => []

section replies

variable {K : KernelLimits} {r r' : Reply} {t : ReplyStep} {steps : List ReplyStep}

/-- Everything a step can do, as far as it succeeds.
Source: `handler.c`, `write_to_client`
Kind: D -/
inductive Reply.Steps (K : KernelLimits) (r : Reply) : ReplyStep → Reply → Prop where
  | reads {env : KernelEnv} {result : Option (List UInt8)} (hpc : r.pc = .read)
      (hres : result = (aesdRead env.read bufferSize r.fPos r.dev).1.toOption) {pc : ReplyPc}
      (hchunk : pc.chunk = result.getD []) :
      Steps K r (.loop env (.read result))
        ⟨pc, r.dev, (aesdRead env.read bufferSize r.fPos r.dev).2⟩
  | sends {env : KernelEnv} {bytes : List UInt8} {sent : ℤ} (hpc : r.pc = .send bytes) :
      Steps K r (.loop env (.send bytes sent)) { r with pc := .read }
  | writes {env : WriteEnv} {buf : List UInt8} (hnl : newline ∈ buf) :
      Steps K r (.other env buf) { r with dev := (vfsWrite K env buf 0 r.dev).2.2 }

/-- The steps of a reply, analysed once.
Source: `handler.c`, `write_to_client`
Kind: L -/
theorem Reply.steps_of_step (hstep : r.step K t = some r') (hok : t.Succeeds) :
    r.Steps K t r' := by
  cases t with
  | other env buf =>
      rw [Reply.step, Option.ite_none_right_eq_some, Option.some.injEq] at hstep
      rw [← hstep.2]
      exact .writes hstep.1
  | loop env ev =>
      obtain ⟨pc, hpc, hrest⟩ := Option.bind_eq_some_iff.mp hstep
      obtain ⟨⟨pos, dev⟩, hans, rfl⟩ := Option.map_eq_some_iff.mp hrest
      cases hr : r.pc with
      | returned ok =>
          rw [hr] at hpc
          cases hpc
      | read =>
          rw [hr] at hpc
          cases ev with
          | read result =>
              rw [deviceAnswer, Option.ite_none_right_eq_some] at hans
              cases hans.2
              refine .reads hr hans.1 ?_
              rcases result with _ | (_ | ⟨b, bytes⟩)
              · cases hpc
                rfl
              · cases hpc
                rfl
              · rw [writeToClient, Option.ite_none_right_eq_some] at hpc
                cases hpc.2
                rfl
          | _ => cases hpc
      | send chunk =>
          rw [hr] at hpc
          cases ev with
          | send bytes sent =>
              rw [writeToClient, Option.ite_none_right_eq_some, Option.some.injEq] at hpc
              obtain ⟨rfl, rfl⟩ := hpc
              cases hans
              have hfull : sent = bytes.length := hok
              rw [if_neg (not_not.mpr hfull)]
              exact .sends hr
          | _ => cases hpc

/-- What one more step has sent.
Source: none: infrastructure
Kind: L -/
theorem sentBytes_concat (steps : List ReplyStep) (t : ReplyStep) :
    sentBytes (steps ++ [t]) = sentBytes steps ++ t.sent := by
  simp [sentBytes]

/-! ### What the writes of others do -/

/-- The number of bytes that have been evicted.
Source: `main.c`, the file operations
Kind: D -/
def evictedBytes (dev : AesdDev) : ℕ := dev.added.flatten.length - dev.content.length

/-- The content is what has been added, less what has been evicted.
Source: `main.c`, the file operations
Kind: L -/
theorem content_eq_drop {dev : AesdDev} (ha : Accounted K dev) :
    dev.content = dev.added.flatten.drop (evictedBytes dev) := by
  have hsplit : dev.added.flatten =
      (dev.added.take (dev.added.length - 10)).flatten ++ dev.content := by
    rw [AesdDev.content, ha.commands_eq, List.rtake, ← List.flatten_append, List.take_append_drop]
  unfold evictedBytes
  rw [hsplit, List.length_append, Nat.add_sub_cancel, List.drop_left]

/-- What a write by another client does: it adds at most one entry at the end, and it evicts
nothing unless it finds the ring full.
Source: `main.c`, the file operations
Kind: L -/
theorem vfsWrite_added {dev : AesdDev} (hrep : Represents K dev) {env : WriteEnv}
    {buf : List UInt8} (hnl : newline ∈ buf) :
    Represents K (vfsWrite K env buf 0 dev).2.2 ∧
      dev.added <+: (vfsWrite K env buf 0 dev).2.2.added ∧
      (¬ ((vfsWrite K env buf 0 dev).1.isOk = true ∧ dev.commands.length = 10) →
        evictedBytes (vfsWrite K env buf 0 dev).2.2 = evictedBytes dev) := by
  have hsame : ∀ {dev' : AesdDev}, Represents K dev' → dev'.added = dev.added →
      evictedBytes dev' = evictedBytes dev := by
    intro dev' hrep' hadded
    unfold evictedBytes AesdDev.content
    rw [hrep'.commands_eq, hrep.commands_eq, hadded]
  have hout := vfsWrite_outcome hrep env buf 0
  generalize vfsWrite K env buf 0 dev = result at hout ⊢
  cases hout with
  | refused _ hrep' _ hrec =>
      have hadded := congrArg Records.done hrec
      exact ⟨hrep', ⟨[], by rw [List.append_nil]; exact hadded.symm⟩, fun _ => hsame hrep' hadded⟩
  | dropped _ _ _ _ hrep' _ hrec =>
      have hadded := congrArg Records.done hrec
      exact ⟨hrep', ⟨[], by rw [List.append_nil]; exact hadded.symm⟩, fun _ => hsame hrep' hadded⟩
  | @accepted n dev' _ halloc _ _ hrep' hrec =>
      rw [take_maxRwCount halloc, Records.feed_of_mem hnl] at hrec
      have hadded : dev'.added = dev.added ++ [dev.pending ++ buf] := congrArg Records.done hrec
      refine ⟨hrep', ⟨_, hadded.symm⟩, fun hroom => ?_⟩
      -- the ring was not full, so that it holds all that was ever added, before and after
      have hten : dev.commands.length ≠ 10 := fun h => hroom ⟨rfl, h⟩
      have hlt : dev.added.length < 10 := by
        rw [hrep.commands_eq, List.rtake, List.length_drop] at hten
        omega
      have hlt' : dev'.added.length ≤ 10 := by
        rw [hadded, List.length_append, List.length_singleton]
        exact hlt
      change evictedBytes dev' = evictedBytes dev
      unfold evictedBytes AesdDev.content
      rw [hrep'.commands_eq, hrep.commands_eq, rtake_of_length_le hlt.le,
        rtake_of_length_le hlt', Nat.sub_self, Nat.sub_self]

/-! ### Runs -/

/-- While no read delivers anything, what was read before is sent and nothing else.
Source: `handler.c`, `write_to_client`; `main.c`, the file operations
Kind: L -/
theorem quiet_run (hrep : Represents K r.dev) (hrun : run (Reply.step K) r steps = some r')
    (hok : ∀ t ∈ steps, t.Succeeds) (hquiet : ∀ t ∈ steps, t.delivers = false) :
    Represents K r'.dev ∧ r.dev.added <+: r'.dev.added ∧
      sentBytes steps ++ r'.pc.chunk = r.pc.chunk := by
  refine run_induction (P := fun steps r' => (∀ t ∈ steps, t.Succeeds) →
      (∀ t ∈ steps, t.delivers = false) → Represents K r'.dev ∧ r.dev.added <+: r'.dev.added ∧
      sentBytes steps ++ r'.pc.chunk = r.pc.chunk) ?_ ?_ hrun hok hquiet
  · intro _ _
    exact ⟨hrep, List.prefix_rfl, rfl⟩
  · intro steps u t u' _ ih hstep hok hquiet
    rw [List.forall_mem_append, List.forall_mem_singleton] at hok hquiet
    obtain ⟨hrep, hgrow, hsent⟩ := ih hok.1 hquiet.1
    rw [sentBytes_concat]
    cases Reply.steps_of_step hstep hok.2 with
    | @reads env result hpc hres pc hchunk =>
        have hnil : result.getD [] = [] := by
          rcases result with _ | (_ | ⟨b, bytes⟩)
          · rfl
          · rfl
          · exact absurd hquiet.2 (by simp [ReplyStep.delivers])
        rw [hpc] at hsent
        refine ⟨hrep, hgrow, ?_⟩
        rw [hchunk, hnil, ← hsent]
        simp [ReplyStep.sent, Event.sent, ReplyPc.chunk]
    | sends hpc =>
        rw [hpc] at hsent
        refine ⟨hrep, hgrow, ?_⟩
        rw [← hsent]
        simp [ReplyStep.sent, Event.sent, ReplyPc.chunk]
    | writes hnl =>
        obtain ⟨hrep', hgrow', -⟩ := vfsWrite_added hrep hnl
        refine ⟨hrep', hgrow.trans hgrow', ?_⟩
        rw [← hsent]
        simp [ReplyStep.sent]

/-- What has been read so far, `got`, ends where the position points.
Source: `handler.c`, `write_to_client`
Kind: D -/
structure Continues (K : KernelLimits) (r : Reply) (got : List UInt8) : Prop where
  represents : Represents K r.dev
  segment : ∃ a, got <+: r.dev.added.flatten.drop a ∧
    a + got.length = evictedBytes r.dev + sizeOfLoff r.fPos

/-- A step that evicts nothing continues the segment.
Source: `handler.c`, `write_to_client`
Kind: L -/
theorem Continues.step {got : List UInt8} (hc : Continues K r (got ++ r.pc.chunk))
    (hstep : r.Steps K t r') (hroom : ¬ t.Evicts K r) :
    Continues K r' (got ++ t.sent ++ r'.pc.chunk) := by
  obtain ⟨a, hseg, hend⟩ := hc.segment
  cases hstep with
  | @reads env result hpc hres pc hchunk =>
      obtain ⟨hpiece, hmove, -, -⟩ := aesdRead_moves hc.represents.toAccounted hres
      have hnone : r.pc.chunk = [] := by
        rw [hpc]
        rfl
      rw [hnone, List.append_nil] at hseg hend
      change Continues K _ (got ++ [] ++ pc.chunk)
      rw [hchunk, List.append_nil]
      refine ⟨hc.represents, a, ?_, ?_⟩
      · -- the piece read starts where the segment ends
        rw [content_eq_drop hc.represents.toAccounted, List.drop_drop, ← hend,
          ← List.drop_drop] at hpiece
        obtain ⟨rest, hrest⟩ := hseg
        rw [← hrest, List.drop_left] at hpiece
        rw [← hrest]
        exact (List.prefix_append_right_inj got).mpr hpiece
      · rw [List.length_append, hmove, ← Nat.add_assoc, hend, Nat.add_assoc]
  | @sends env bytes sent hpc =>
      rw [hpc] at hseg hend
      change Continues K _ (got ++ bytes ++ [])
      rw [List.append_nil]
      exact ⟨hc.represents, a, hseg, hend⟩
  | @writes env buf hnl =>
      obtain ⟨hrep', hgrow, hkeep⟩ := vfsWrite_added hc.represents hnl
      change Continues K _ (got ++ [] ++ r.pc.chunk)
      rw [List.append_nil]
      refine ⟨hrep', a, hseg.trans ?_, ?_⟩
      · obtain ⟨more, hmore⟩ := hgrow
        rw [← hmore, List.flatten_append]
        exact (List.prefix_append _ _).drop a
      · rw [hend]
        exact congrArg (· + sizeOfLoff r.fPos) (hkeep hroom).symm

/-- A run that evicts nothing continues the segment.
Source: `handler.c`, `write_to_client`
Kind: L -/
theorem Continues.run : ∀ (steps : List ReplyStep) {r r' : Reply} {got : List UInt8},
    Continues K r (got ++ r.pc.chunk) → Lib.run (Reply.step K) r steps = some r' →
    (∀ t ∈ steps, t.Succeeds) → EvictsNothing K r steps →
    Continues K r' (got ++ sentBytes steps ++ r'.pc.chunk)
  | [], r, r', got, hc, hrun, _, _ => by
      cases hrun
      change Continues K r (got ++ [] ++ r.pc.chunk)
      rw [List.append_nil]
      exact hc
  | t :: steps, r, r', got, hc, hrun, hok, hroom => by
      rw [List.forall_mem_cons] at hok
      obtain ⟨u, hstep, hrest⟩ := run_cons.mp hrun
      have hu := hc.step (Reply.steps_of_step hstep hok.1) hroom.1
      have hend := Continues.run steps hu hrest hok.2 (hroom.2 u hstep)
      have hsent : sentBytes (t :: steps) = t.sent ++ sentBytes steps := rfl
      rw [hsent, ← List.append_assoc]
      exact hend

/-- **Replies are not torn as long as nothing is evicted between the reads that deliver.** In every
run from every reachable state of the device and every position, with any writes by other clients in
between: if no write finds the ring full between the first and the last read that delivers
something, the bytes sent are a contiguous segment of everything ever added to the device.
Source: `handler.c`, `write_to_client`; `main.c`, `aesd_read` and `aesd_write`
Kind: P -/
theorem reply_contiguous (K : KernelLimits) (ops : List DriverOp) (fPos : ℤ)
    (steps : List ReplyStep) (r : Reply)
    (hrun : run (Reply.step K) ⟨.read, (driverRun K ops).dev, fPos⟩ steps = some r)
    (hok : ∀ t ∈ steps, t.Succeeds)
    (hcalm : CalmReply K ⟨.read, (driverRun K ops).dev, fPos⟩ steps) :
    sentBytes steps <:+: r.dev.added.flatten := by
  obtain ⟨before, during, after, rfl, hbefore, hafter, hroom⟩ := hcalm
  obtain ⟨r₂, hrun₂, hrun₃⟩ := run_append.mp hrun
  obtain ⟨r₁, hrun₁, hrun₂⟩ := run_append.mp hrun₂
  rw [List.forall_mem_append, List.forall_mem_append] at hok
  obtain ⟨hrep₁, -, hsent₁⟩ := quiet_run (represents_driverRun K ops) hrun₁ hok.1.1 hbefore
  obtain ⟨hnone, hchunk⟩ := List.append_eq_nil_iff.mp hsent₁
  have hstart : Continues K r₁ ([] ++ r₁.pc.chunk) := by
    rw [hchunk]
    exact ⟨hrep₁, _, List.nil_prefix, Nat.add_zero _⟩
  have hcont := Continues.run during hstart hrun₂ hok.1.2 (hroom r₁ hrun₁)
  obtain ⟨-, hgrow, hsent₃⟩ := quiet_run hcont.represents hrun₃ hok.2 hafter
  obtain ⟨a, hseg, -⟩ := hcont.segment
  have hall : sentBytes (before ++ during ++ after) = sentBytes during ++ sentBytes after := by
    simp only [sentBytes, List.map_append, List.flatten_append] at hnone ⊢
    rw [hnone, List.nil_append]
  have hpart : sentBytes (before ++ during ++ after) <+: [] ++ sentBytes during ++ r₂.pc.chunk := by
    rw [hall, ← hsent₃, List.nil_append]
    exact (List.prefix_append_right_inj _).mpr (List.prefix_append _ _)
  have hgrown : r₂.dev.added.flatten <+: r.dev.added.flatten := by
    obtain ⟨more, hmore⟩ := hgrow
    rw [← hmore, List.flatten_append]
    exact List.prefix_append _ _
  exact (hpart.trans hseg).isInfix.trans ((List.drop_suffix a _).isInfix.trans hgrown.isInfix)

/-- A client is sent `"a\n"`, another one writes `"b\n"`, and the reply goes on with it.
Source: `handler.c`, `write_to_client`
Kind: D -/
def replyWithRoom : List ReplyStep :=
  [.loop .undisturbed (.read (some [97, 10])), .loop .undisturbed (.send [97, 10] 2),
    .other .undisturbed [98, 10], .loop .undisturbed (.read (some [98, 10])),
    .loop .undisturbed (.send [98, 10] 2), .loop .undisturbed (.read (some []))]

/-- Another write comes between the two reads of a reply, and nothing is evicted.
Source: `handler.c`, `write_to_client`; `main.c`, the file operations
Kind: N+ -/
theorem reply_contiguous_with_room :
    ∃ r, run (Reply.step .pages4K)
        ⟨.read, (driverRun .pages4K [.write 0 .undisturbed [97, 10]]).dev, 0⟩ replyWithRoom = some r ∧
      sentBytes replyWithRoom <:+: r.dev.added.flatten := by
  obtain ⟨r, hr⟩ := Option.isSome_iff_exists.mp (show (run (Reply.step .pages4K)
    ⟨.read, (driverRun .pages4K [.write 0 .undisturbed [97, 10]]).dev, 0⟩ replyWithRoom).isSome = true
    by decide +kernel)
  refine ⟨r, hr, reply_contiguous .pages4K [.write 0 .undisturbed [97, 10]] 0 replyWithRoom r hr ?_ ?_⟩
  · simp [replyWithRoom, ReplyStep.Succeeds, Event.Succeeds]
  · refine ⟨[], replyWithRoom, [], by simp, by simp, by simp, ?_⟩
    rintro r' ⟨⟩
    decide +kernel

/-- The ring is full, its oldest entry has eleven bytes and the others one. A client is sent the
oldest entry, another one writes `"bcd\n"`, which evicts it, and the reply goes on with byte eleven
of what is left.
Source: `handler.c`, `write_to_client`
Kind: D -/
def replyOverEviction : List ReplyStep :=
  [.loop .undisturbed (.read (some (List.replicate 10 97 ++ [10]))),
    .loop .undisturbed (.send (List.replicate 10 97 ++ [10]) 11),
    .other .undisturbed [98, 99, 100, 10],
    .loop .undisturbed (.read (some [100, 10])), .loop .undisturbed (.send [100, 10] 2),
    .loop .undisturbed (.read (some []))]

/-- Replies are torn in general.
Source: `handler.c`, `write_to_client`; `main.c`, the file operations
Kind: N− -/
theorem reply_torn :
    ¬ ∀ (K : KernelLimits) (ops : List DriverOp) (fPos : ℤ) (steps : List ReplyStep) (r : Reply),
      run (Reply.step K) ⟨.read, (driverRun K ops).dev, fPos⟩ steps = some r →
      (∀ t ∈ steps, t.Succeeds) → sentBytes steps <:+: r.dev.added.flatten := by
  intro h
  have hrun : (run (Reply.step .pages4K) ⟨.read, (driverRun .pages4K
      (.write 0 .undisturbed (List.replicate 10 97 ++ [10]) ::
        List.replicate 9 (.write 0 .undisturbed [10]))).dev, 0⟩ replyOverEviction).map
      (fun r => r.dev.added.flatten) =
        some (List.replicate 10 97 ++ List.replicate 10 10 ++ [98, 99, 100, 10]) := by decide +kernel
  obtain ⟨r, hr, hadded⟩ := Option.map_eq_some_iff.mp hrun
  have hseg := h _ _ _ _ r hr (by simp [replyOverEviction, ReplyStep.Succeeds, Event.Succeeds])
  rw [hadded] at hseg
  exact absurd hseg (by decide +kernel)

end replies

end Aesd.Server
