import Aesd.Server.Handler

/-!
# What `write_to_client` reports (`server/handler.c`)

The loop reads from the device and sends what it has read, until a `read` returns nothing. The test
`n < 0` stands inside the loop, whose condition is `n > 0`, so it is never reached: a `read` that
fails ends the loop as the end of the file does, and the function returns zero.

* `Forwarded events pc` — what the calls of the loop have transferred, for each place in it;
* `delivery_reported_iff` — the value returned says whether everything up to the end of the file was
  sent exactly when no `read` has failed.
-/

namespace Aesd.Server

open Aesd.Lib Aesd.Driver

/-! ### What is read and what is sent -/

/-- The bytes a `read` delivers.
Source: `handler.c`, `handle_connection` and `write_to_client`
Kind: D -/
def Event.fetched : Event → List UInt8
  | .read (some bytes) => bytes
  | _ => []

/-- The bytes that a `send` has sent: as many as it says.
Source: `handler.c`, `handle_connection` and `write_to_client`
Kind: D -/
def Event.delivered : Event → List UInt8
  | .send bytes sent => bytes.take sent.toNat
  | _ => []

/-- Everything read, in order.
Source: `handler.c`, `handle_connection` and `write_to_client`
Kind: D -/
def fetched (events : List Event) : List UInt8 := (events.map Event.fetched).flatten

/-- Everything sent, in order.
Source: `handler.c`, `handle_connection` and `write_to_client`
Kind: D -/
def delivered (events : List Event) : List UInt8 := (events.map Event.delivered).flatten

/-- The end of the file was read last, and everything read before it was sent in order.
Source: `handler.c`, `handle_connection`
Kind: D -/
def Delivered (events : List Event) : Prop :=
  (∃ calls, events = calls ++ [.read (some [])]) ∧ delivered events = fetched events

section delivery

variable {events : List Event} {ev : Event} {pc pc' : ReplyPc} {ok : Bool}

/-- What one more event has fetched.
Source: none: infrastructure
Kind: L -/
theorem fetched_concat (events : List Event) (ev : Event) :
    fetched (events ++ [ev]) = fetched events ++ ev.fetched := by
  simp [fetched]

/-- What one more event has delivered.
Source: none: infrastructure
Kind: L -/
theorem delivered_concat (events : List Event) (ev : Event) :
    delivered (events ++ [ev]) = delivered events ++ ev.delivered := by
  simp [delivered]

/-! ### The loop -/

/-- What the calls of the loop have transferred when it is at a place: before it has returned, every
`read` delivered something, and all of it but the last chunk was sent.
Source: `handler.c`, `handle_connection` and `write_to_client`
Kind: D -/
def Forwarded (events : List Event) : ReplyPc → Prop
  | .read => Event.read none ∉ events ∧ delivered events = fetched events
  | .send chunk => Event.read none ∉ events ∧ delivered events ++ chunk = fetched events
  | .returned true => ∃ calls, Event.read none ∉ calls ∧ delivered calls = fetched calls ∧
      (events = calls ++ [.read (some [])] ∨ events = calls ++ [.read none])
  | .returned false => Event.read none ∉ events ∧ ∃ calls bytes sent,
      events = calls ++ [.send bytes sent]

/-- A read fetches a chunk, ends the reply, or fails.
Source: `handler.c`, `write_to_client`
Kind: L -/
theorem Forwarded.read {result : Option (List UInt8)} (hf : Forwarded events .read)
    (hev : writeToClient .read (.read result) = some pc') :
    Forwarded (events ++ [.read result]) pc' := by
  obtain ⟨hclean, hsame⟩ := hf
  cases result with
  | none =>
      cases hev
      exact ⟨events, hclean, hsame, Or.inr rfl⟩
  | some bytes =>
      cases bytes with
      | nil =>
          cases hev
          exact ⟨events, hclean, hsame, Or.inl rfl⟩
      | cons b bytes =>
          rw [writeToClient, Option.ite_none_right_eq_some] at hev
          cases hev.2
          refine ⟨?_, ?_⟩
          · rw [List.mem_append, List.mem_singleton]
            exact not_or_intro hclean (by rintro ⟨⟩)
          · rw [delivered_concat, fetched_concat, hsame]
            change (fetched events ++ []) ++ (b :: bytes) = _
            rw [List.append_nil]
            rfl

/-- A send delivers the chunk or ends the reply.
Source: `handler.c`, `write_to_client`
Kind: L -/
theorem Forwarded.send {chunk bytes : List UInt8} {sent : ℤ} (hf : Forwarded events (.send chunk))
    (hev : writeToClient (.send chunk) (.send bytes sent) = some pc') :
    Forwarded (events ++ [.send bytes sent]) pc' := by
  obtain ⟨hclean, hrest⟩ := hf
  have hclean' : Event.read none ∉ events ++ [.send bytes sent] := by
    rw [List.mem_append, List.mem_singleton]
    exact not_or_intro hclean (by rintro ⟨⟩)
  rw [writeToClient, Option.ite_none_right_eq_some] at hev
  obtain ⟨rfl, hev⟩ := hev
  split_ifs at hev with hshort
  · cases hev
    exact ⟨hclean', events, bytes, sent, rfl⟩
  · cases hev
    obtain rfl : sent = bytes.length := not_ne_iff.mp hshort
    refine ⟨hclean', ?_⟩
    rw [delivered_concat, fetched_concat, ← hrest, Event.delivered, Int.toNat_natCast,
      List.take_length]
    exact (List.append_nil _).symm

/-- Every call of the reply keeps what is delivered behind what is fetched.
Source: `handler.c`, `write_to_client`
Kind: L -/
theorem Forwarded.step (hf : Forwarded events pc) (hev : writeToClient pc ev = some pc') :
    Forwarded (events ++ [ev]) pc' := by
  cases pc with
  | read =>
      cases ev with
      | read result => exact hf.read hev
      | _ => cases hev
  | send chunk =>
      cases ev with
      | send bytes sent => exact hf.send hev
      | _ => cases hev
  | returned ok => cases hev

/-- So it is along every run of the reply.
Source: `handler.c`, `write_to_client`
Kind: L -/
theorem forwarded_of_run (hrun : run writeToClient .read events = some pc) :
    Forwarded events pc := by
  have hstart : Forwarded [] .read := ⟨List.not_mem_nil, rfl⟩
  refine run_induction (P := Forwarded) hstart ?_ hrun
  intro events pc ev pc' _ hf hev
  exact hf.step hev

/-- **What is reported of a delivery.** When `write_to_client` has returned, whatever the calls
returned on the way: that it returns zero if and only if the end of the file was read and every byte
read before it was sent in order is so exactly when no `read` has failed.
Source: `handler.c`, `write_to_client`
Kind: P -/
theorem delivery_reported_iff (hrun : run writeToClient .read events = some (.returned ok)) :
    (ok = true ↔ Delivered events) ↔ Event.read none ∉ events := by
  have hf := forwarded_of_run hrun
  have hlast : ∀ {calls : List Event} {last : Event}, events = calls ++ [last] →
      Delivered events → last = .read (some []) := by
    rintro calls last rfl ⟨⟨calls', heq⟩, -⟩
    exact (List.append_inj' heq rfl).2 |> List.singleton_inj.mp
  cases ok with
  | false =>
      obtain ⟨hclean, calls, bytes, sent, heq⟩ := hf
      refine iff_of_true (iff_of_false Bool.false_ne_true fun h => ?_) hclean
      cases hlast heq h
  | true =>
      obtain ⟨calls, hclean, hsame, heq | heq⟩ := hf
      · have hall : Delivered events := by
          refine ⟨⟨calls, heq⟩, ?_⟩
          rw [heq, delivered_concat, fetched_concat, hsame]
          rfl
        refine iff_of_true (iff_of_true rfl hall) ?_
        rw [heq, List.mem_append, List.mem_singleton]
        exact not_or_intro hclean (by rintro ⟨⟩)
      · refine iff_of_false (fun h => ?_) fun h => ?_
        · cases hlast heq (h.mp rfl)
        · rw [heq] at h
          exact h List.mem_concat_self

/-- One byte is read and sent, then the file ends.
Source: `handler.c`, `write_to_client`
Kind: N+ -/
theorem delivery_reported_one_byte :
    Delivered [.read (some [97]), .send [97] 1, .read (some [])] := by
  have hrun : run writeToClient .read [.read (some [97]), .send [97] 1, .read (some [])] =
      some (.returned true) := by decide
  refine ((delivery_reported_iff hrun).mpr ?_).mp rfl
  simp

/-- A first `read` that fails is reported as a success.
Source: `handler.c`, `write_to_client`
Kind: N− -/
theorem failed_read_reported :
    ∃ ok, run writeToClient .read [.read none] = some (.returned ok) ∧
      ¬ (ok = true ↔ Delivered [.read none]) := by
  refine ⟨true, rfl, fun h => ?_⟩
  obtain ⟨⟨calls, heq⟩, -⟩ := h.mp rfl
  have hlast := congrArg List.getLast? heq
  rw [List.getLast?_concat] at hlast
  cases hlast

end delivery

end Aesd.Server
