/-
# Messages from one end to the other

What the threads that share a `tcp_session` write at one end, a `tcp_client_sync` reads at the
other.  TCP hands over the bytes in order; the boundaries of the messages are lost in the batches
of the writer, in the segments of the network and in what a read that times out leaves in the
buffer.  A delimiter that ends every message brings them back (`messages_arrive`).
-/
import Libsg.TcpClientSync
import Libsg.TcpSessionWriter
import Mathlib.Data.List.Infix

open TransitionSystem Delimiter

namespace TcpMessages

open TcpClientSync

variable {ν : Type*} {A : Asio ν} {network : ν}

/-- The strings that `read_until()` returned since the client last began to connect, one by one. -/
def messagesSince (tr : List (Call × Except Exn Buffer)) : List Buffer :=
  tr.foldl (fun messages shown =>
    match shown with
    | (.connect, .error e) => if e = Client.alreadyConnected then messages else []
    | (.connect, .ok _) => []
    | (.readUntil _, .ok r) => messages ++ [r]
    | _ => messages) []

/-- The client reads up to the delimiter, and in no other way. -/
def ReadsUntil (d : Buffer) (_ : Client ν) (k : Call) : Prop := k.isRead = true → k = .readUntil d

instance (d : Buffer) (c : Client ν) (k : Call) : Decidable (ReadsUntil d c k) :=
  inferInstanceAs (Decidable (k.isRead = true → k = .readUntil d))

theorem messagesSince_snoc (tr : List (Call × Except Exn Buffer)) (k : Call)
    (out : Except Exn Buffer) :
    messagesSince (tr ++ [(k, out)]) =
      match k, out with
      | .connect, .error e => if e = Client.alreadyConnected then messagesSince tr else []
      | .connect, .ok _ => []
      | .readUntil _, .ok r => messagesSince tr ++ [r]
      | _, _ => messagesSince tr := by
  rw [messagesSince, List.foldl_append]
  cases k <;> cases out <;> rfl

/-- The messages are frames, and make up what has been returned. -/
structure Framed (d : Buffer) (tr : List (Call × Except Exn Buffer)) (c : Client ν) : Prop where
  frames : ∀ m ∈ messagesSince tr, Frame d m
  returned : (messagesSince tr).flatten = c.returned

namespace Framed

variable {d : Buffer} {tr : List (Call × Except Exn Buffer)} {c : Client ν}

/-- Nothing is returned, and no connection is begun. -/
theorem same (h : Framed d tr c) {k : Call} {out : Except Exn Buffer} {c' : Client ν}
    (hmessages : messagesSince (tr ++ [(k, out)]) = messagesSince tr)
    (hreturned : c'.returned = c.returned) : Framed d (tr ++ [(k, out)]) c' where
  frames := by
    rw [hmessages]
    exact h.frames
  returned := by
    rw [hmessages, hreturned]
    exact h.returned

theorem connect (h : Framed d tr c) :
    Framed d (tr ++ [(.connect, (c.call A .connect).1)]) (c.call A .connect).2 := by
  rcases c.connect_cases (A := A) with ⟨-, hrefused⟩ | ⟨-, -, hreturned, hout⟩
  · rw [Client.call, hrefused]
    exact h.same (messagesSince_snoc ..) rfl
  · have hnone : messagesSince (tr ++ [(.connect, (c.connect A).1)]) = [] := by
      rw [messagesSince_snoc]
      cases hresult : (c.connect A).1 with
      | ok r => rfl
      | error e =>
        have hne : e ≠ Client.alreadyConnected := by
          rintro rfl
          exact hout hresult
        exact if_neg hne
    constructor
    · rw [Client.call, hnone]
      simp
    · rw [Client.call, hnone, hreturned]
      rfl

theorem readUntil (hA : A.Documented) (h : Framed d tr c) :
    Framed d (tr ++ [(.readUntil d, (c.call A (.readUntil d)).1)])
      (c.call A (.readUntil d)).2 := by
  by_cases hopen : c.isOpen = true
  · have hreads := c.reads_returned (c.call_reads (A := A) hopen (k := .readUntil d) rfl)
    cases hresult : (c.call A (.readUntil d)).1 with
    | error e =>
      rw [hresult] at hreads
      exact h.same (messagesSince_snoc ..) hreads
    | ok r =>
      rw [hresult] at hreads
      obtain ⟨bytes, n, -, hr, hends⟩ :=
        Client.readUntil_ok hA (Prod.ext hresult rfl : c.readUntil A d = (.ok r, _))
      have hsnoc : messagesSince (tr ++ [(.readUntil d, .ok r)]) = messagesSince tr ++ [r] :=
        messagesSince_snoc ..
      constructor
      · rw [hsnoc]
        intro m hm
        rcases List.mem_append.mp hm with hm | hm
        · exact h.frames m hm
        · rw [List.mem_singleton.mp hm, hr]
          exact hends.frame
      · rw [hsnoc, List.flatten_append, h.returned, List.flatten_singleton]
        exact hreads.symm
  · have hclosed := c.call_closed (A := A) (by simpa using hopen) (k := .readUntil d) rfl
    rw [hclosed]
    exact h.same (messagesSince_snoc ..) rfl

/-- **Every step keeps the messages framed.** -/
theorem call (hA : A.Documented) (h : Framed d tr c) {k : Call} (hk : ReadsUntil d c k) :
    Framed d (tr ++ [(k, (c.call A k).1)]) (c.call A k).2 := by
  cases k with
  | connect => exact h.connect
  | readUntil delimiter =>
    cases hk rfl
    exact h.readUntil hA
  | readSome => cases hk rfl
  | read size => cases hk rfl
  | disconnect =>
    exact h.same (messagesSince_snoc ..) (c.disconnect_buffers (A := A)).2.2.1
  | write data =>
    refine h.same ?_ (c.write_buffers (A := A) data).2.2.1
    rw [messagesSince_snoc]

end Framed

theorem framed_of_run {d : Buffer} (hA : A.Documented) {tr : List (Call × Except Exn Buffer)}
    {c : Client ν} (h : (system A network).Run (ReadsUntil d) tr c) : Framed d tr c := by
  refine Run.invariant (I := Framed d) ⟨by simp [messagesSince], rfl⟩ ?_ h
  rintro tr c k c' es - hk hstep hframed
  cases hstep
  exact hframed.call hA hk

/-- **Messages arrive whole and in order.**  However many threads write to the session and however
the bytes reach the client, what `read_until()` has returned are the first messages that the
session has accepted, and the buffer holds the beginning of those still to come, provided that each
of them ends with its first delimiter and that what the client has received is the beginning of
what the session has passed to `async_write`. -/
theorem messages_arrive {τ : Type} [DecidableEq τ] {o : TcpSession.Options} (hA : A.Documented)
    {d : Buffer} (hd : d ≠ []) {trWrite : List TcpSession.Event} {s : TcpSession.Session τ}
    (hwrite : (TcpSession.system τ o).Reachable trWrite s)
    (hframes : ∀ m ∈ TcpSession.acceptedMsgs trWrite, Frame d m)
    {tr : List (Call × Except Exn Buffer)} {c : Client ν}
    (hread : (system A network).Run (ReadsUntil d) tr c)
    (hwire : c.received <+: (TcpSession.asyncWrites trWrite).flatten.flatten) :
    ∃ rest, messagesSince tr ++ rest = TcpSession.acceptedMsgs trWrite ∧
      c.readBuffer <+: rest.flatten := by
  obtain ⟨hframed, hreturned⟩ := framed_of_run hA hread
  have hstream : c.returned ++ c.readBuffer = c.received :=
    (streamOf_reachable hread.reachable).stream
  have hpassed : (TcpSession.asyncWrites trWrite).flatten <+: TcpSession.acceptedMsgs trWrite := by
    rw [TcpSession.fifoInv hwrite, List.append_assoc]
    exact List.prefix_append _ _
  have haccepted : c.received <+: (TcpSession.acceptedMsgs trWrite).flatten :=
    hwire.trans hpassed.flatten
  rw [← hstream, ← hreturned] at haccepted
  have hprefix : messagesSince tr <+: TcpSession.acceptedMsgs trWrite :=
    Frame.prefix_of_flatten hd hframed hframes ((List.prefix_append _ _).trans haccepted)
  obtain ⟨rest, hrest⟩ := hprefix
  refine ⟨rest, hrest, ?_⟩
  rw [← hrest, List.flatten_append] at haccepted
  exact (List.prefix_append_right_inj _).mp haccepted

section Sample

/-- Two lines, each written by a thread of its own, leave in one batch. -/
def twoLines : List (TcpSession.Action ℕ) :=
  TcpSession.connectRun ++ ([
    .call (.thread 1) (.write [49, 10]), .step (.thread 1) .ok,
    .call (.thread 2) (.write [50, 51, 10]), .step (.thread 2) .ok, .step (.thread 1) .ok,
    .runHandler, .step .strand .ok, .step .strand .ok] : List (TcpSession.Action ℕ))

/-- The bytes of the two lines, cut elsewhere, with a timeout in the first line. -/
def cutLines : List Arrival := [.bytes [49], .fails .operationAborted, .bytes [10, 50, 51]]

/-- The first line is read in the second attempt, and the second one has begun to arrive. -/
theorem messages_arrive_twoLines : ∃ trWrite s tr c,
    (TcpSession.system ℕ {}).Reachable trWrite s ∧
      (system scripted cutLines).Run (ReadsUntil [10]) tr c ∧ messagesSince tr = [[49, 10]] ∧
      ∃ rest, messagesSince tr ++ rest = TcpSession.acceptedMsgs trWrite ∧
        c.readBuffer <+: rest.flatten := by
  have hwrite := reachable_exec (M := TcpSession.system ℕ {})
    (by decide : ((TcpSession.system ℕ {}).exec twoLines).isSome = true)
  have hexec : (system scripted cutLines).exec [.connect, .readUntil [10], .readUntil [10]] =
      some (⟨[], true, [50, 51], [49, 10, 50, 51], [49, 10]⟩,
        [(.connect, .ok []), (.readUntil [10], .error .timeOut),
          (.readUntil [10], .ok [49, 10])]) := by
    decide +kernel
  have hread : (system scripted cutLines).Run (ReadsUntil [10]) _ _ :=
    runFrom_of_execFrom (by decide +kernel) hexec
  have haccepted : TcpSession.acceptedMsgs (((TcpSession.system ℕ {}).exec twoLines).get
      (by decide)).2 = [[49, 10], [50, 51, 10]] := by decide
  refine ⟨_, _, _, _, hwrite, hread, rfl,
    messages_arrive scripted_documented (by decide) hwrite ?_ hread (by decide)⟩
  rw [haccepted]
  intro m hm
  rcases List.mem_cons.mp hm with rfl | hm
  · exact search_eq_some_iff.mp (by decide : search [(10 : UInt8)] [49, 10] = some 2)
  · rw [List.mem_singleton.mp hm]
    exact search_eq_some_iff.mp (by decide : search [(10 : UInt8)] [50, 51, 10] = some 3)

end Sample

end TcpMessages
