/-
BrokerExam/Proofs/Exam/Serving.lean

A broker that answers, as its clients see it.  Connections are made, requests
are sent on them, and when all requests have been sent each connection brings
one answer (`Serves`).  The broker may put the answers on the connections in any
order, at any time and in any pieces: a client that waits for its answer
receives it as it was framed, and the other connections stay as they are.

Main result: `Serves.receives`.
-/
import BrokerExam.Exam.Setting
import BrokerExam.Proofs.Client.Receive
import BrokerExam.Proofs.Verdict.Judge
import Mathlib.Data.List.Forall2

namespace BrokerExam.Exam

/-! ### A broker and its connections -/

/-- How a connection stands: no request has been sent on it, or a request has, or so much of the
answer to the request is still to be read. -/
inductive Standing
  | silent
  | asked
  | answering (inc : Incoming)

/-- Connections in the order in which they were made. -/
abbrev Connections (m : Type → Type) [Network m] := List (Network.Connection m × Standing)

section Serving

variable {η σ : Type} [Journal (EStateM η σ)] [Clock (EStateM η σ)] [Network (EStateM η σ)]

/-- All that comes in on the `n`-th connection is one message, `reply n`, the payload of which does
not stay out for longer than the client waits. -/
def Answers (s : Setting) (reply : Nat → Bytes) :
    Network.Connection (EStateM η σ) × Nat → Network.Connection (EStateM η σ) × Standing → Prop :=
  fun (c, n) there => ∃ inc, there = (c, .answering inc) ∧ inc.bytes = frame (reply n) ∧
    Prompt s.client.readTimeout [reply n] inc.arrivals

/-- The broker of the environment accepts connections and answers the request on the `n`-th with
`reply n`.  Here `sees` says of a state what the time is and how the connections stand.  The broker
is free in when it answers, which may hang on all requests, and in what pieces. -/
structure Serves (s : Setting) (reply : Nat → Bytes)
    (sees : σ → Int → Connections (EStateM η σ) → Prop) : Prop where
  journals (start : Int) (cs : Connections (EStateM η σ)) :
    Journals η fun w => ∃ t, start ≤ t ∧ sees w t cs
  now {w : σ} {t : Int} {cs : Connections (EStateM η σ)} : sees w t cs →
    ∃ t' w', (Clock.now : EStateM η σ Int) w = .ok t' w' ∧ t ≤ t' ∧ sees w' t' cs
  connect {w : σ} {t : Int} {cs : Connections (EStateM η σ)} : sees w t cs →
    ∃ c t' w', (Network.connect s.address : EStateM η σ _) w = .ok (.ok c) w' ∧
      sees w' t' (cs ++ [(c, .silent)])
  /-- A request can be sent on each connection that is silent. -/
  write {w : σ} {t : Int} {before after : Connections (EStateM η σ)}
    {c : Network.Connection (EStateM η σ)} {request : Bytes} (deadline : Int) :
    sees w t (before ++ (c, .silent) :: after) → request.length < 0x80000000 →
    ∃ t' w', Network.write c (frame request) deadline w = .ok (.done ()) w' ∧
      sees w' t' (before ++ (c, .asked) :: after)
  /-- Once a request has been sent on every connection, it is settled when the answers come in. -/
  answers {w : σ} {t : Int} {cs : List (Network.Connection (EStateM η σ))} :
    sees w t (cs.map (·, .asked)) →
    ∃ answering, List.Forall₂ (Answers s reply) (cs.zipIdx 1) answering ∧ sees w t answering
  /-- Time goes by while an answer is read, and the other connections stay as they are. -/
  read {w : σ} {t : Int} {before after : Connections (EStateM η σ)}
    {c : Network.Connection (EStateM η σ)} {inc : Incoming} {limit : Nat}
    {deadline : Option Int} : sees w t (before ++ (c, .answering inc) :: after) → 0 < limit →
    (deadline = none → inc.next? ≠ none) →
    ∃ result w' t' inc', Network.read c limit deadline w = .ok result w' ∧ t ≤ t' ∧
      Reading limit deadline t t' inc result inc' ∧
      sees w' t' (before ++ (c, .answering inc') :: after)
  finish {w : σ} {t : Int} {cs : Connections (EStateM η σ)}
    (c : Network.Connection (EStateM η σ)) : sees w t cs →
    ∃ t' w', Network.finish c w = .ok (.ok ()) w' ∧ sees w' t' cs

variable {s : Setting} {reply : Nat → Bytes}
  {sees : σ → Int → Connections (EStateM η σ) → Prop}

namespace Serves

/-- A connection that is answered brings the answer, and the others stay as they are. -/
theorem brings (serves : Serves s reply sees)
    (before after : Connections (EStateM η σ)) (c : Network.Connection (EStateM η σ)) :
    Brings c fun w t inc => sees w t (before ++ (c, .answering inc) :: after) where
  now := serves.now
  record := by
    intro w t inc e seen
    obtain ⟨w', run, t', later, seen'⟩ := (serves.journals t _).record e ⟨t, Int.le_refl t, seen⟩
    exact ⟨t', w', run, later, seen'⟩
  read := serves.read

variable {w : σ} {t : Int} {cs before after : Connections (EStateM η σ)} {α : Type}
  {Q : Except Failure α → σ → Prop}

/-- What is told leaves the connections as they are. -/
theorem tell (serves : Serves s reply sees) (seen : sees w t cs) {e : Entry}
    {f : Unit → Tried (EStateM η σ) α} (next : ∀ w' t', sees w' t' cs → Ends w' (f ()) Q) :
    Ends w (Journal.record e >>= f) Q := by
  obtain ⟨w', run, t', -, seen'⟩ := (serves.journals t cs).record e ⟨t, Int.le_refl t, seen⟩
  exact Ends.step (run_lift_of_ok run) (next w' t' seen')

/-! ### What each client does -/

/-- A client connects at once. -/
theorem connects (serves : Serves s reply sees) (seen : sees w t cs) :
    Succeeds w (s.connect : Tried (EStateM η σ) (Client (EStateM η σ))) fun c w' =>
      c.config = s.client ∧ ∃ t', sees w' t' (cs ++ [(c.connection, .silent)]) := by
  obtain ⟨c, t', w', run, seen'⟩ := serves.connect seen
  unfold Setting.connect Client.connect
  cases s.client.connectRetries with
  | zero =>
    have connected : (attempt (.connect s.address 0) (Network.connect s.address) :
        Tried (EStateM η σ) _).run w = .ok (.ok c) w' := bind_of_ok run
    exact Ends.step connected <| serves.tell seen' fun _ t'' seen'' =>
      Succeeds.pure ⟨rfl, t'', seen''⟩
  | succ left =>
    exact Ends.step (run_lift_of_ok run) <| serves.tell seen' fun _ t'' seen'' =>
      Succeeds.pure ⟨rfl, t'', seen''⟩

/-- A client sends its request. -/
theorem sends (serves : Serves s reply sees) {c : Client (EStateM η σ)} {β : Type} [RequestBody β]
    {r : Request β} {request : Bytes} {lines : List String}
    (seen : sees w t (before ++ (c.connection, .silent) :: after))
    (encoded : r.encode = .ok (frame request)) (short : request.length < 0x80000000)
    (shown : Tree.lines r.encoding.fields = .ok lines) :
    Succeeds w (c.sendRequest r) fun _ w' =>
      ∃ t', sees w' t' (before ++ (c.connection, .asked) :: after) := by
  rw [Client.sendRequest, encoded]
  refine Ends.step rfl ?_
  refine serves.tell seen fun w₁ t₁ seen₁ => ?_
  rw [shown]
  refine Ends.step rfl ?_
  obtain ⟨w₂, told, t₂, -, seen₂⟩ := (Settles.tell (serves.journals t₁ _) .debug lines).within
    (serves.journals t₁ _) "Encoder" w₁ ⟨t₁, Int.le_refl t₁, seen₁⟩
  refine Ends.step told ?_
  -- the time by which the request has to be written begins when it has been shown
  refine serves.tell seen₂ fun w₃ t₃ seen₃ => ?_
  obtain ⟨t₄, w₄, clock, -, seen₄⟩ := serves.now seen₃
  obtain ⟨t', w', written, seen'⟩ := serves.write (t₄ + c.config.writeTimeout) seen₄ short
  rw [Client.send]
  refine Ends.step (run_lift_of_ok clock) (Ends.step (run_lift_of_ok written) ?_)
  exact Succeeds.pure ⟨t', seen'⟩

/-- A client receives the answer on its connection. -/
theorem receives (serves : Serves s reply sees) {c : Client (EStateM η σ)} {inc : Incoming}
    {p : Bytes} (config : c.config = s.client)
    (seen : sees w t (before ++ (c.connection, .answering inc) :: after))
    (short : p.length < 0x80000000) (bytes : inc.bytes = frame p)
    (prompt : Prompt s.client.readTimeout [p] inc.arrivals) (api : ApiKey) :
    Succeeds w (c.receiveResponse api) fun f w' => f = ⟨frame p⟩ ∧ ∃ inc' t',
      sees w' t' (before ++ (c.connection, .answering inc') :: after) := by
  have brings := serves.brings before after c.connection
  rw [← config] at prompt
  have whole : inc.bytes = frame p ++ [] := by rw [bytes, List.append_nil]
  have framed : inc.bytes = [p].flatMap frame ++ [] := by simpa using bytes
  have inTime := brings.inTime_of_prompt (c := c) seen (List.forall_mem_singleton.2 short) framed
    prompt
  obtain ⟨w₁, t₁, run, seen₁⟩ := brings.receive_whole (c := c) seen short whole inTime.1
  unfold Client.receiveResponse
  refine Ends.step (run_lift_of_ok run) ?_
  exact serves.tell seen₁ fun w' t' seen' => Succeeds.pure ⟨rfl, _, t', seen'⟩

end Serves

end Serving

end BrokerExam.Exam
