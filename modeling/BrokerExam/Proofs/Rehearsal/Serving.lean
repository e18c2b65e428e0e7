/-
BrokerExam/Proofs/Rehearsal/Serving.lean

A made-up broker that answers.  It is settled beforehand what it answers on each
connection, how long after the request, and whether it closes the connection
then (`Answering`).  A request that comes in is turned into steps, from which
the connection brings the answer.

Main result: `Answering.serves`.
-/
import BrokerExam.Proofs.Exam.Serving

namespace BrokerExam.Rehearsal

open Exam

/-- What a broker answers on each connection, by its number from 1. -/
structure Answering where
  reply : Nat → Bytes
  /-- How long after the request. -/
  delay : Nat → Nat := fun _ => 0
  /-- Whether it closes the connection behind the answer. -/
  closes : Nat → Bool := fun _ => false

namespace Link

/-- A request is taken as it was framed. -/
theorem nextRequest_frame {request : Bytes} (short : request.length < 0x80000000) :
    nextRequest (frame request) = some (request, []) := by
  have small : request.length < BigEndian.span 4 := Nat.lt_trans short (by decide)
  have size : BigEndian.decode ((frame request).take 4) = request.length := by
    rw [show (frame request).take 4 = BigEndian.encode 4 request.length from Frame.take_parts,
      BigEndian.decode_encode, Nat.mod_eq_of_lt small]
  have behind : (frame request).drop 4 = request := Frame.payload_frame request
  have length : 4 + request.length = (frame request).length := (Frame.length_frame request).symm
  rw [nextRequest, size, length, if_neg (Nat.lt_irrefl _), behind, List.take_length,
    List.drop_length]

end Link

namespace World

variable {w : World} {i : Nat} {l : Link}

/-- Where no request is complete, nothing is done. -/
theorem serve_incomplete (here : w.links[i]? = some l)
    (incomplete : Link.nextRequest l.partialRequest = none) (fuel : Nat) :
    serve i fuel w = .ok () w := by
  cases fuel with
  | zero => rfl
  | succ fuel =>
    rw [serve, bind_of_ok (run_link? here)]
    simp only [incomplete]
    rfl

/-- One request leads to the steps with which it is answered. -/
theorem serve_request {request : Bytes} {steps : List Step} {conduct : Conduct}
    (here : w.links[i]? = some l) (taken : l.partialRequest = frame request)
    (short : request.length < 0x80000000)
    (answered : answer l.conduct request w = .ok (steps, conduct) w) (fuel : Nat) :
    serve i (fuel + 1) w = .ok ()
      (w.reached i (Link.plan w.time steps { l with conduct, partialRequest := [] }) w.time) := by
  rw [serve, bind_of_ok (run_link? here)]
  simp only [taken, Link.nextRequest_frame short]
  rw [bind_of_ok answered]
  exact serve_incomplete (reached_here here _ w.time) rfl fuel

/-- A request that is written is taken, and leads to the steps with which it is answered. -/
theorem write_request {request : Bytes} {steps : List Step} {conduct : Conduct} {deadline : Int}
    (here : w.links[i]? = some l) (hears : l.conduct ≠ .deaf) (first : l.partialRequest = [])
    (short : request.length < 0x80000000)
    (answered : ∀ w, answer l.conduct request w = .ok (steps, conduct) w) :
    Network.write (m := InWorld) i (frame request) deadline w = .ok (.done ()) (w.reached i
      (Link.plan w.time steps
        { l with conduct, taken := l.taken ++ frame request, partialRequest := [] }) w.time) := by
  let asked : Link := { l with taken := l.taken ++ frame request, partialRequest := frame request }
  have set : setLink i { l with
        taken := l.taken ++ frame request, partialRequest := l.partialRequest ++ frame request } w =
      .ok () (w.reached i asked w.time) := by
    rw [first]
    rfl
  -- as many requests could be served as there are bytes, of which there are at least four
  have served := serve_request (l := asked) (reached_here here asked w.time) rfl short (answered _)
    (request.length + 3)
  rw [reached_reached] at served
  have fuel : l.partialRequest.length + (frame request).length = request.length + 3 + 1 := by
    rw [first, Frame.length_frame, List.length_nil, Frame.sizeBytes]
    omega
  show (link? i >>= _) w = _
  rw [bind_of_ok (run_link? here)]
  simp only [if_neg hears]
  rw [bind_of_ok set, fuel, bind_of_ok served]
  rfl

end World

namespace Answering

variable (b : Answering) {now now' n : Nat} {l : Link} {st : Standing}

def conduct (n : Nat) : Conduct := .canned (b.delay n) (frame (b.reply n)) false (b.closes n)

/-- The steps with which the broker answers. -/
def steps (n : Nat) : List Step :=
  ⟨b.delay n, .write (frame (b.reply n))⟩ :: if b.closes n then [⟨0, .close⟩] else []

/-! ### Answers -/

/-- What a connection brings on which the request came in at a time. -/
def stream (since n : Nat) : Incoming := Link.upcoming since (b.steps n)

theorem arrivals_stream (since : Nat) :
    (b.stream since n).arrivals =
      (frame (b.reply n)).map (⟨(since + b.delay n : Nat), ·⟩) := by
  unfold stream steps
  cases b.closes n <;> simp [Link.upcoming]

theorem bytes_stream (since : Nat) : (b.stream since n).bytes = frame (b.reply n) := by
  simp [Incoming.bytes, arrivals_stream, Function.comp_def]

/-- The answer comes in all at once. -/
theorem prompt_stream (timeout since : Nat) :
    Prompt timeout [b.reply n] (b.stream since n).arrivals := by
  have together (a : Arrival) (ha : a ∈ (b.stream since n).arrivals) :
      a.time = (since + b.delay n : Nat) := by
    rw [arrivals_stream] at ha
    obtain ⟨_, -, rfl⟩ := List.mem_map.1 ha
    rfl
  have sized : (b.stream since n).arrivals.take Frame.sizeBytes ≠ [] := by
    rw [arrivals_stream, ← List.length_pos_iff, List.length_take, List.length_map,
      Frame.length_frame, Nat.min_eq_left (Nat.le_add_right ..)]
    exact Nat.succ_pos 3
  obtain ⟨size, first⟩ := List.exists_mem_of_ne_nil _ sized
  refine ⟨⟨size, first, fun a ha => .inl (Int.le_of_eq ?_)⟩, trivial⟩
  rw [together a (List.mem_of_mem_drop (List.mem_of_mem_take ha)),
    together size (List.mem_of_mem_take first)]

/-- Where the steps have been planned, the connection brings the answer. -/
theorem carries_stream (short : (b.reply n).length < 0x80000000) (opened : l.ending = .open)
    (empty : l.inbox = []) (planned : l.steps = b.steps n) (room : l.capacity = BigEndian.span 8) :
    l.Carries now (b.stream l.since n) := by
  refine .open [] opened ?_ empty.symm nofun ?_ ?_ ?_
  · rw [planned, steps]
    cases b.closes n <;> simp [Link.Orderly]
  · rw [planned, List.nil_append, stream]
  · rw [planned, stream]
  · have small : 4 + (b.reply n).length ≤ BigEndian.span 8 :=
      Nat.le_trans (Nat.add_le_add_left (Nat.le_of_lt short) 4) (by decide)
    rwa [arrivals_stream, List.length_map, Frame.length_frame, room]

/-- The steps are planned when a request has come in. -/
theorem answer_conduct (n : Nat) (request : Bytes) : ∃ conduct, ∀ w,
    World.answer (b.conduct n) request w = .ok (b.steps n, conduct) w := by
  unfold conduct steps
  cases b.closes n
  · exact ⟨_, fun _ => rfl⟩
  · exact ⟨_, fun _ => rfl⟩

/-! ### Connections -/

/-- How a connection stands on which the broker answers. -/
inductive Stands (now n : Nat) : Link → Standing → Prop
  | silent (since : Nat) : Stands now n
      { conduct := b.conduct n, capacity := BigEndian.span 8, since } .silent
  | asked {l : Link} (since : Nat) : l.Carries now (b.stream since n) → Stands now n l .asked
  | answering {l : Link} {inc : Incoming} : l.Carries now inc → Stands now n l (.answering inc)

theorem Stands.later {b : Answering} (h : b.Stands now n l st) (later : now ≤ now') :
    b.Stands now' n l st := by
  cases h with
  | silent since => exact .silent since
  | asked since carries => exact .asked since (carries.later later)
  | answering carries => exact .answering (carries.later later)

/-- The world in which the broker answers, and how its connections stand. -/
structure Sees (w : World) (t : Int) (cs : Connections InWorld) : Prop where
  lasting : w.abandonAt = none
  time : w.time = t
  reception : w.reception = { conduct := fun i => b.conduct (i + 1) }
  length : cs.length = w.links.length
  stands (i : Nat) (x : Network.Connection InWorld × Standing) : cs[i]? = some x →
    x.1 = i ∧ ∃ l, w.links[i]? = some l ∧ b.Stands w.time (i + 1) l x.2

/-- The world before anything has happened. -/
def world : World where
  reception := { conduct := fun i => b.conduct (i + 1) }

theorem sees_world : b.Sees b.world 0 [] := ⟨rfl, rfl, rfl, rfl, nofun⟩

section Seeing

variable {b} {w : World} {t : Int} {before after cs : Connections InWorld}
  {c : Network.Connection InWorld} {st' : Standing} {inc : Incoming}

/-- A connection is the one of its number. -/
theorem Sees.here (h : b.Sees w t (before ++ (c, st) :: after)) : c = before.length ∧
    ∃ l, w.links[before.length]? = some l ∧ b.Stands w.time (before.length + 1) l st :=
  h.stands before.length (c, st) (by simp)

/-- When something happens at a connection, the others stay as they are. -/
theorem Sees.reached (h : b.Sees w t (before ++ (c, st) :: after)) {l' : Link} {t' : Nat}
    (later : w.time ≤ t') (stands : b.Stands t' (before.length + 1) l' st') :
    b.Sees (w.reached before.length l' t') t' (before ++ (c, st') :: after) := by
  obtain ⟨same, l, here, -⟩ := h.here
  refine ⟨h.lasting, rfl, h.reception, ?_, fun i x there => ?_⟩
  · simpa [World.reached] using h.length
  · -- in front of the connection, at it, and behind it
    rcases Nat.lt_trichotomy i before.length with left | rfl | right
    · rw [List.getElem?_append_left left] at there
      obtain ⟨number, l₁, other, stands₁⟩ := h.stands i x (by rwa [List.getElem?_append_left left])
      refine ⟨number, l₁, ?_, stands₁.later later⟩
      rw [World.reached, List.getElem?_set_ne (Nat.ne_of_gt left), other]
    · obtain rfl : (c, st') = x := by simpa using there
      exact ⟨same, l', World.reached_here here l' t', stands⟩
    · obtain ⟨k, rfl⟩ := Nat.exists_eq_add_of_lt right
      have there : after[k]? = some x := by
        simpa [Nat.add_assoc, List.getElem?_append_right] using there
      obtain ⟨number, l₁, other, stands₁⟩ := h.stands (before.length + k + 1) x
        (by simpa [Nat.add_assoc, List.getElem?_append_right] using there)
      refine ⟨number, l₁, ?_, stands₁.later later⟩
      rw [World.reached, List.getElem?_set_ne (Nat.ne_of_lt right), other]

/-! ### What goes on -/

theorem Sees.journals (start : Int) : Journals Blocked fun w => ∃ t, start ≤ t ∧ b.Sees w t cs where
  record e := by
    rintro w ⟨t, later, lasting, time, reception, length, stands⟩
    exact ⟨_, rfl, t, later, lasting, time, reception, length, stands⟩
  within span x a ends := by
    rintro w ⟨t, later, lasting, time, reception, length, stands⟩
    obtain ⟨w₁, run, t₁, later₁, lasting₁, time₁, reception₁, length₁, stands₁⟩ :=
      ends { w with spans := w.spans ++ [span] }
        ⟨t, later, lasting, time, reception, length, stands⟩
    exact ⟨{ w₁ with spans := w.spans }, bind_of_ok run, t₁, later₁, lasting₁, time₁, reception₁,
      length₁, stands₁⟩

theorem Sees.connect (h : b.Sees w t cs) (address : String) : ∃ c t' w',
    (Network.connect address : InWorld _) w = .ok (.ok c) w' ∧
      b.Sees w' t' (cs ++ [(c, .silent)]) := by
  have run : (Network.connect address : InWorld _) w = .ok (.ok w.links.length)
      { w with links := w.links ++
        [{ conduct := b.conduct (w.links.length + 1), capacity := BigEndian.span 8,
           since := w.time }] } := by
    simp only [Network.connect, modifyGet, MonadStateOf.modifyGet]
    delta EStateM.modifyGet
    simp only [h.reception]
  refine ⟨_, t, _, run, h.lasting, h.time, h.reception, ?_, fun i x there => ?_⟩
  · simp [h.length]
  · rcases Nat.lt_trichotomy i cs.length with old | rfl | beyond
    · rw [List.getElem?_append_left old] at there
      obtain ⟨number, l, here, stands⟩ := h.stands i x there
      refine ⟨number, l, ?_, stands⟩
      rw [List.getElem?_append_left (h.length ▸ old), here]
    · obtain rfl : (w.links.length, Standing.silent) = x := by simpa using there
      refine ⟨h.length.symm, _, ?_, .silent w.time⟩
      simp [h.length]
    · have outside : (cs ++ [(w.links.length, Standing.silent)]).length ≤ i := by
        rw [List.length_append]
        exact beyond
      rw [List.getElem?_eq_none outside] at there
      cases there

/-- A request is answered. -/
theorem Sees.write (h : b.Sees w t (before ++ (c, .silent) :: after)) {request : Bytes}
    (short : ∀ n, (b.reply n).length < 0x80000000) (short' : request.length < 0x80000000)
    (deadline : Int) : ∃ t' w',
    (Network.write c (frame request) deadline : InWorld _) w = .ok (.done ()) w' ∧
      b.Sees w' t' (before ++ (c, .asked) :: after) := by
  obtain ⟨rfl, l, here, stands⟩ := h.here
  cases stands with
  | silent since =>
    obtain ⟨conduct, answered⟩ := b.answer_conduct (before.length + 1) request
    refine ⟨w.time, _, World.write_request here nofun rfl short' answered,
      h.reached (Nat.le_refl _) (.asked w.time ?_)⟩
    exact b.carries_stream (short _) rfl rfl rfl rfl

/-- When all requests have come in, each connection brings its answer. -/
theorem Sees.answers {s : Setting} {cs : List (Network.Connection InWorld)}
    (h : b.Sees w t (cs.map (·, .asked))) : ∃ answering,
      List.Forall₂ (Answers s b.reply) (cs.zipIdx 1) answering ∧ b.Sees w t answering := by
  have asked (n : Nat) : ∃ since, ∀ i c, i + 1 = n → cs[i]? = some c → c = i ∧
      ∃ l, w.links[i]? = some l ∧ l.Carries w.time (b.stream since n) := by
    rcases n with - | i
    · exact ⟨0, nofun⟩
    · rcases there : cs[i]? with - | c
      · exact ⟨0, fun _ _ same there' => by cases same; cases there.symm.trans there'⟩
      · have seen : (cs.map (·, Standing.asked))[i]? = some (c, .asked) := by
          rw [List.getElem?_map, there]
          rfl
        obtain ⟨number, l, here, stands⟩ := h.stands i _ seen
        cases stands with
        | asked since carries =>
          refine ⟨since, fun i' c' same there' => ?_⟩
          cases same
          cases there.symm.trans there'
          exact ⟨number, l, here, carries⟩
  -- for each number the time at which the request came in on that connection, if it is there
  obtain ⟨since, asked⟩ := Classical.skolem.1 asked
  refine ⟨(cs.zipIdx 1).map fun (c, n) => (c, .answering (b.stream (since n) n)), ?_, h.lasting,
    h.time, h.reception, ?_, fun i x there => ?_⟩
  · rw [List.forall₂_map_right_iff, List.forall₂_same]
    rintro ⟨c, n⟩ -
    exact ⟨_, rfl, b.bytes_stream _, b.prompt_stream _ _⟩
  · rw [List.length_map, List.length_zipIdx, ← h.length, List.length_map]
  · rw [List.getElem?_map, List.getElem?_zipIdx, Nat.add_comm] at there
    rcases made : cs[i]? with - | c
    · rw [made] at there
      cases there
    · rw [made] at there
      cases there
      obtain ⟨number, l, here, carries⟩ := asked (i + 1) i c rfl made
      exact ⟨number, l, here, .answering carries⟩

theorem Sees.read (h : b.Sees w t (before ++ (c, .answering inc) :: after)) {limit : Nat}
    {deadline : Option Int} (positive : 0 < limit) (comes : deadline = none → inc.next? ≠ none) :
    ∃ result w' t' inc', Network.read (m := InWorld) c limit deadline w = .ok result w' ∧
      t ≤ t' ∧ Reading limit deadline t t' inc result inc' ∧
      b.Sees w' t' (before ++ (c, .answering inc') :: after) := by
  obtain ⟨rfl, l, here, stands⟩ := h.here
  cases stands with
  | answering carries =>
    obtain ⟨result, l', t', inc', run, later, reading, carries'⟩ :=
      World.read_carries here h.lasting carries positive comes
    obtain rfl := h.time
    exact ⟨result, _, t', inc', run, Int.ofNat_le.2 later, reading,
      h.reached later (.answering carries')⟩

end Seeing

/-- **A made-up broker answers.** -/
theorem serves (s : Setting) (short : ∀ n, (b.reply n).length < 0x80000000) :
    Serves s b.reply b.Sees where
  journals start _ := Sees.journals start
  now h := ⟨_, _, rfl, Int.le_of_eq h.time.symm, h.time ▸ h⟩
  connect h := h.connect s.address
  write deadline h short' := h.write short short' deadline
  answers h := h.answers
  read h positive comes := h.read positive comes
  finish _ h := ⟨_, _, rfl, h⟩

end Answering

end BrokerExam.Rehearsal
