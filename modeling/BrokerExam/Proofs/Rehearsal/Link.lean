/-
BrokerExam/Proofs/Rehearsal/Link.lean

What a connection of a made-up world brings.  The bytes that have come in, and
those that the other side is still to write, are a stream (`Link.Carries`), and
this stays the same as time goes by; reading from the connection is reading from
the stream.

Main result: `brings`.
-/
import BrokerExam.Proofs.Client.Incoming
import BrokerExam.Rehearsal.Network

namespace BrokerExam.Rehearsal

namespace Link

/-! ### The stream of a connection -/

/-- What the other side is to bring if it waits for the first of its steps since this time. -/
def upcoming (since : Nat) : List Step → Incoming
  | [] => ⟨[], none⟩
  | ⟨after, .write bs⟩ :: rest =>
    let later := upcoming (since + after) rest
    ⟨bs.map (⟨(since + after : Nat), ·⟩) ++ later.arrivals, later.ending⟩
  | ⟨after, .close⟩ :: _ => ⟨[], some (since + after : Nat)⟩
  | ⟨_, .reset⟩ :: _ => ⟨[], none⟩

/-- The other side does not break the connection in these steps. -/
def Orderly (steps : List Step) : Prop := ∀ s ∈ steps, s.act ≠ .reset

instance (steps : List Step) : Decidable (Orderly steps) :=
  inferInstanceAs (Decidable (∀ s ∈ steps, s.act ≠ .reset))

/-- The connection brings the stream: what has come in by now, and then what is to come, for all of
which there is room. -/
inductive Carries (now : Nat) (l : Link) (inc : Incoming) : Prop
  | open (past : List Arrival) : l.ending = .open → Orderly l.steps →
    past.map Arrival.byte = l.inbox → (∀ a ∈ past, a.time ≤ now) →
    inc.arrivals = past ++ (upcoming l.since l.steps).arrivals →
    inc.ending = (upcoming l.since l.steps).ending → inc.arrivals.length ≤ l.capacity →
    Carries now l inc
  | closed (e : Int) : l.ending = .closed → Orderly l.steps → inc.bytes = l.inbox →
    (∀ a ∈ inc.arrivals, a.time ≤ now) → inc.ending = some e → e ≤ now → Carries now l inc

/-- Nothing comes in before the first step. -/
theorem le_next?_upcoming {since : Nat} {s : Step} {rest : List Step} {t : Int}
    (h : (upcoming since (s :: rest)).next? = some t) : ((since + s.after : Nat) : Int) ≤ t := by
  induction rest generalizing since s with
  | nil =>
    obtain ⟨after, act⟩ := s
    cases act with
    | reset => cases h
    | close => exact Int.le_of_eq (Option.some.inj h)
    | write bs =>
      cases bs with
      | nil => cases h
      | cons b bs => exact Int.le_of_eq (Option.some.inj h)
  | cons s' rest ih =>
    obtain ⟨after, act⟩ := s
    cases act with
    | reset => cases h
    | close => exact Int.le_of_eq (Option.some.inj h)
    | write bs =>
      cases bs with
      | nil =>
        have later := ih h
        push_cast at later ⊢
        omega
      | cons b bs => exact Int.le_of_eq (Option.some.inj h)

/-! ### Steps that are taken -/

section Steps

variable {now after : Nat} {l : Link} {bs : Bytes} {rest : List Step}

theorem advance_undue {s : Step} (undue : now < l.since + s.after) :
    advance now (s :: rest) l = { l with steps := s :: rest } := by
  rw [advance]
  exact if_pos undue

theorem advance_write (due : l.since + after ≤ now) (opened : l.ending = .open)
    (room : l.inbox.length + bs.length ≤ l.capacity) :
    advance now (⟨after, .write bs⟩ :: rest) l =
      advance now rest { l with since := l.since + after, inbox := l.inbox ++ bs } := by
  have fits : bs.length ≤ l.capacity - l.inbox.length := by omega
  rw [advance]
  simp [Nat.not_lt.2 due, opened, fits]

theorem advance_close (due : l.since + after ≤ now) (opened : l.ending = .open) :
    advance now (⟨after, .close⟩ :: rest) l =
      advance now rest { l with since := l.since + after, ending := .closed } := by
  rw [advance]
  simp [Nat.not_lt.2 due, opened]

/-- Once the stream has ended, nothing is added to it. -/
theorem advance_closed {s : Step} (due : l.since + s.after ≤ now) (ended : l.ending = .closed)
    (first : s.act ≠ .reset) :
    advance now (s :: rest) l = advance now rest { l with since := l.since + s.after } := by
  have same : ({ l with since := l.since + s.after, ending := .closed } : Link) =
      { l with since := l.since + s.after } := by rw [← ended]
  rw [advance]
  cases act : s.act with
  | reset => exact absurd act first
  | write bs => simp [Nat.not_lt.2 due, ended]
  | close => simp [Nat.not_lt.2 due, ended, same]

end Steps

variable {now now' : Nat} {l : Link} {inc : Incoming}

namespace Carries

theorem orderly (h : Carries now l inc) : Orderly l.steps := by
  cases h with
  | «open» _ _ orderly => exact orderly
  | closed _ _ orderly => exact orderly

theorem later (h : Carries now l inc) (later : now ≤ now') : Carries now' l inc := by
  have later : (now : Int) ≤ now' := Int.ofNat_le.2 later
  cases h with
  | «open» past opened orderly inbox arrived =>
    refine .open past opened orderly inbox (fun a ha => ?_) ‹_› ‹_› ‹_›
    exact Int.le_trans (arrived a ha) later
  | closed e ended orderly inbox arrived ending closed =>
    refine .closed e ended orderly inbox (fun a ha => ?_) ending (Int.le_trans closed later)
    exact Int.le_trans (arrived a ha) later

/-- Taking a step that is due changes nothing about the stream. -/
theorem step {s : Step} {rest : List Step} (h : Carries now { l with steps := s :: rest } inc)
    (due : l.since + s.after ≤ now) : ∃ l', advance now (s :: rest) l = advance now rest l' ∧
      Carries now { l' with steps := rest } inc := by
  obtain ⟨first, others⟩ := List.forall_mem_cons.1 h.orderly
  have passed : ((l.since + s.after : Nat) : Int) ≤ now := Int.ofNat_le.2 due
  cases h with
  | closed e ended _ inbox arrived ending closed =>
    exact ⟨_, advance_closed due ended first, .closed e ended others inbox arrived ending closed⟩
  | «open» past opened _ inbox arrived arrivals ending room =>
    obtain ⟨after, act⟩ := s
    cases act with
    | reset => exact absurd rfl first
    | close =>
      have arrivals : inc.arrivals = past := arrivals.trans (List.append_nil past)
      refine ⟨_, advance_close due opened, .closed _ rfl others ?_ ?_ ending passed⟩
      · rwa [Incoming.bytes, arrivals]
      · rwa [arrivals]
    | write bs =>
      have inbox : past.map Arrival.byte = l.inbox := inbox
      have arrivals : inc.arrivals = past ++ (bs.map (⟨(l.since + after : Nat), ·⟩) ++
        (upcoming (l.since + after) rest).arrivals) := arrivals
      have enough : l.inbox.length + bs.length ≤ l.capacity := by
        refine Nat.le_trans ?_ room
        rw [arrivals, ← inbox]
        simp only [List.length_append, List.length_map]
        omega
      refine ⟨_, advance_write due opened enough,
        .open (past ++ bs.map (⟨(l.since + after : Nat), ·⟩)) opened others ?_ ?_ ?_ ending room⟩
      · simp [inbox, Function.comp_def]
      · simp only [List.mem_append, List.mem_map]
        rintro a (before | ⟨b, -, rfl⟩)
        · exact arrived a before
        · exact passed
      · rw [arrivals, List.append_assoc]

theorem advance {steps : List Step} (h : Carries now { l with steps } inc) :
    Carries now (advance now steps l) inc ∧
      (∀ due, (Link.advance now steps l).due? = some due → now < due) ∧
      (Link.advance now steps l).steps.length ≤ steps.length := by
  induction steps generalizing l with
  | nil => exact ⟨h, nofun, Nat.le_refl 0⟩
  | cons s rest ih =>
    rcases Nat.lt_or_ge now (l.since + s.after) with undue | due
    · rw [advance_undue undue]
      refine ⟨h, fun due next => ?_, Nat.le_refl _⟩
      cases next
      exact undue
    · obtain ⟨l', same, h'⟩ := h.step due
      obtain ⟨carries, undue, fewer⟩ := ih h'
      rw [same]
      exact ⟨carries, undue, Nat.le_succ_of_le fewer⟩

end Carries

/-- The connection brings the stream, and no step of the other side is due. -/
structure Awaits (now : Nat) (l : Link) (inc : Incoming) : Prop where
  carries : Carries now l inc
  undue : ∀ due, l.due? = some due → now < due

theorem Carries.awaits (h : Carries now l inc) : Awaits now (l.settled now) inc :=
  ⟨h.advance.1, h.advance.2.1⟩

theorem Carries.length_settled (h : Carries now l inc) :
    (l.settled now).steps.length ≤ l.steps.length := h.advance.2.2

/-- A step that becomes due is taken. -/
theorem Carries.length_settled_lt (h : Carries now l inc) (due : l.due? = some now) :
    (l.settled now).steps.length < l.steps.length := by
  rcases steps : l.steps with - | ⟨s, rest⟩
  · simp [due?, steps] at due
  have now_ : l.since + s.after = now := by simpa [due?, steps] using due
  have h' : Carries now { l with steps := s :: rest } inc := by rwa [← steps]
  obtain ⟨l', same, h''⟩ := h'.step (Nat.le_of_eq now_)
  rw [settled, steps, same]
  exact Nat.lt_succ_of_le h''.advance.2.2

/-! ### What is read -/

theorem Carries.inbox (h : Carries now l inc) : ∃ past later, inc.arrivals = past ++ later ∧
    past.map Arrival.byte = l.inbox ∧ ∀ a ∈ past, a.time ≤ now := by
  cases h with
  | «open» past _ _ inbox arrived arrivals => exact ⟨past, _, arrivals, inbox, arrived⟩
  | closed _ _ _ inbox arrived =>
    exact ⟨inc.arrivals, [], (List.append_nil _).symm, inbox, arrived⟩

/-- What is not taken of the inbox stays in front of the stream. -/
theorem Carries.drop {k : Nat} (h : Carries now l inc) (there : k ≤ l.inbox.length) :
    Carries now { l with inbox := l.inbox.drop k } (inc.drop k) := by
  cases h with
  | «open» past opened orderly inbox arrived arrivals ending room =>
    have length : past.length = l.inbox.length := by rw [← inbox, List.length_map]
    refine .open (past.drop k) opened orderly ?_ (fun a ha => arrived a (List.mem_of_mem_drop ha))
      ?_ ending ?_
    · rw [List.map_drop, inbox]
    · rw [Incoming.drop, arrivals]
      exact List.drop_append_of_le_length (length ▸ there)
    · rw [Incoming.length_arrivals_drop]
      exact Nat.le_trans (Nat.sub_le _ _) room
  | closed e ended orderly inbox arrived ending closed =>
    refine .closed e ended orderly ?_ (fun a ha => arrived a (List.mem_of_mem_drop ha)) ending
      closed
    rw [Incoming.bytes_drop, inbox]

/-- Taking from an inbox that is not empty is a read. -/
theorem Awaits.take {limit : Nat} {deadline : Option Int} {start : Int} (h : Awaits now l inc)
    (some : l.inbox ≠ []) (positive : 0 < limit) :
    ∃ inc', Reading limit deadline start now inc (.done (l.take now limit).1) inc' ∧
      Carries now (l.take now limit).2 inc' := by
  obtain ⟨past, later, arrivals, inbox, arrived⟩ := h.carries.inbox
  have length : past.length = l.inbox.length := by rw [← inbox, List.length_map]
  have stalled : l.due?.any (· ≤ now) = false := by
    rcases next : l.due? with - | due
    · rfl
    · simpa using h.undue due next
  -- as many as are wanted, or all there are
  obtain ⟨k, positive, most, there, taken, left⟩ : ∃ k, 0 < k ∧ k ≤ limit ∧ k ≤ past.length ∧
      l.inbox.take limit = l.inbox.take k ∧ l.inbox.drop limit = l.inbox.drop k := by
    rcases Nat.le_total limit past.length with few | all
    · exact ⟨limit, positive, Nat.le_refl limit, few, rfl, rfl⟩
    · refine ⟨past.length, ?_, all, Nat.le_refl _, ?_, ?_⟩
      · rw [length]
        exact List.length_pos_iff.2 some
      · rw [length, List.take_length, List.take_of_length_le (length ▸ all)]
      · rw [length, List.drop_length, List.drop_of_length_le (length ▸ all)]
  have front : inc.arrivals.take k = past.take k := by
    rw [arrivals, List.take_append_of_le_length there]
  have first : inc.first k = l.inbox.take k := by
    rw [Incoming.first, front, List.map_take, inbox]
  rw [Link.take, stalled, taken, left, ← first]
  refine ⟨_, .bytes positive most ?_ fun a ha => ?_, h.carries.drop (length ▸ there)⟩
  · rw [arrivals, List.length_append]
    exact Nat.le_trans there (Nat.le_add_right ..)
  · rw [front] at ha
    exact arrived a (List.mem_of_mem_take ha)

/-- Where nothing is there, the next thing comes in with a step of the other side. -/
theorem Carries.next_due (h : Carries now l inc) (opened : l.ending = .open) (empty : l.inbox = [])
    {t : Int} (next : inc.next? = some t) : ∃ due : Nat, l.due? = some due ∧ due ≤ t := by
  cases h with
  | closed _ ended =>
    rw [opened] at ended
    cases ended
  | «open» past _ _ inbox _ arrivals ending =>
    obtain rfl : past = [] := List.map_eq_nil_iff.1 (inbox.trans empty)
    have same : inc = upcoming l.since l.steps := Incoming.ext arrivals ending
    rw [same] at next
    rcases steps : l.steps with - | ⟨s, rest⟩
    · rw [steps] at next
      cases next
    · rw [steps] at next
      exact ⟨_, by simp [due?, steps], le_next?_upcoming next⟩

end Link

namespace World

variable {w : World} {i : Nat} {l : Link}

/-- The world at a later time, in which a connection is as it is then. -/
def reached (w : World) (i : Nat) (l : Link) (time : Nat) : World :=
  { w with time, links := w.links.set i l }

theorem run_link? (here : w.links[i]? = some l) : link? i w = .ok (some l) w := by
  show EStateM.Result.ok w.links[i]? w = _
  rw [here]

theorem run_waitUntil (lasting : w.abandonAt = none) (t : Nat) :
    waitUntil (some t) w = .ok () { w with time := max w.time t } := by
  cases w
  cases lasting
  rfl

theorem takeOrWait_carries {limit : Nat} {deadline : Option Int} {inc : Incoming}
    (here : w.links[i]? = some l) (lasting : w.abandonAt = none) (carries : l.Carries w.time inc)
    (positive : 0 < limit) (comes : deadline = none → inc.next? ≠ none) :
    (∃ result l' t inc', takeOrWait i limit (deadline.map Int.toNat) w =
        .ok (some result) (w.reached i l' t) ∧ w.time ≤ t ∧
      Reading limit deadline w.time t inc result inc' ∧ l'.Carries t inc') ∨
    ∃ l' t, takeOrWait i limit (deadline.map Int.toNat) w = .ok none (w.reached i l' t) ∧
      w.time ≤ t ∧ l'.Carries t inc ∧ l' = l.settled w.time ∧ l'.due? = some t := by
  have settled := carries.awaits
  unfold takeOrWait
  rw [bind_of_ok (run_link? here)]
  dsimp only
  rw [bind_of_ok (show (get : InWorld World) w = .ok w w from rfl)]
  split
  · next some =>
    obtain ⟨inc', reading, carries'⟩ := settled.take some positive
    exact .inl ⟨_, _, w.time, inc', rfl, Nat.le_refl _, reading, carries'⟩
  · next empty =>
    have empty : (l.settled w.time).inbox = [] := Decidable.not_not.1 empty
    rw [bind_of_ok (show setLink i (l.settled w.time) w =
      .ok () (w.reached i (l.settled w.time) w.time) from rfl)]
    cases ended : (l.settled w.time).ending with
    | reset =>
      cases settled.carries with
      | «open» _ opened => cases ended.symm.trans opened
      | closed _ closed => cases ended.symm.trans closed
    | closed =>
      cases settled.carries with
      | «open» _ opened => cases ended.symm.trans opened
      | closed e _ _ inbox _ ending closed =>
        have none : inc.arrivals = [] := List.map_eq_nil_iff.1 (inbox.trans empty)
        exact .inl ⟨_, _, w.time, inc, rfl, Nat.le_refl _, .ended none ending closed,
          settled.carries⟩
    | «open» =>
      have due (t : Int) := settled.carries.next_due (t := t) ended empty
      have lasting : (w.reached i (l.settled w.time) w.time).abandonAt = none := lasting
      rcases next : (l.settled w.time).due? with - | moment
      · -- nothing is to come, so that the waiting has a deadline
        have quiet (t : Int) : inc.next? ≠ some t := by
          intro some
          obtain ⟨_, here, -⟩ := due t some
          cases next.symm.trans here
        cases deadline with
        | none => exact absurd (Option.eq_none_iff_forall_ne_some.2 quiet) (comes rfl)
        | some d =>
          refine .inl ⟨.timedOut, _, max w.time d.toNat, inc,
            bind_of_ok (run_waitUntil lasting d.toNat), Nat.le_max_left .., ?_,
            settled.carries.later (Nat.le_max_left ..)⟩
          exact .timedOut rfl (by omega) fun t some => absurd some (quiet t)
      · have undue := settled.undue moment next
        dsimp only
        split
        · next expired =>
          obtain ⟨d, rfl, first⟩ : ∃ d, deadline = some d ∧ d.toNat ≤ moment := by
            cases deadline with
            | none => cases expired
            | some d => exact ⟨d, rfl, by simpa using expired⟩
          refine .inl ⟨.timedOut, _, max w.time d.toNat, inc,
            bind_of_ok (run_waitUntil lasting d.toNat), Nat.le_max_left .., ?_,
            settled.carries.later (Nat.le_max_left ..)⟩
          refine .timedOut rfl (by omega) fun t some => ?_
          obtain ⟨_, here, late⟩ := due t some
          cases next.symm.trans here
          omega
        · have time : max w.time moment = moment := Nat.max_eq_right (Nat.le_of_lt undue)
          refine .inr ⟨_, moment, ?_, Nat.le_of_lt undue,
            settled.carries.later (Nat.le_of_lt undue), rfl, next⟩
          rw [bind_of_ok (run_waitUntil lasting moment)]
          show EStateM.Result.ok none { w.reached i _ _ with time := max w.time moment } = _
          rw [time]
          rfl

/-- The one waiting begins where the other has got to. -/
theorem reached_reached (l' : Link) (t t' : Nat) :
    (w.reached i l t).reached i l' t' = w.reached i l' t' := by
  simp [reached, List.set_set]

theorem reached_here (here : w.links[i]? = some l) (l' : Link) (t : Nat) :
    (w.reached i l' t).links[i]? = some l' := by
  obtain ⟨inside, -⟩ := List.getElem?_eq_some_iff.1 here
  simp [reached, inside]

/-- Waiting for bytes is a read. -/
theorem awaitBytes_carries {limit fuel : Nat} {deadline : Option Int} {inc : Incoming}
    (here : w.links[i]? = some l) (lasting : w.abandonAt = none) (carries : l.Carries w.time inc)
    (positive : 0 < limit) (comes : deadline = none → inc.next? ≠ none)
    (fueled : (l.settled w.time).steps.length ≤ fuel) :
    ∃ result l' t inc', awaitBytes i limit (deadline.map Int.toNat) fuel w =
        .ok result (w.reached i l' t) ∧ w.time ≤ t ∧
      Reading limit deadline w.time t inc result inc' ∧ l'.Carries t inc' := by
  induction fuel generalizing w l with
  | zero =>
    rcases takeOrWait_carries here lasting carries positive comes with
      ⟨result, l', t, inc', run, later, reading, carries'⟩ | ⟨l', t, run, later, carries', rfl, due⟩
    · exact ⟨result, l', t, inc', bind_of_ok run, later, reading, carries'⟩
    · -- no step is left to wait for
      rw [Link.due?, List.length_eq_zero_iff.1 (Nat.le_zero.1 fueled)] at due
      cases due
  | succ fuel ih =>
    rcases takeOrWait_carries here lasting carries positive comes with
      ⟨result, l', t, inc', run, later, reading, carries'⟩ | ⟨l', t, run, later, carries', rfl, due⟩
    · exact ⟨result, l', t, inc', bind_of_ok run, later, reading, carries'⟩
    · have fewer := carries'.length_settled_lt due
      obtain ⟨result, l'', t', inc', run', later', reading, carries''⟩ :=
        ih (w := w.reached i (l.settled w.time) t) (reached_here here _ t) lasting carries'
          (Nat.le_of_lt_succ (Nat.lt_of_lt_of_le fewer fueled))
      refine ⟨result, l'', t', inc', ?_, Nat.le_trans later later', reading.earlier ?_, carries''⟩
      · rw [← reached_reached]
        exact (bind_of_ok run).trans run'
      · exact Int.ofNat_le.2 later

/-- The world does not end, and brings the stream on a connection. -/
def Sees (i : Nat) (w : World) (now : Int) (inc : Incoming) : Prop :=
  w.abandonAt = none ∧ w.time = now ∧ ∃ l, w.links[i]? = some l ∧ l.Carries w.time inc

/-- Reading from a connection is reading from its stream, and nothing else changes. -/
theorem read_carries {limit : Nat} {deadline : Option Int} {inc : Incoming}
    (here : w.links[i]? = some l) (lasting : w.abandonAt = none) (carries : l.Carries w.time inc)
    (positive : 0 < limit) (comes : deadline = none → inc.next? ≠ none) :
    ∃ result l' t inc', Network.read (m := InWorld) i limit deadline w =
        .ok result (w.reached i l' t) ∧ w.time ≤ t ∧
      Reading limit deadline w.time t inc result inc' ∧ l'.Carries t inc' := by
  obtain ⟨result, l', t, inc', run, rest⟩ :=
    awaitBytes_carries here lasting carries positive comes carries.length_settled
  exact ⟨result, l', t, inc', (bind_of_ok (run_link? here)).trans run, rest⟩

end World

/-- **Connections of a made-up world bring their streams.** -/
theorem brings (i : Nat) : Brings (ε := Blocked) (σ := World) i (World.Sees i) where
  now := by
    rintro w t inc ⟨lasting, rfl, sees⟩
    exact ⟨_, w, rfl, Int.le_refl _, lasting, rfl, sees⟩
  record e := by
    rintro ⟨lasting, rfl, sees⟩
    exact ⟨_, _, rfl, Int.le_refl _, lasting, rfl, sees⟩
  read := by
    rintro w t inc limit deadline ⟨lasting, rfl, l, here, carries⟩ positive comes
    obtain ⟨result, l', t, inc', run, later, reading, carries'⟩ :=
      World.read_carries here lasting carries positive comes
    exact ⟨result, _, t, inc', run, Int.ofNat_le.2 later, reading, lasting, rfl, l',
      World.reached_here here l' t, carries'⟩

end BrokerExam.Rehearsal
