/-
BrokerExam/Proofs/Client/Incoming.lean

What comes in on a connection.  A stream is known by the bytes that are still to
be read from it, each with the time at which it is there, and by the time at
which the other side ends it.  Nothing is said of the pieces in which the bytes
travel: a read gives some of those that are there, in their order, and takes its
time (`Reading`).  The clock, the journal and the connection of an environment
are taken to be no better than that (`Brings`).

Main result: `Brings.drain`, which says what reading on and on gives, and why it
stops.
-/
import BrokerExam.Client
import BrokerExam.Proofs.Sequence

namespace BrokerExam

/-! ### Streams -/

/-- A byte, and when it is there to be read. -/
structure Arrival where
  time : Int
  byte : UInt8
  deriving DecidableEq, Repr

/-- The bytes still to be read, in their order, and when the stream ends behind them, if it does. -/
@[ext]
structure Incoming where
  arrivals : List Arrival
  ending : Option Int
  deriving DecidableEq, Repr

namespace Incoming

def bytes (inc : Incoming) : Bytes := inc.arrivals.map Arrival.byte

/-- The first bytes. -/
def first (inc : Incoming) (k : Nat) : Bytes := (inc.arrivals.take k).map Arrival.byte

/-- What is left behind the first bytes. -/
def drop (inc : Incoming) (k : Nat) : Incoming := { inc with arrivals := inc.arrivals.drop k }

/-- When the next byte comes in, or else the end. -/
def next? (inc : Incoming) : Option Int :=
  match inc.arrivals with
  | [] => inc.ending
  | a :: _ => some a.time

variable {inc : Incoming} {j k : Nat}

theorem drop_drop : (inc.drop j).drop k = inc.drop (j + k) := by
  simp only [drop, List.drop_drop]

theorem length_arrivals_drop : (inc.drop k).arrivals.length = inc.arrivals.length - k :=
  List.length_drop

theorem take_add_arrivals : inc.arrivals.take (j + k) =
    inc.arrivals.take j ++ (inc.drop j).arrivals.take k := List.take_add

theorem first_add : inc.first (j + k) = inc.first j ++ (inc.drop j).first k := by
  rw [first, take_add_arrivals, List.map_append]
  rfl

theorem length_first (enough : k ≤ inc.arrivals.length) : (inc.first k).length = k := by
  rw [first, List.length_map, List.length_take, Nat.min_eq_left enough]

theorem length_bytes : inc.bytes.length = inc.arrivals.length := List.length_map _

theorem bytes_drop : (inc.drop k).bytes = inc.bytes.drop k := List.map_drop

/-- The first bytes are those that are known to be in front. -/
theorem first_of_prefix {bs : Bytes} (h : bs <+: inc.bytes) : inc.first bs.length = bs := by
  rw [first, List.map_take]
  exact (List.prefix_iff_eq_take.1 h).symm

theorem next?_drop {a : Arrival} (h : inc.arrivals[k]? = some a) :
    (inc.drop k).next? = some a.time := by
  have head : (inc.drop k).arrivals.head? = some a := by rw [← h, drop, List.head?_drop]
  unfold next?
  split
  · next empty =>
    rw [empty] at head
    cases head
  · next b _ some =>
    rw [some] at head
    cases head
    rfl

end Incoming

/-! ### One read -/

/-- A read that begins at `now` and ends at `now'` with the result, and leaves the rest: some of the
bytes that are there, or the end of the stream.  The waiting ends only where nothing was there at
first, and nothing came before the deadline. -/
inductive Reading (limit : Nat) (deadline : Option Int) (now now' : Int) (inc : Incoming) :
    Waited Bytes → Incoming → Prop
  | bytes {k : Nat} : 0 < k → k ≤ limit → k ≤ inc.arrivals.length →
    (∀ a ∈ inc.arrivals.take k, a.time ≤ now') →
    Reading limit deadline now now' inc (.done (inc.first k)) (inc.drop k)
  | ended {e : Int} : inc.arrivals = [] → inc.ending = some e → e ≤ now' →
    Reading limit deadline now now' inc (.done []) inc
  | timedOut {d : Int} : deadline = some d → d ≤ now' →
    (∀ t, inc.next? = some t → now < t ∧ d ≤ t) →
    Reading limit deadline now now' inc .timedOut inc

/-- The read may have begun earlier. -/
theorem Reading.earlier {limit : Nat} {deadline : Option Int} {t now now' : Int}
    {inc inc' : Incoming} {result : Waited Bytes}
    (h : Reading limit deadline t now' inc result inc') (earlier : now ≤ t) :
    Reading limit deadline now now' inc result inc' := by
  cases h with
  | bytes positive most there arrived => exact .bytes positive most there arrived
  | ended empty ending closed => exact .ended empty ending closed
  | timedOut at_ passed quiet =>
    exact .timedOut at_ passed fun u next =>
      ⟨Int.lt_of_le_of_lt earlier (quiet u next).1, (quiet u next).2⟩

section Environment

variable {ε σ : Type} [Journal (EStateM ε σ)] [Clock (EStateM ε σ)] [Network (EStateM ε σ)]

/-- The environment brings what comes in on a connection, where `sees` says of a state what the time
is in it and what is still to be read.  Time may pass with everything that is done; only a read
without a deadline, of a stream on which nothing more happens, need not end. -/
structure Brings (connection : Network.Connection (EStateM ε σ))
    (sees : σ → Int → Incoming → Prop) : Prop where
  now {w : σ} {t : Int} {inc : Incoming} : sees w t inc →
    ∃ t' w', (Clock.now : EStateM ε σ Int) w = .ok t' w' ∧ t ≤ t' ∧ sees w' t' inc
  record {w : σ} {t : Int} {inc : Incoming} (e : Entry) : sees w t inc →
    ∃ t' w', (Journal.record e : EStateM ε σ Unit) w = .ok () w' ∧ t ≤ t' ∧ sees w' t' inc
  read {w : σ} {t : Int} {inc : Incoming} {limit : Nat} {deadline : Option Int} :
    sees w t inc → 0 < limit → (deadline = none → inc.next? ≠ none) →
    ∃ result w' t' inc', Network.read connection limit deadline w = .ok result w' ∧ t ≤ t' ∧
      Reading limit deadline t t' inc result inc' ∧ sees w' t' inc'

/-! ### Reading on and on -/

/-- Why reading stopped after the first `k` bytes of those wanted. -/
inductive Stopped (deadline : Option Int) (wanted : Nat) (now now' : Int) (inc : Incoming)
    (k : Nat) : Client.Stop → Prop
  | complete : k = wanted → Stopped deadline wanted now now' inc k .complete
  | ended {e : Int} : k < wanted → inc.arrivals.length = k → inc.ending = some e → e ≤ now' →
    Stopped deadline wanted now now' inc k .ended
  | timedOut {d : Int} : k < wanted → deadline = some d → d ≤ now' →
    (∀ t, (inc.drop k).next? = some t → now < t ∧ d ≤ t) →
    Stopped deadline wanted now now' inc k .timedOut

/-- What is taken of a stream from `now` to `now'`: the first `k` bytes, all of which had come in
by then, and no more than are wanted. -/
structure Taken (deadline : Option Int) (wanted : Nat) (now now' : Int) (inc : Incoming)
    (k : Nat) (stop : Client.Stop) : Prop where
  later : now ≤ now'
  enough : k ≤ wanted
  there : k ≤ inc.arrivals.length
  arrived : ∀ a ∈ inc.arrivals.take k, a.time ≤ now'
  stopped : Stopped deadline wanted now now' inc k stop

namespace Taken

variable {deadline : Option Int} {wanted j k : Nat} {now t now' : Int} {inc : Incoming}
  {stop : Client.Stop}

/-- The time may be told later. -/
theorem mono (h : Taken deadline wanted now t inc k stop) (later : t ≤ now') :
    Taken deadline wanted now now' inc k stop where
  later := Int.le_trans h.later later
  enough := h.enough
  there := h.there
  arrived a ha := Int.le_trans (h.arrived a ha) later
  stopped := by
    cases h.stopped with
    | complete all => exact .complete all
    | ended short all ending closed => exact .ended short all ending (Int.le_trans closed later)
    | timedOut short at_ passed quiet =>
      exact .timedOut short at_ (Int.le_trans passed later) quiet

theorem nothing (later : now ≤ now') (stopped : Stopped deadline wanted now now' inc 0 stop) :
    Taken deadline wanted now now' inc 0 stop where
  later := later
  enough := Nat.zero_le wanted
  there := Nat.zero_le _
  arrived _ h := nomatch h
  stopped := stopped

/-- A read that gave some bytes, and those that were taken after it. -/
theorem append (some : j ≤ inc.arrivals.length) (fits : j ≤ wanted)
    (arrived : ∀ a ∈ inc.arrivals.take j, a.time ≤ t) (later : now ≤ t)
    (h : Taken deadline (wanted - j) t now' (inc.drop j) k stop) :
    Taken deadline wanted now now' inc (j + k) stop where
  later := Int.le_trans later h.later
  enough := by have := h.enough; omega
  there := by
    have there := h.there
    rw [Incoming.length_arrivals_drop] at there
    omega
  arrived a ha := by
    rw [Incoming.take_add_arrivals] at ha
    rcases List.mem_append.1 ha with before | after
    · exact Int.le_trans (arrived a before) h.later
    · exact h.arrived a after
  stopped := by
    cases h.stopped with
    | complete all => exact .complete (by omega)
    | ended short all ending closed =>
      rw [Incoming.length_arrivals_drop] at all
      exact .ended (by omega) (by omega) ending closed
    | timedOut short at_ passed quiet =>
      refine .timedOut (by omega) at_ passed fun u next => ?_
      obtain ⟨waited, late⟩ := quiet u (Incoming.drop_drop ▸ next)
      exact ⟨Int.lt_of_le_of_lt later waited, late⟩

end Taken

namespace Brings

variable {c : Client (EStateM ε σ)} {sees : σ → Int → Incoming → Prop}

/-- **Reading on and on** takes the first bytes of the stream and leaves all that is behind them,
however the bytes are cut.  It stops when those wanted are there, or nothing more can come, or
nothing came before the deadline. -/
theorem drain (brings : Brings c.connection sees) (deadline : Option Int) {fuel wanted : Nat}
    {w : σ} {now : Int} {inc : Incoming} (seen : sees w now inc) (fueled : wanted ≤ fuel)
    (comes : deadline = none → wanted ≤ inc.arrivals.length ∨ inc.ending ≠ none) :
    ∃ k stop w' now', c.drain deadline fuel wanted w = .ok (inc.first k, stop) w' ∧
      Taken deadline wanted now now' inc k stop ∧ sees w' now' (inc.drop k) := by
  induction fuel generalizing wanted w now inc with
  | zero =>
    obtain rfl := Nat.le_zero.1 fueled
    exact ⟨0, .complete, w, now, rfl, .nothing (Int.le_refl now) (.complete rfl), seen⟩
  | succ fuel ih =>
    rcases Nat.eq_zero_or_pos wanted with rfl | more
    · exact ⟨0, .complete, w, now, rfl, .nothing (Int.le_refl now) (.complete rfl), seen⟩
    have positive : 0 < min wanted Client.chunkBytes := Nat.lt_min.2 ⟨more, by decide⟩
    have something : deadline = none → inc.next? ≠ none := by
      intro unlimited
      unfold Incoming.next?
      split
      · next empty =>
        refine (comes unlimited).resolve_left fun enough => ?_
        rw [empty] at enough
        exact absurd more (Nat.not_lt.2 enough)
      · exact nofun
    obtain ⟨result, w₁, t, inc', run, later, reading, seen'⟩ := brings.read seen positive something
    have wants : wanted ≠ 0 := Nat.ne_of_gt more
    cases reading with
    | @bytes j positive most there arrived =>
      have fits : j ≤ wanted := Nat.le_trans most (Nat.min_le_left ..)
      have comes' : deadline = none →
          wanted - j ≤ (inc.drop j).arrivals.length ∨ (inc.drop j).ending ≠ none := by
        rw [Incoming.length_arrivals_drop]
        intro unlimited
        exact (comes unlimited).imp_left fun enough => Nat.sub_le_sub_right enough j
      obtain ⟨k, stop, w', now', run', taken, seen''⟩ := ih seen' (by omega) comes'
      refine ⟨j + k, stop, w', now', ?_, taken.append there fits arrived later,
        Incoming.drop_drop ▸ seen''⟩
      have length := Incoming.length_first there
      rcases first : inc.first j with - | ⟨b, bs⟩
      · rw [first] at length
        exact absurd length.symm (Nat.ne_of_gt positive)
      · rw [first] at run length
        rw [Client.drain, bind_of_ok run]
        · show (c.drain deadline fuel (wanted - (b :: bs).length) >>= _) w₁ = _
          rw [length, bind_of_ok run', Incoming.first_add, first]
          rfl
        · exact wants
    | ended empty ending closed =>
      have all : inc.arrivals.length = 0 := List.length_eq_zero_iff.2 empty
      refine ⟨0, .ended, w₁, t, ?_, .nothing later (.ended more all ending closed), seen'⟩
      rw [Client.drain, bind_of_ok run]
      · rfl
      · exact wants
    | timedOut at_ passed quiet =>
      refine ⟨0, .timedOut, w₁, t, ?_, .nothing later (.timedOut more at_ passed quiet), seen'⟩
      rw [Client.drain, bind_of_ok run]
      · rfl
      · exact wants

end Brings

end Environment
end BrokerExam
