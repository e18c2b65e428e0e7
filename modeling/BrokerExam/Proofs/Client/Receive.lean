/-
BrokerExam/Proofs/Client/Receive.lean

Messages as they are received.  The size of a message is read for as long as it
takes, and its payload until the time is up that begins when the size has been
read.  As long as each payload is there in time (`Client.InTime`), messages are
received one after the other as they were framed, and none of them takes a byte
of the next; a payload that stops is received as far as it came.

Main result: `Client.receives_framed`.
-/
import BrokerExam.Proofs.Client.Incoming
import BrokerExam.Proofs.Frame
import BrokerExam.Proofs.Rehearsal.Link

namespace BrokerExam

section Receiving

variable {ε σ : Type} [Journal (EStateM ε σ)] [Clock (EStateM ε σ)] [Network (EStateM ε σ)]
  {c : Client (EStateM ε σ)} {sees : σ → Int → Incoming → Prop} {w : σ} {now : Int}
  {inc : Incoming}

/-- What receiving comes to once the size has been read and the time has been set. -/
theorem Client.run_receive {size bs : Bytes} {n : Nat} {s : Int} {w₁ w₂ w₃ : σ}
    {stop : Client.Stop} (sized : c.receiveSize.run w = .ok (.ok size) w₁)
    (declared : (Frame.mk size).declared.toInt = n)
    (clock : (Clock.now : EStateM ε σ Int) w₁ = .ok s w₂)
    (drained : c.drain (some (s + c.config.readTimeout)) n n w₂ = .ok (bs, stop) w₃) :
    c.receive.run w = ((match stop with
      | .failed e => attempting .readResponse (fail (.system e))
      | .timedOut => do
        debug s!"Read deadline reached with {bs.length} of {(Frame.mk size).declared} payload bytes"
        return ⟨size ++ bs⟩
      | _ => return ⟨size ++ bs⟩) : Tried (EStateM ε σ) Frame).run w₃ := by
  have fine : ¬ (Frame.mk size).declared < 0 := by
    rw [Int32.lt_iff_toInt_lt, declared]
    exact Int.not_lt.2 (Int.natCast_nonneg n)
  have armed : (Clock.now : Tried (EStateM ε σ) Int).run w₁ = .ok (.ok s) w₂ := run_lift_of_ok clock
  have read : (c.read (some (s + c.config.readTimeout)) n : Tried (EStateM ε σ) _).run w₂ =
      .ok (.ok (bs, stop)) w₃ := run_lift_of_ok drained
  rw [Client.receive, run_bind_of_ok sized]
  simp only [if_neg fine, declared, Int.toNat_natCast]
  rw [run_bind_of_ok armed, run_bind_of_ok read]
  cases stop <;> rfl

namespace Brings

/-- A size is read, however long it takes. -/
theorem receiveSize (brings : Brings c.connection sees) (seen : sees w now inc)
    (enough : Frame.sizeBytes ≤ inc.arrivals.length) :
    ∃ w' now', c.receiveSize.run w = .ok (.ok (inc.first Frame.sizeBytes)) w' ∧ now ≤ now' ∧
      (∀ a ∈ inc.arrivals.take Frame.sizeBytes, a.time ≤ now') ∧
      sees w' now' (inc.drop Frame.sizeBytes) := by
  obtain ⟨k, stop, w', now', run, taken, seen'⟩ :=
    brings.drain none seen (Nat.le_refl Frame.sizeBytes) fun _ => .inl enough
  cases taken.stopped with
  | complete all =>
    subst all
    refine ⟨w', now', ?_, taken.later, taken.arrived, seen'⟩
    exact run_bind_of_ok (run_lift_of_ok run)
  | ended short all => omega
  | timedOut _ unlimited => cases unlimited

/-- A message is received: its size, and then as much of its payload as comes in time. -/
theorem receive (brings : Brings c.connection sees) (seen : sees w now inc) {n : Nat}
    (short : n < 0x80000000) (size : BigEndian.encode Frame.sizeBytes n <+: inc.bytes) :
    ∃ w₁ s w₂ k stop w' now',
      c.receiveSize.run w = .ok (.ok (BigEndian.encode Frame.sizeBytes n)) w₁ ∧
      (Clock.now : EStateM ε σ Int) w₁ = .ok s w₂ ∧ now ≤ s ∧
      (∀ a ∈ inc.arrivals.take Frame.sizeBytes, a.time ≤ s) ∧
      c.receive.run w = .ok (.ok ⟨BigEndian.encode Frame.sizeBytes n ++
        (inc.drop Frame.sizeBytes).first k⟩) w' ∧
      Taken (some (s + c.config.readTimeout)) n s now' (inc.drop Frame.sizeBytes) k stop ∧
      sees w' now' (inc.drop (Frame.sizeBytes + k)) := by
  have length : (BigEndian.encode Frame.sizeBytes n).length = Frame.sizeBytes :=
    BigEndian.length_encode ..
  have enough : Frame.sizeBytes ≤ inc.arrivals.length := by
    rw [← length, ← Incoming.length_bytes]
    exact size.length_le
  have first : inc.first Frame.sizeBytes = BigEndian.encode Frame.sizeBytes n := by
    have first := Incoming.first_of_prefix size
    rwa [length] at first
  have declared : (Frame.mk (BigEndian.encode Frame.sizeBytes n)).declared.toInt = n := by
    have parts : (Frame.mk (BigEndian.encode Frame.sizeBytes n ++ [])).declared.toInt = n :=
      Frame.declared_parts short
    rwa [List.append_nil] at parts
  have fine : ¬ (Frame.mk (BigEndian.encode Frame.sizeBytes n)).declared < 0 := by
    rw [Int32.lt_iff_toInt_lt, declared]
    exact Int.not_lt.2 (Int.natCast_nonneg n)
  obtain ⟨w₁, t, sizeRun, later, arrived, seen₁⟩ := brings.receiveSize seen enough
  rw [first] at sizeRun
  obtain ⟨s, w₂, clock, later', seen₂⟩ := brings.now seen₁
  obtain ⟨k, stop, w₃, t', drained, taken, seen₃⟩ :=
    brings.drain (some (s + c.config.readTimeout)) seen₂ (Nat.le_refl n) nofun
  rw [Incoming.drop_drop] at seen₃
  have run := Client.run_receive sizeRun declared clock drained
  have from_ : now ≤ s := Int.le_trans later later'
  have sizeArrived a ha := Int.le_trans (arrived a ha) later'
  cases stop with
  | complete =>
    exact ⟨w₁, s, w₂, k, _, w₃, t', sizeRun, clock, from_, sizeArrived, run, taken, seen₃⟩
  | ended =>
    exact ⟨w₁, s, w₂, k, _, w₃, t', sizeRun, clock, from_, sizeArrived, run, taken, seen₃⟩
  | timedOut =>
    -- that the time is up is told, and that takes its time
    obtain ⟨now', w', told, later'', seen'⟩ := brings.record _ seen₃
    exact ⟨w₁, s, w₂, k, _, w', now', sizeRun, clock, from_, sizeArrived,
      run.trans (run_bind_of_ok (run_lift_of_ok told)), taken.mono later'', seen'⟩
  | failed e => cases taken.stopped

end Brings

/-! ### Payloads in time -/

/-- Behind the size, `n` bytes are there in time: when the size has been read, or before the time is
up that begins at that moment. -/
def Client.PayloadInTime (c : Client (EStateM ε σ)) (n : Nat) (arrivals : List Arrival) (w : σ) :
    Prop :=
  ∀ size w₁ s w₂, c.receiveSize.run w = .ok (.ok size) w₁ →
    (Clock.now : EStateM ε σ Int) w₁ = .ok s w₂ →
    ∀ a ∈ (arrivals.drop Frame.sizeBytes).take n, a.time ≤ s ∨ a.time < s + c.config.readTimeout

/-- Each of the payloads is there in time as they are received one after the other. -/
def Client.InTime (c : Client (EStateM ε σ)) : List Bytes → List Arrival → σ → Prop
  | [], _, _ => True
  | p :: ps, arrivals, w => c.PayloadInTime p.length arrivals w ∧
    ∀ f w', c.receive.run w = .ok (.ok f) w' →
      Client.InTime c ps (arrivals.drop (frame p).length) w'

/-- What is in time is taken to its end. -/
theorem Taken.eq_of_inTime {s d now' : Int} {n k : Nat} {stop : Client.Stop}
    (h : Taken (some d) n s now' inc k stop) (there : n ≤ inc.arrivals.length)
    (inTime : ∀ a ∈ inc.arrivals.take n, a.time ≤ s ∨ a.time < d) : k = n := by
  cases h.stopped with
  | complete all => exact all
  | ended short all => omega
  | @timedOut d' short at_ _ quiet =>
    obtain rfl := Option.some.inj at_
    have inside : k < inc.arrivals.length := Nat.lt_of_lt_of_le short there
    have next := Incoming.next?_drop (List.getElem?_eq_getElem inside)
    obtain ⟨waited, late⟩ := quiet _ next
    have taken : inc.arrivals[k] ∈ inc.arrivals.take n :=
      List.mem_take_iff_getElem.2 ⟨k, by omega, rfl⟩
    rcases inTime _ taken with early | soon
    · omega
    · omega

/-- A payload that is there in time is received as it was framed, and nothing else is. -/
theorem Brings.receive_whole (brings : Brings c.connection sees) (seen : sees w now inc)
    {p rest : Bytes} (short : p.length < 0x80000000) (bytes : inc.bytes = frame p ++ rest)
    (inTime : c.PayloadInTime p.length inc.arrivals w) :
    ∃ w' now', c.receive.run w = .ok (.ok ⟨frame p⟩) w' ∧
      sees w' now' (inc.drop (frame p).length) := by
  have parts := bytes.trans (Frame.frame_append p rest)
  obtain ⟨w₁, s, w₂, k, stop, w', now', sizeRun, clock, -, -, run, taken, seen'⟩ :=
    brings.receive seen short ⟨_, parts.symm⟩
  have behind : (inc.drop Frame.sizeBytes).bytes = p ++ rest := by
    rw [Incoming.bytes_drop, parts]
    exact List.drop_left' (BigEndian.length_encode ..)
  have there : p.length ≤ (inc.drop Frame.sizeBytes).arrivals.length := by
    rw [← Incoming.length_bytes, behind, List.length_append]
    exact Nat.le_add_right ..
  obtain rfl := taken.eq_of_inTime there (inTime _ _ _ _ sizeRun clock)
  rw [Incoming.first_of_prefix ⟨rest, behind.symm⟩] at run
  rw [← Frame.length_frame] at seen'
  exact ⟨w', now', run, seen'⟩

/-- **Payloads are received as they were framed**, one after the other, and what is behind them is
left. -/
theorem Brings.receive_all (brings : Brings c.connection sees) (seen : sees w now inc)
    {payloads : List Bytes} {rest : Bytes} (short : ∀ p ∈ payloads, p.length < 0x80000000)
    (bytes : inc.bytes = payloads.flatMap frame ++ rest)
    (inTime : c.InTime payloads inc.arrivals w) :
    ∃ w' now', (payloads.mapM fun _ => c.receive).run w =
        .ok (.ok (payloads.map fun p => ⟨frame p⟩)) w' ∧
      sees w' now' (inc.drop (payloads.flatMap frame).length) := by
  induction payloads generalizing w now inc with
  | nil => exact ⟨w, now, rfl, seen⟩
  | cons p ps ih =>
    obtain ⟨short, shorts⟩ := List.forall_mem_cons.1 short
    obtain ⟨first, later⟩ := inTime
    rw [List.flatMap_cons, List.append_assoc] at bytes
    obtain ⟨w₁, t, run, seen₁⟩ := brings.receive_whole seen short bytes first
    have left : (inc.drop (frame p).length).bytes = ps.flatMap frame ++ rest := by
      rw [Incoming.bytes_drop, bytes, List.drop_left]
    obtain ⟨w', now', runs, seen'⟩ := ih seen₁ shorts left (later _ _ run)
    refine ⟨w', now', ?_, ?_⟩
    · rw [List.mapM_cons, run_bind_of_ok run, run_bind_of_ok runs]
      rfl
    · rwa [List.flatMap_cons, List.length_append, ← Incoming.drop_drop]

/-- Each payload comes along with its size, or less than `timeout` after it. -/
def Prompt (timeout : Nat) : List Bytes → List Arrival → Prop
  | [], _ => True
  | p :: ps, arrivals =>
    (∃ size ∈ arrivals.take Frame.sizeBytes,
      ∀ a ∈ (arrivals.drop Frame.sizeBytes).take p.length,
        a.time ≤ size.time ∨ a.time < size.time + timeout) ∧
    Prompt timeout ps (arrivals.drop (frame p).length)

instance (timeout : Nat) : (payloads : List Bytes) → (arrivals : List Arrival) →
    Decidable (Prompt timeout payloads arrivals)
  | [], _ => isTrue trivial
  | p :: ps, arrivals =>
    have := instDecidablePrompt timeout ps (arrivals.drop (frame p).length)
    inferInstanceAs (Decidable (_ ∧ _))

/-- A prompt payload is in time whenever it is read. -/
theorem Brings.inTime_of_prompt (brings : Brings c.connection sees) (seen : sees w now inc)
    {payloads : List Bytes} {rest : Bytes} (short : ∀ p ∈ payloads, p.length < 0x80000000)
    (bytes : inc.bytes = payloads.flatMap frame ++ rest)
    (prompt : Prompt c.config.readTimeout payloads inc.arrivals) :
    c.InTime payloads inc.arrivals w := by
  induction payloads generalizing w now inc with
  | nil => trivial
  | cons p ps ih =>
    obtain ⟨short, shorts⟩ := List.forall_mem_cons.1 short
    obtain ⟨⟨size, hsize, soon⟩, later⟩ := prompt
    rw [List.flatMap_cons, List.append_assoc] at bytes
    have first : c.PayloadInTime p.length inc.arrivals w := by
      intro bs v₁ s v₂ sized clock a ha
      have parts := bytes.trans (Frame.frame_append p (ps.flatMap frame ++ rest))
      obtain ⟨w₁, s', w₂, k, stop, w', now', sized', clock', -, arrived, -⟩ :=
        brings.receive seen short ⟨_, parts.symm⟩
      obtain ⟨-, rfl⟩ := EStateM.Result.ok.inj (sized.symm.trans sized')
      obtain ⟨rfl, -⟩ := EStateM.Result.ok.inj (clock.symm.trans clock')
      have read := arrived size hsize
      rcases soon a ha with along | behind
      · exact .inl (Int.le_trans along read)
      · exact .inr (by omega)
    refine ⟨first, fun f w' run => ?_⟩
    obtain ⟨w₁, t, run', seen₁⟩ := brings.receive_whole seen short bytes first
    obtain ⟨-, rfl⟩ := EStateM.Result.ok.inj (run.symm.trans run')
    have left : (inc.drop (frame p).length).bytes = ps.flatMap frame ++ rest := by
      rw [Incoming.bytes_drop, bytes, List.drop_left]
    exact ih seen₁ shorts left later

/-! ### Whole and cut messages -/

/-- Nothing more of the stream is read by `now`: it has ended, or nothing comes in before the
deadline, which has passed. -/
def Incoming.Stalls (inc : Incoming) (deadline now : Int) : Prop :=
  (inc.arrivals = [] ∧ ∃ e, inc.ending = some e ∧ e ≤ now) ∨
  deadline ≤ now ∧ ∀ t, inc.next? = some t → deadline ≤ t

/-- Where not all that is wanted was taken, nothing more is to be had. -/
theorem Taken.stalls {d s now' : Int} {n k : Nat} {stop : Client.Stop}
    (h : Taken (some d) n s now' inc k stop) (cut : k < n) : (inc.drop k).Stalls d now' := by
  cases h.stopped with
  | complete all => omega
  | @ended e _ all ending closed =>
    exact .inl ⟨List.drop_eq_nil_of_le (Nat.le_of_eq all), e, ending, closed⟩
  | timedOut _ at_ passed quiet =>
    obtain rfl := Option.some.inj at_
    exact .inr ⟨passed, fun t next => (quiet t next).2⟩

/-- **Messages are received as they were framed, however their bytes are cut.**  When payloads that
are there in time have been received, what is behind them is left, to the byte; and each of them has
the right size.  Of a payload that stops, what had come in by then is received, and its size is
right if that is all of it. -/
theorem Client.receives_framed (brings : Brings c.connection sees) :
    (∀ {w now inc payloads rest}, sees w now inc → (∀ p ∈ payloads, p.length < 0x80000000) →
      inc.bytes = payloads.flatMap frame ++ rest → c.InTime payloads inc.arrivals w →
      ∃ w' now', (payloads.mapM fun _ => c.receive).run w =
          .ok (.ok (payloads.map fun p => ⟨frame p⟩)) w' ∧
        sees w' now' (inc.drop (payloads.flatMap frame).length) ∧
        ∀ p ∈ payloads, (Frame.mk (frame p)).payload = p ∧
          (Frame.mk (frame p)).checkSize = .ok ()) ∧
    ∀ {w now inc n}, sees w now inc → n < 0x80000000 →
      BigEndian.encode Frame.sizeBytes n <+: inc.bytes →
      ∃ w₁ s w₂ f k w' now', c.receiveSize.run w = .ok (.ok (inc.first Frame.sizeBytes)) w₁ ∧
        (Clock.now : EStateM ε σ Int) w₁ = .ok s w₂ ∧
        (∀ a ∈ inc.arrivals.take Frame.sizeBytes, a.time ≤ s) ∧
        c.receive.run w = .ok (.ok f) w' ∧
        f.raw = inc.first (Frame.sizeBytes + k) ∧ k ≤ n ∧
        Frame.sizeBytes + k ≤ inc.arrivals.length ∧
        (∀ a ∈ inc.arrivals.take (Frame.sizeBytes + k), a.time ≤ now') ∧
        (k < n → (inc.drop (Frame.sizeBytes + k)).Stalls (s + c.config.readTimeout) now') ∧
        f.checkSize = (if k = n then .ok () else .error (.wrongSize n k)) ∧
        sees w' now' (inc.drop (Frame.sizeBytes + k)) := by
  constructor
  · intro w now inc payloads rest seen short bytes inTime
    obtain ⟨w', now', run, seen'⟩ := brings.receive_all seen short bytes inTime
    exact ⟨w', now', run, seen', fun p hp =>
      ⟨Frame.payload_frame p, Frame.checkSize_frame (short p hp)⟩⟩
  · intro w now inc n seen short size
    have first := Incoming.first_of_prefix size
    rw [BigEndian.length_encode] at first
    have enough := size.length_le
    rw [BigEndian.length_encode, Incoming.length_bytes] at enough
    obtain ⟨w₁, s, w₂, k, stop, w', now', sizeRun, clock, -, arrived, run, taken, seen'⟩ :=
      brings.receive seen short size
    rw [← first, ← Incoming.first_add] at run
    refine ⟨w₁, s, w₂, _, k, w', now', first ▸ sizeRun, clock, arrived, run, rfl, taken.enough,
      ?_, ?_, ?_, ?_, seen'⟩
    · have there := taken.there
      rw [Incoming.length_arrivals_drop] at there
      omega
    · intro a ha
      rw [Incoming.take_add_arrivals] at ha
      rcases List.mem_append.1 ha with inSize | behind
      · exact Int.le_trans (arrived a inSize) taken.later
      · exact taken.arrived a behind
    · intro cut
      rw [← Incoming.drop_drop]
      exact taken.stalls cut
    · rw [Incoming.first_add, first, Frame.checkSize_parts short,
        Incoming.length_first taken.there]

end Receiving

/-! ### Messages in pieces -/

namespace Rehearsal

/-- Three messages in pieces that do not end where the messages do, and the first half of a fourth,
after which the connection is closed. -/
def pieces : List Step :=
  [⟨5, .write [0, 0]⟩, ⟨5, .write [0, 3, 1]⟩, ⟨80, .write [2, 3, 0, 0, 0, 0, 0, 0]⟩,
    ⟨1, .write [0, 1, 4, 0, 0, 0, 2, 7]⟩, ⟨0, .close⟩]

def worldOfPieces : World where
  links := [{ conduct := .listening, capacity := 64, steps := pieces }]

def firstClient : Client InWorld := ⟨(0 : Nat), {}⟩

theorem sees_worldOfPieces : World.Sees 0 worldOfPieces 0 (Link.upcoming 0 pieces) :=
  ⟨rfl, rfl, _, rfl, .open [] rfl (by decide) rfl nofun rfl rfl (by decide)⟩

/-- The three messages are received in full, and what there is of the fourth. -/
theorem receives_framed_pieces :
    Brings firstClient.connection (World.Sees 0) ∧
    ∃ w', ([[1, 2, 3], [], [4]].mapM fun _ => firstClient.receive).run worldOfPieces =
        .ok (.ok [⟨[0, 0, 0, 3, 1, 2, 3]⟩, ⟨[0, 0, 0, 0]⟩, ⟨[0, 0, 0, 1, 4]⟩]) w' ∧
      ∃ f w'', firstClient.receive.run w' = .ok (.ok f) w'' ∧ f.raw = [0, 0, 0, 2, 7] ∧
        f.checkSize = .error (.wrongSize 2 1) := by
  have brought : Brings firstClient.connection (World.Sees 0) := brings 0
  obtain ⟨whole, cut⟩ := Client.receives_framed (c := firstClient) brought
  have short : ∀ p ∈ ([[1, 2, 3], [], [4]] : List Bytes), p.length < 0x80000000 := by decide
  have bytes : (Link.upcoming 0 pieces).bytes =
      ([[1, 2, 3], [], [4]] : List Bytes).flatMap frame ++ [0, 0, 0, 2, 7] := by decide
  have inTime : firstClient.InTime [[1, 2, 3], [], [4]] (Link.upcoming 0 pieces).arrivals
      worldOfPieces := brought.inTime_of_prompt sees_worldOfPieces short bytes (by decide)
  obtain ⟨w', now', run, sees', -⟩ := whole sees_worldOfPieces short bytes inTime
  obtain ⟨w₁, s, w₂, f, k, w'', now'', -, -, arrived, run', raw, few, there, -, stalls, size, -⟩ :=
    cut (n := 2) sees' (by decide) (by decide)
  -- the time that is waited begins when the last piece has come in, and the stream has ended
  have one : k = 1 := by
    have most : 4 + k ≤ 5 := there
    have late : 91 ≤ s := arrived ⟨91, 0⟩ (by decide)
    rcases Nat.eq_zero_or_pos k with rfl | some
    · rcases stalls (by decide) with ⟨empty, -⟩ | ⟨-, next⟩
      · exact absurd empty (by decide)
      · have before : s + 100 ≤ 91 := next 91 (by decide)
        omega
    · omega
  subst one
  exact ⟨brought, w', run, f, w'', run', raw, size⟩

end Rehearsal
end BrokerExam
