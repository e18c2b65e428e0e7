/-
BrokerExam/Proofs/Exam/Concurrent.lean

Several clients at once.  Each sends a request on a connection of its own, and
then the answers are read, the last first.  However the broker orders and times
its answers, each client is judged by what is on its own connection, and the
outcome is that of a function of the correlation ids and these answers alone
(`verdictOnAnswers`).

Main result: `concurrently_judges`.
-/
import BrokerExam.Exam.Handshake
import BrokerExam.Proofs.Message.RoundTrip
import BrokerExam.Proofs.Rehearsal.Serving
import BrokerExam.Proofs.Verdict.CorrelationId
import BrokerExam.Proofs.Verdict.Passing

namespace BrokerExam.Exam

/-! ### The request -/

section Request

variable (id : Int32)

theorem encoding_request : (ApiVersionsRequestBody.draft.withCorrelationId id).encoding =
    [⟨["ApiVersionsRequest", "Header", "APIKey"], .int16 18⟩,
      ⟨["ApiVersionsRequest", "Header", "APIVersion"], .int16 4⟩,
      ⟨["ApiVersionsRequest", "Header", "CorrelationID"], .int32 id⟩,
      ⟨["ApiVersionsRequest", "Header", "ClientID"], .string (some "kafka-tester")⟩,
      ⟨["ApiVersionsRequest", "Header", "TAG_BUFFER"], .unsignedVarint 0⟩,
      ⟨["ApiVersionsRequest", "Body", "ClientSoftwareName"], .compactString "kafka-cli"⟩,
      ⟨["ApiVersionsRequest", "Body", "ClientSoftwareVersion"], .compactString "0.1"⟩,
      ⟨["ApiVersionsRequest", "Body", "TAG_BUFFER"], .unsignedVarint 0⟩] := rfl

theorem length_request :
    (ApiVersionsRequestBody.draft.withCorrelationId id).encoding.bytes.length = 38 := by
  have int32 : (Value.int32 id).bytes.length = 4 := rfl
  rw [encoding_request]
  simp only [Encoding.bytes, List.flatMap_cons, List.flatMap_nil, List.length_append, int32]
  decide +kernel

theorem encode_request : (ApiVersionsRequestBody.draft.withCorrelationId id).encode =
    .ok (frame (ApiVersionsRequestBody.draft.withCorrelationId id).encoding.bytes) := by
  have short : (ApiVersionsRequestBody.draft.withCorrelationId id).encoding.Short :=
    Request.short_encoding Codec.Lawful.on_all rfl trivial
  rw [Request.encode, short.render]
  rfl

/-- The request can be shown, whatever its correlation id is. -/
theorem lines_request : ∃ lines,
    Tree.lines (ApiVersionsRequestBody.draft.withCorrelationId id).encoding.fields = .ok lines := by
  have notRoot : ∀ f ∈ (ApiVersionsRequestBody.draft.withCorrelationId id).encoding.fields,
      f.path.segments ≠ [] := by
    rw [encoding_request]
    simp [Encoding.fields, Encoding.fieldsFrom]
  obtain ⟨pen, -, shown, -⟩ := Tree.lines_ok notRoot
  exact ⟨_, shown⟩

end Request

/-! ### Right answers -/

/-- The answer is right for a client with this correlation id. -/
def Passes (id : Int32) (answer : Bytes) : Prop :=
  ∃ r, Verdict.verdict (ownAnswer id) ⟨frame answer⟩ false = .ok r

/-- The answer in which the broker serves just the versions that are asked for. -/
def plainAnswer (id : Int32) : Response ApiVersionsResponseBody where
  header := { correlationId := id }
  body := { apiKeys := ownVersions }

section Plain

variable (id : Int32)

theorem encoding_plainAnswer : (plainAnswer id).encoding =
    [⟨["ApiVersionsResponse", "Header", "CorrelationID"], .int32 id⟩,
      ⟨["ApiVersionsResponse", "Body", "ErrorCode"], .int16 0⟩,
      ⟨["ApiVersionsResponse", "Body", "ApiKeys", "Length"], .compactArrayLength 2⟩,
      ⟨["ApiVersionsResponse", "Body", "ApiKeys", "ApiKeys[0]", "APIKey"], .int16 18⟩,
      ⟨["ApiVersionsResponse", "Body", "ApiKeys", "ApiKeys[0]", "MinVersion"], .int16 0⟩,
      ⟨["ApiVersionsResponse", "Body", "ApiKeys", "ApiKeys[0]", "MaxVersion"], .int16 4⟩,
      ⟨["ApiVersionsResponse", "Body", "ApiKeys", "ApiKeys[0]", "TAG_BUFFER"], .unsignedVarint 0⟩,
      ⟨["ApiVersionsResponse", "Body", "ThrottleTimeMs"], .int32 0⟩,
      ⟨["ApiVersionsResponse", "Body", "TAG_BUFFER"], .unsignedVarint 0⟩] := rfl

theorem length_plainAnswer : (plainAnswer id).encode.length = 19 := by
  have int32 : (Value.int32 id).bytes.length = 4 := rfl
  show (plainAnswer id).encoding.bytes.length = 19
  rw [encoding_plainAnswer]
  simp only [Encoding.bytes, List.flatMap_cons, List.flatMap_nil, List.length_append, int32]
  decide +kernel

/-- No field of the answer is complained about. -/
theorem fine_plainAnswer {f : Field} (hf : f ∈ (plainAnswer id).encoding.fields)
    (dotless : ∀ s ∈ f.path.segments, '.' ∉ s.toList) :
    Verdict.complaint? (ownAnswer id) f = .ok none := by
  obtain ⟨l, hl, path, value⟩ := Encoding.leaf_of_mem_fields hf
  have demanded {d : Demand} (below : l.path ≠ []) :=
    Expectation.complaint?_of_value (d := d) (e := ownAnswer id) path value below dotless
  rw [encoding_plainAnswer] at hl
  simp only [List.mem_cons, List.not_mem_nil, or_false] at hl
  rcases hl with rfl | rfl | rfl | rfl | rfl | rfl | rfl | rfl | rfl
  · exact demanded (List.cons_ne_nil _ _) rfl fun _ same => Option.some.inj same
  · exact demanded (List.cons_ne_nil _ _) rfl fun _ same => Option.some.inj same
  · exact demanded (d := .anything) (List.cons_ne_nil _ _) rfl nofun
  · exact demanded (d := .anything) (List.cons_ne_nil _ _) rfl nofun
  · exact demanded (d := .anything) (List.cons_ne_nil _ _) rfl nofun
  · exact demanded (d := .anything) (List.cons_ne_nil _ _) rfl nofun
  · exact Expectation.complaint?_of_tagBuffer
      ["ApiVersionsResponse", "Body", "ApiKeys", "ApiKeys[0]"] path
  · exact demanded (d := .anything) (List.cons_ne_nil _ _) rfl nofun
  · exact Expectation.complaint?_of_tagBuffer ["ApiVersionsResponse", "Body"] path

theorem checks_plainAnswer : Check.Passes (Expectation.checks (ownAnswer id) (plainAnswer id)) := by
  rw [← Check.objection?_eq_none_iff]
  rfl

theorem short_plainAnswer : (plainAnswer id).encode.length < 0x80000000 := by
  rw [length_plainAnswer]
  decide

/-- The plain answer passes. -/
theorem passes_plainAnswer : Passes id (plainAnswer id).encode := by
  have served : (plainAnswer id).body.errorCode ≠ 35 := by
    show (0 : Int16) ≠ 35
    decide
  obtain ⟨s, run, -, fields⟩ := Response.read_encode ApiVersionsResponseBody.codec_lawfulOn served
    (Nat.lt_trans (short_plainAnswer id) (by decide))
  rw [Response.writtenBack, ApiVersionsResponseBody.codec_write_fst served] at run
  exact ⟨plainAnswer id, Verdict.passes_of_fine Expectation.covers_apiVersions
    (short_plainAnswer id) run (fun f hf dotless => fine_plainAnswer id (fields ▸ hf) dotless)
    (checks_plainAnswer id) false⟩

end Plain

/-! ### The verdict -/

/-- The verdict on the answer to the client with a correlation id and a number. -/
def verdictOnAnswer (seat : Int32 × Nat) (reply : Nat → Bytes) : Except Failure Unit := do
  let _ ← Verdict.verdict (ownAnswer seat.1) ⟨frame (reply seat.2)⟩ false

/-- The verdict on the answers to clients with these correlation ids, of which the last is the first
to be judged. -/
def verdictOnAnswers (ids : List Int32) (reply : Nat → Bytes) : Except Failure Unit :=
  (ids.zipIdx 1).reverse.forM (verdictOnAnswer · reply)

/-! ### All clients -/

section Serving

variable {η σ : Type} [Journal (EStateM η σ)] [Clock (EStateM η σ)] [Network (EStateM η σ)]
  {s : Setting} {reply : Nat → Bytes} {sees : σ → Int → Connections (EStateM η σ) → Prop}
  {w : σ} {t : Int} {cs before after : Connections (EStateM η σ)}

/-- The correlation id and the number of a client. -/
def Participant.seat (p : Participant (EStateM η σ)) : Int32 × Nat := (p.id, p.number)

namespace Serves

/-- An answer is judged by what it is. -/
theorem judges (serves : Serves s reply sees) (seen : sees w t cs) (id : Int32) (n : Nat) :
    ∃ t' w', (judge (ownAnswer id) ⟨frame (reply n)⟩ : Tried (EStateM η σ) Unit).run w =
      .ok (verdictOnAnswer (id, n) reply) w' ∧ sees w' t' cs := by
  have settled := (Verdict.settles_judgeMessage (serves.journals t cs) (ownAnswer id)
    ⟨frame (reply n)⟩ false).bind fun _ _ => Settles.of_except (.ok ())
  obtain ⟨w', run, t', -, seen'⟩ := settled w ⟨t, Int.le_refl t, seen⟩
  exact ⟨t', w', run, seen'⟩

/-- All connect, one after the other. -/
theorem all_connect (serves : Serves s reply sees) (ids : List Int32) (k : Nat)
    (seen : sees w t cs) :
    Succeeds w ((ids.zipIdx k).mapM fun (id, i) =>
        return { number := i + 1, id, client := ← s.connect } :
          Tried (EStateM η σ) (List (Participant (EStateM η σ))))
      fun ps w' => ps.map Participant.seat = ids.zipIdx (k + 1) ∧
        (∀ p ∈ ps, p.client.config = s.client) ∧
        ∃ t', sees w' t' (cs ++ ps.map fun p => (p.client.connection, .silent)) := by
  induction ids generalizing k w t cs with
  | nil => exact Succeeds.pure ⟨rfl, nofun, t, by simpa using seen⟩
  | cons id ids ih =>
    rw [List.zipIdx_cons, List.mapM_cons, bind_assoc]
    refine (serves.connects seen).bind fun c w₁ ⟨config, t₁, seen₁⟩ => ?_
    refine (ih (k + 1) seen₁).bind fun ps w₂ ⟨seats, configs, t₂, seen₂⟩ => ?_
    refine Succeeds.pure ⟨?_, ?_, t₂, ?_⟩
    · rw [List.map_cons, seats]
      rfl
    · exact List.forall_mem_cons.2 ⟨config, configs⟩
    · rwa [List.append_assoc] at seen₂

/-- All send their requests, before any answer is read. -/
theorem all_send (serves : Serves s reply sees) {ps : List (Participant (EStateM η σ))}
    (seen : sees w t (cs ++ ps.map fun p => (p.client.connection, .silent))) :
    Succeeds w (ps.forM fun p => do
        info s!"client-{p.number}: sending request"
        p.client.sendRequest (ApiVersionsRequestBody.draft.withCorrelationId p.id) :
          Tried (EStateM η σ) Unit)
      fun _ w' => ∃ t', sees w' t' (cs ++ ps.map fun p => (p.client.connection, .asked)) := by
  induction ps generalizing cs w t with
  | nil => exact Succeeds.pure ⟨t, seen⟩
  | cons p ps ih =>
    obtain ⟨lines, shown⟩ := lines_request p.id
    have short : (ApiVersionsRequestBody.draft.withCorrelationId p.id).encoding.bytes.length <
        0x80000000 := by
      rw [length_request]
      decide
    rw [List.forM_eq_forM, List.forM_cons, bind_assoc]
    refine serves.tell seen fun w₁ t₁ seen₁ => ?_
    refine (serves.sends seen₁ (encode_request p.id) short shown).bind
      fun _ w₂ ⟨t₂, seen₂⟩ => ?_
    rw [List.append_cons] at seen₂
    refine (ih seen₂).mono ?_
    rintro _ w' ⟨u, rfl, t', seen'⟩
    rw [← List.append_cons] at seen'
    exact ⟨u, rfl, t', seen'⟩

/-- When all requests have been sent, each client is answered on its own connection. -/
theorem all_answer (serves : Serves s reply sees) {ps : List (Participant (EStateM η σ))}
    {ids : List Int32} (seats : ps.map Participant.seat = ids.zipIdx 1)
    (seen : sees w t (ps.map fun p => (p.client.connection, .asked))) :
    ∃ cs, List.Forall₂ (fun p => Answers s reply (p.client.connection, p.number)) ps cs ∧
      sees w t cs := by
  have asked : (ps.map fun p => (p.client.connection, Standing.asked)) =
      (ps.map fun p => p.client.connection).map (·, .asked) := by
    rw [List.map_map]
    rfl
  have length : ps.length = ids.length := by
    rw [← List.length_map Participant.seat, seats, List.length_zipIdx]
  have numbers : ps.map Participant.number = List.range' 1 ps.length := by
    have numbers := congrArg (List.map Prod.snd) seats
    rwa [List.map_map, List.zipIdx_map_snd, ← length] at numbers
  have numbered : (ps.map fun p => p.client.connection).zipIdx 1 =
      ps.map fun p => (p.client.connection, p.number) := by
    rw [List.zipIdx_eq_zip_range', List.length_map, ← numbers, List.zip_map']
  rw [asked] at seen
  obtain ⟨cs, answers, seen⟩ := serves.answers seen
  rw [numbered, List.forall₂_map_left_iff] at answers
  exact ⟨cs, answers, seen⟩

/-- The answers are read and judged, each by what is on its own connection. -/
theorem all_receive (serves : Serves s reply sees) (short : ∀ n, (reply n).length < 0x80000000)
    {ps : List (Participant (EStateM η σ))} {cs : Connections (EStateM η σ)}
    (configs : ∀ p ∈ ps, p.client.config = s.client)
    (answered : List.Forall₂ (fun p => Answers s reply (p.client.connection, p.number)) ps cs)
    (seen : sees w t (cs.reverse ++ after)) :
    Ends w (ps.forM fun p => do
        let answer ← p.client.receiveResponse .apiVersions
        info s!"client-{p.number}: received response"
        judge (ownAnswer p.id) answer : Tried (EStateM η σ) Unit)
      fun v w' => v = (ps.map Participant.seat).forM (verdictOnAnswer · reply) ∧
        ∃ cs' t', sees w' t' cs' := by
  -- what a verdict is made of does not matter, and would be unfolded
  obtain ⟨verdict, same⟩ : ∃ verdict : Int32 × Nat → Except Failure Unit,
      ∀ seat, verdictOnAnswer seat reply = verdict seat := ⟨_, fun _ => rfl⟩
  simp only [same]
  -- the connections are read from the last one on; those that have been read stand in `after`
  induction answered generalizing w t after with
  | nil => exact ⟨_, w, rfl, rfl, _, t, seen⟩
  | @cons p c ps cs first others ih =>
    obtain ⟨config, configs⟩ := List.forall_mem_cons.1 configs
    obtain ⟨inc, rfl, bytes, prompt⟩ := first
    rw [List.reverse_cons, List.append_assoc, List.singleton_append] at seen
    rw [List.forM_eq_forM, List.forM_cons, bind_assoc]
    refine (serves.receives config seen (short p.number) bytes prompt .apiVersions).bind ?_
    rintro _ w₁ ⟨rfl, inc', t₁, seen₁⟩
    rw [bind_assoc]
    refine serves.tell seen₁ fun w₂ t₂ seen₂ => ?_
    obtain ⟨t₃, w₃, run, seen₃⟩ := serves.judges seen₂ p.id p.number
    rw [show verdictOnAnswer (p.id, p.number) reply = verdict p.seat from same _] at run
    rw [List.map_cons, List.forM_eq_forM, List.forM_cons]
    cases outcome : verdict p.seat with
    | error e =>
      rw [outcome] at run
      exact ⟨.error e, w₃, run_bind_of_error run, rfl, _, t₃, seen₃⟩
    | ok u =>
      rw [outcome] at run
      exact Ends.step run (ih configs seen₃)

/-- Each closes its connection. -/
theorem all_finish (serves : Serves s reply sees) (ps : List (Participant (EStateM η σ)))
    (seen : sees w t cs) :
    ∃ w', (ps.forM fun p => p.client.close : Tried (EStateM η σ) Unit).run w = .ok (.ok ()) w' := by
  induction ps generalizing w t with
  | nil => exact ⟨w, rfl⟩
  | cons p ps ih =>
    obtain ⟨t₁, w₁, run, seen₁⟩ := serves.finish p.client.connection seen
    have closed : (p.client.close : Tried (EStateM η σ) Unit).run w = .ok (.ok ()) w₁ :=
      bind_of_ok run
    obtain ⟨w', runs⟩ := ih seen₁
    rw [List.forM_eq_forM, List.forM_cons, run_bind_of_ok closed]
    exact ⟨w', runs⟩

end Serves

/-! ### The outcome -/

theorem verdictOnAnswer_ok_iff {seat : Int32 × Nat} :
    verdictOnAnswer seat reply = .ok () ↔ Passes seat.1 (reply seat.2) := by
  rw [verdictOnAnswer, Except.bind_eq_ok_iff]
  exact ⟨fun ⟨r, passed, _⟩ => ⟨r, passed⟩, fun ⟨r, passed⟩ => ⟨r, passed, rfl⟩⟩

theorem verdictOnAnswer_error_iff {seat : Int32 × Nat} {e : Failure} :
    verdictOnAnswer seat reply = .error e ↔
      Verdict.verdict (ownAnswer seat.1) ⟨frame (reply seat.2)⟩ false = .error e := by
  rw [verdictOnAnswer]
  generalize Verdict.verdict (ownAnswer seat.1) ⟨frame (reply seat.2)⟩ false = outcome
  cases outcome with
  | error e' =>
    constructor
    · exact fun failed => congrArg _ (Except.error.inj failed)
    · exact fun failed => congrArg _ (Except.error.inj failed)
  | ok r => exact ⟨nofun, nofun⟩

section Seats

variable {ids : List Int32}

theorem getElem?_seats_eq_some_iff {id : Int32} {i n : Nat} :
    (ids.zipIdx 1)[i]? = some (id, n) ↔ ids[i]? = some id ∧ n = i + 1 := by
  rw [List.getElem?_zipIdx, Nat.add_comm, Option.map_eq_some_iff]
  constructor
  · rintro ⟨_, there, same⟩
    cases same
    exact ⟨there, rfl⟩
  · rintro ⟨there, rfl⟩
    exact ⟨id, there, rfl⟩

/-- The clients pass together if each of them passes. -/
theorem verdictOnAnswers_ok_iff : verdictOnAnswers ids reply = .ok () ↔
    ∀ i id, ids[i]? = some id → Passes id (reply (i + 1)) := by
  rw [verdictOnAnswers, List.forM_eq_forM, forM_ok_iff]
  simp only [verdictOnAnswer_ok_iff, List.mem_reverse]
  constructor
  · intro all i id there
    have seated := getElem?_seats_eq_some_iff.2 ⟨there, rfl⟩
    exact all (id, i + 1) (List.mem_of_getElem? seated)
  · rintro all ⟨id, n⟩ seated
    obtain ⟨i, here⟩ := List.mem_iff_getElem?.1 seated
    obtain ⟨there, rfl⟩ := getElem?_seats_eq_some_iff.1 here
    exact all i id there

/-- The failure is that of the last client who does not pass. -/
theorem verdictOnAnswers_error_iff {e : Failure} :
    verdictOnAnswers ids reply = .error e ↔ ∃ i id, ids[i]? = some id ∧
      Verdict.verdict (ownAnswer id) ⟨frame (reply (i + 1))⟩ false = .error e ∧
      ∀ j id', i < j → ids[j]? = some id' → Passes id' (reply (j + 1)) := by
  rw [verdictOnAnswers, List.forM_eq_forM, forM_error_iff]
  simp only [verdictOnAnswer_ok_iff, verdictOnAnswer_error_iff]
  constructor
  · rintro ⟨judged, ⟨id, n⟩, left, split, fine, failed⟩
    have split : ids.zipIdx 1 = left.reverse ++ (id, n) :: judged.reverse := by
      have back := congrArg List.reverse split
      simpa using back
    have here : (ids.zipIdx 1)[left.length]? = some (id, n) := by
      rw [split]
      simp
    obtain ⟨there, rfl⟩ := getElem?_seats_eq_some_iff.1 here
    refine ⟨left.length, id, there, failed, fun j id' later there' => ?_⟩
    have seated := getElem?_seats_eq_some_iff.2 ⟨there', rfl⟩
    obtain ⟨k, rfl⟩ := Nat.exists_eq_add_of_lt later
    have behind : judged.reverse[k]? = some (id', left.length + k + 1 + 1) := by
      rw [split] at seated
      simpa [Nat.add_assoc, List.getElem?_append_right] using seated
    exact fine (id', left.length + k + 1 + 1) (List.mem_reverse.1 (List.mem_of_getElem? behind))
  · rintro ⟨i, id, there, failed, fine⟩
    obtain ⟨inside, value⟩ := List.getElem?_eq_some_iff.1
      (getElem?_seats_eq_some_iff.2 ⟨there, rfl⟩)
    have split : (ids.zipIdx 1).take i ++ (id, i + 1) :: (ids.zipIdx 1).drop (i + 1) =
        ids.zipIdx 1 := by
      rw [← value, List.getElem_cons_drop, List.take_append_drop]
    refine ⟨((ids.zipIdx 1).drop (i + 1)).reverse, (id, i + 1), ((ids.zipIdx 1).take i).reverse,
      ?_, ?_, failed⟩
    · rw [← List.reverse_inj, List.reverse_reverse, List.reverse_append, List.reverse_cons]
      simpa using split.symm
    · rintro ⟨id', n⟩ behind
      obtain ⟨k, here⟩ := List.mem_iff_getElem?.1 (List.mem_reverse.1 behind)
      rw [List.getElem?_drop, getElem?_seats_eq_some_iff] at here
      obtain ⟨there', rfl⟩ := here
      exact fine (i + 1 + k) id' (by omega) there'

end Seats

/-- **Each client is judged by the answer on its own connection.**  However the broker orders, times
and cuts its answers, the outcome is the same; it is a success exactly if each answer is right for
the client on whose connection it is, and otherwise the failure of the last client whose answer is
not.  So an answer that is right for another correlation id makes the outcome a failure, as each of
two answers does that have been swapped. -/
theorem concurrently_judges (serves : Serves s reply sees)
    (short : ∀ n, (reply n).length < 0x80000000) (ids : List Int32) (start : sees w t []) :
    (∃ w', (concurrently s ids : Tried (EStateM η σ) Unit).run w =
      .ok (verdictOnAnswers ids reply) w') ∧
    (verdictOnAnswers ids reply = .ok () ↔
      ∀ i id, ids[i]? = some id → Passes id (reply (i + 1))) ∧
    (∀ e, verdictOnAnswers ids reply = .error e ↔ ∃ i id, ids[i]? = some id ∧
      Verdict.verdict (ownAnswer id) ⟨frame (reply (i + 1))⟩ false = .error e ∧
      ∀ j id', i < j → ids[j]? = some id' → Passes id' (reply (j + 1))) ∧
    ∀ i id id', ids[i]? = some id → id ≠ id' → Passes id' (reply (i + 1)) →
      ∃ e, verdictOnAnswers ids reply = .error e := by
  refine ⟨?_, verdictOnAnswers_ok_iff, fun _ => verdictOnAnswers_error_iff, ?_⟩
  · suffices done : Ends w (concurrently s ids : Tried (EStateM η σ) Unit)
        fun v _ => v = verdictOnAnswers ids reply by
      obtain ⟨_, w', run, rfl⟩ := done
      exact ⟨w', run⟩
    unfold concurrently
    refine (serves.all_connect ids 0 start).bind fun ps w₁ ⟨seats, configs, t₁, seen₁⟩ => ?_
    refine (serves.all_send seen₁).bind fun _ w₂ ⟨t₂, seen₂⟩ => ?_
    obtain ⟨cs, answers, seen₃⟩ := serves.all_answer seats seen₂
    -- the clients are judged in the other order, and so are their connections
    have seen₃ : sees w₂ t₂ (cs.reverse.reverse ++ []) := by
      rwa [List.reverse_reverse, List.append_nil]
    have judged := serves.all_receive short (fun p hp => configs p (List.mem_reverse.1 hp))
      (List.rel_reverse answers) seen₃
    rw [List.map_reverse, seats, ← verdictOnAnswers] at judged
    refine judged.bind (fun e w₃ h => h.1) fun _ w₃ ⟨passed, cs', t₃, seen₄⟩ => ?_
    obtain ⟨w', finished⟩ := serves.all_finish ps seen₄
    exact ⟨.ok (), w', finished, passed⟩
  · intro i id id' there different passes
    rcases outcome : verdictOnAnswers ids reply with e | u
    · exact ⟨e, rfl⟩
    · obtain ⟨_, own⟩ := verdictOnAnswers_ok_iff.1 outcome i id there
      obtain ⟨_, other⟩ := passes
      exact absurd (ApiVersionsExpectation.correlationId_unique own other) different

end Serving

/-! ### Two clients -/

def anySetting : Setting := { address := "localhost:9092", plan := { root := "/logs" } }

/-- The first of two connections brings its answer some time after the second. -/
def twoAnswers (first second : Int32) : Rehearsal.Answering where
  reply n := (plainAnswer (if n = 1 then first else second)).encode
  delay n := if n = 1 then 300 else 20
  closes n := n = 1

theorem short_twoAnswers (first second : Int32) (n : Nat) :
    ((twoAnswers first second).reply n).length < 0x80000000 := short_plainAnswer _

/-- Two clients with different correlation ids pass if each gets its own answer, and fail if the
answers are swapped. -/
theorem concurrently_judges_two :
    (∃ w', (concurrently anySetting [7, 8] : Tried Rehearsal.InWorld Unit).run
      (twoAnswers 7 8).world = .ok (.ok ()) w') ∧
    ∃ e w', (concurrently anySetting [7, 8] : Tried Rehearsal.InWorld Unit).run
      (twoAnswers 8 7).world = .ok (.error e) w' := by
  obtain ⟨⟨w', run⟩, passes, -⟩ := concurrently_judges
    ((twoAnswers 7 8).serves anySetting (short_twoAnswers 7 8)) (short_twoAnswers 7 8) [7, 8]
    (twoAnswers 7 8).sees_world
  obtain ⟨⟨w₁, run₁⟩, -, -, fails⟩ := concurrently_judges
    ((twoAnswers 8 7).serves anySetting (short_twoAnswers 8 7)) (short_twoAnswers 8 7) [7, 8]
    (twoAnswers 8 7).sees_world
  constructor
  · have fine : verdictOnAnswers [7, 8] (twoAnswers 7 8).reply = .ok () := by
      refine passes.2 fun i id there => ?_
      match i with
      | 0 =>
        cases there
        exact passes_plainAnswer 7
      | 1 =>
        cases there
        exact passes_plainAnswer 8
      | i + 2 => cases there
    rw [fine] at run
    exact ⟨w', run⟩
  · obtain ⟨e, failed⟩ := fails 0 7 8 rfl (by decide) (passes_plainAnswer 8)
    rw [failed] at run₁
    exact ⟨e, w₁, run₁⟩

end BrokerExam.Exam
