/-
BrokerExam/Proofs/Verdict/Precedence.lean

Which of several failures is told.  An answer can be of the wrong size, hold
several wrong values, break off, and contradict itself across its fields, all at
once.  What is reported is the first of

* the size of the message,
* the last of the fields that are wrong,
* the error that ended the reading,
* the first of the checks across fields that does not hold,

and the journal gets, besides, the tree and the bytes that belong to it.  The
outcome and what is told depend on no world (`Tells`), so that both can be listed
case by case (`Verdict.Judged`).

Main result: `judging_inOrder`, for the answers of all APIs.
-/
import BrokerExam.Proofs.Field.Display
import BrokerExam.Proofs.Verdict.Faultless

namespace BrokerExam

open Rehearsal

/-! ### What is told -/

/-- The world with the entries told, below the spans that it is in. -/
def Rehearsal.World.told (w : World) (log : List Entry) : World :=
  { w with
    said := w.said ++ (log.map fun e => Said.entry { e with spans := w.spans ++ e.spans }).toArray }

theorem Rehearsal.World.told_nil (w : World) : w.told [] = w := by
  rw [told, List.map_nil, Array.append_empty]

theorem Rehearsal.World.told_told (w : World) (log log' : List Entry) :
    (w.told log).told log' = w.told (log ++ log') := by
  simp only [told, List.map_append, ← List.append_toArray, Array.append_assoc]

/-- Lines at a level, below spans. -/
def entriesOf (level : Level) (spans lines : List String) : List Entry :=
  lines.map fun text => { level, spans, text }

/-- In every world the computation ends with the outcome, and does nothing but tell the entries. -/
def Tells {α : Type} (x : Tried InWorld α) (v : Except Failure α) (log : List Entry) : Prop :=
  ∀ w, x.run w = .ok v (w.told log)

namespace Tells

variable {α β : Type} {x : Tried InWorld α} {f : α → Tried InWorld β} {v : Except Failure β}
  {log log' : List Entry}

theorem of_except (v : Except Failure α) : Tells (ExceptT.mk (pure v)) v [] := by
  intro w
  rw [World.told_nil]
  rfl

theorem faultless (a : α) : Tells (BrokerExam.faultless (.ok a)) (.ok a) [] := of_except _

theorem bind {a : α} (hx : Tells x (.ok a) log) (hf : Tells (f a) v log') :
    Tells (x >>= f) v (log ++ log') := by
  intro w
  rw [← World.told_told, ← hf (w.told log)]
  exact bind_of_ok (hx w)

/-- What fails is all that is done. -/
theorem bind_error {failure : Failure} (hx : Tells x (.error failure) log) :
    Tells (x >>= f) (.error failure) log := fun w => bind_of_ok (hx w)

theorem within {u : Except Failure α} (span : String) (hx : Tells x u log) :
    Tells (Journal.within span x) u (log.map fun e => { e with spans := span :: e.spans }) := by
  intro w
  have body := hx { w with spans := w.spans ++ [span] }
  -- the span is taken off again, and stays in what was told below it
  have same : w.told (log.map fun e => { e with spans := span :: e.spans }) =
      { ({ w with spans := w.spans ++ [span] } : World).told log with spans := w.spans } := by
    simp only [World.told, List.map_map, Function.comp_def, List.append_assoc,
      List.singleton_append]
  rw [same]
  exact bind_of_ok body

theorem tell (level : Level) (lines : List String) :
    Tells (Verdict.tell level lines) (.ok ()) (entriesOf level [] lines) := by
  unfold Verdict.tell
  induction lines with
  | nil => exact of_except _
  | cons line lines ih =>
    have first : Tells (Journal.record { level, text := line }) (.ok ())
        [{ level, text := line }] := by
      intro w
      simp only [World.told, List.map_cons, List.map_nil, ← Array.push_eq_append]
      rfl
    exact first.bind ih

end Tells

/-! ### Cases -/

/-- The size is there, and is that of what is behind it. -/
def Frame.Sized (f : Frame) : Prop := 4 ≤ f.raw.length ∧ f.declared.toInt = f.payload.length

namespace Verdict

variable {ε β : Type} [Expectation ε β]

/-- The field is a tag buffer, or nothing is wrong with it. -/
def Accepts (e : ε) (f : Field) : Prop :=
  f.path.lastSegment = .ok tagBufferSegment ∨ Rule.judge f (Expectation.rules e) = .ok none

/-- The field is no tag buffer, and something is wrong with it. -/
def Refuses (e : ε) (f : Field) (text : String) : Prop :=
  f.path.lastSegment ≠ .ok tagBufferSegment ∧
    Rule.judge f (Expectation.rules e) = .ok (some text)

theorem Accepts.not_refuses {e : ε} {f : Field} {text : String} (h : Accepts e f) :
    ¬ Refuses e f text := by
  rintro ⟨judged, refused⟩
  rcases h with tag | fine
  · exact judged tag
  · rw [fine] at refused
    cases refused

/-- What is told of a failed part: the tree that marks it, and the bytes. -/
def failureLog (tree : List String) (dump : String) : List Entry :=
  entriesOf .error ["Decoder"] (tree ++ "Received bytes:" :: dump.splitOn "\n")

/-- What is told of an answer that is read: all of it, and the remarks across its fields. -/
def readLog (tree : List String) (checks : List Check) : List Entry :=
  entriesOf .debug ["Decoder"] tree ++ entriesOf .info [] (Check.remarks checks)

/-- The bytes from `start` to `stop`, marked in those around them. -/
def dumped (payload : Bytes) (start stop : Nat) : Except Fault String :=
  (HexDump.mk payload 0).formatWithRange start (max (stop - 1) start)

variable [ResponseBody β]

/-- The answer is of the right size, and is read in full with no field refused. -/
def Complete (e : ε) (f : Frame) (r : Response β) : Prop :=
  f.Sized ∧ ∃ s, Response.read f.payload = .ok r s ∧ ∀ g ∈ s.fields.toList, Accepts e g

/-- How judging the message ends, and what is told: one case for each thing that can be the first
to be wrong, with all that goes before it in order. -/
inductive Judged (e : ε) (f : Frame) : Except Failure (Response β) → List Entry → Prop
  | missingSize : f.raw.length < 4 →
    Judged e f (.error (.objection (.missingSize f.raw.length))) []
  | wrongSize : 4 ≤ f.raw.length → f.declared.toInt ≠ f.payload.length →
    Judged e f (.error (.objection (.wrongSize f.declared.toInt f.payload.length))) []
  /-- The last of the fields that are refused, whether or not the reading went on to the end.  The
  tree ends at it, with what its value is shown as. -/
  | field {before after : List Field} {g : Field} {text shown : String} {above tree : List String}
    {dump : String} : f.Sized →
    Response.recorded β f.payload = before ++ g :: after → Refuses e g text →
    (∀ h ∈ after, Accepts e h) → Tree.lines before = .ok above →
    g.value.Shown shown → Tree.CrossedLast above g.path shown tree →
    dumped f.payload g.start g.stop = .ok dump →
    Judged e f (.error (.objection (.field g.path g.start g.stop text))) (failureLog tree dump)
  | unreadable {err : DecodeError} {s : ReadState Unit} {tree : List String} {dump : String} :
    f.Sized → Response.read (β := β) f.payload = .error err s →
    (∀ g ∈ s.fields.toList, Accepts e g) →
    Tree.linesForDecodeError s.fields.toList err.path = .ok tree →
    dumped f.payload err.start err.stop = .ok dump →
    Judged e f (.error (.objection (.unreadable err))) (failureLog tree dump)
  | composite {r : Response β} {s : ReadState Unit} {tree : List String} {text : String} :
    f.Sized → Response.read f.payload = .ok r s → (∀ g ∈ s.fields.toList, Accepts e g) →
    Tree.lines s.fields.toList = .ok tree →
    Check.objection? (Expectation.checks e r) = some text →
    Judged e f (.error (.objection (.composite text))) (readLog tree (Expectation.checks e r))
  | passed {r : Response β} {s : ReadState Unit} {tree : List String} :
    f.Sized → Response.read f.payload = .ok r s → (∀ g ∈ s.fields.toList, Accepts e g) →
    Tree.lines s.fields.toList = .ok tree → Check.Passes (Expectation.checks e r) →
    Judged e f (.ok r) (readLog tree (Expectation.checks e r))

theorem Complete.accepts {e : ε} {f : Frame} {r : Response β} (h : Complete e f r) {g : Field}
    (hg : g ∈ Response.recorded β f.payload) : Accepts e g := by
  obtain ⟨-, s, run, accepted⟩ := h
  rw [Response.recorded, run] at hg
  exact accepted g hg

/-- Exactly the answers pass that are complete and have nothing wrong across their fields. -/
theorem Judged.eq_ok_iff {e : ε} {f : Frame} {v : Except Failure (Response β)} {log : List Entry}
    (h : Judged e f v log) {r : Response β} :
    v = .ok r ↔ Complete e f r ∧ Check.Passes (Expectation.checks e r) := by
  constructor
  · rintro rfl
    cases h with
    | passed sized read accepted shown passes => exact ⟨⟨sized, _, read, accepted⟩, passes⟩
  · rintro ⟨complete, passes'⟩
    have all : ∀ g ∈ Response.recorded β f.payload, Accepts e g := fun g => complete.accepts
    obtain ⟨sized, s', read', -⟩ := complete
    cases h with
    | missingSize few => exact absurd sized.1 (Nat.not_le.2 few)
    | wrongSize enough other => exact absurd sized.2 other
    | field _ recorded refused =>
      have member := recorded ▸ List.mem_append_right _ List.mem_cons_self
      exact absurd refused (all _ member).not_refuses
    | unreadable _ unread =>
      rw [read'] at unread
      cases unread
    | composite _ read _ _ refused =>
      rw [read'] at read
      obtain ⟨rfl, -⟩ := EStateM.Result.ok.inj read
      rw [Check.objection?_eq_none_iff.2 passes'] at refused
      cases refused
    | passed _ read =>
      rw [read'] at read
      obtain ⟨rfl, -⟩ := EStateM.Result.ok.inj read
      rfl

/-! ### Complaints -/

omit [ResponseBody β] in
theorem accepts_of_complaint {e : ε} {f : Field} (h : complaint? e f = .ok none) :
    Accepts e f := by
  rcases named : f.path.lastSegment with fault | segment
  · rw [complaint?, named] at h
    cases h
  · rw [Expectation.complaint?_eq e named] at h
    split at h
    · next tag => exact .inl (named.trans (congrArg _ tag))
    · exact .inr h

omit [ResponseBody β] in
theorem refuses_of_complaint {e : ε} {f : Field} {text : String}
    (h : complaint? e f = .ok (some text)) : Refuses e f text := by
  rcases named : f.path.lastSegment with fault | segment
  · rw [complaint?, named] at h
    cases h
  · rw [Expectation.complaint?_eq e named] at h
    split at h
    · cases h
    · next other => exact ⟨fun tag => other (Except.ok.inj (named.symm.trans tag)), h⟩

omit [ResponseBody β] in
/-- There is no complaint, or one field is the last about which there is one. -/
theorem lastComplaint_cases (e : ε) {fields : List Field}
    (h : ∀ f ∈ fields, ∃ complaint, complaint? e f = .ok complaint) :
    (lastComplaint e fields = .ok none ∧ ∀ f ∈ fields, Accepts e f) ∨
    ∃ before g text after, lastComplaint e fields = .ok (some (g, text)) ∧
      fields = before ++ g :: after ∧ Refuses e g text ∧ ∀ f ∈ after, Accepts e f := by
  induction fields with
  | nil => exact .inl ⟨rfl, fun f hf => absurd hf List.not_mem_nil⟩
  | cons f fs ih =>
    obtain ⟨here, judged⟩ := h f List.mem_cons_self
    rw [lastComplaint, judged]
    rcases ih fun g hg => h g (List.mem_cons_of_mem f hg) with
      ⟨none, accepted⟩ | ⟨before, g, text, after, later, rfl, refused, accepted⟩
    · -- nothing is wrong behind the field, so that the field itself decides
      rw [none]
      cases here with
      | none =>
        refine .inl ⟨rfl, fun g hg => ?_⟩
        rcases List.mem_cons.1 hg with rfl | hg
        · exact accepts_of_complaint judged
        · exact accepted g hg
      | some text => exact .inr ⟨[], f, text, fs, rfl, rfl, refuses_of_complaint judged, accepted⟩
    · rw [later]
      exact .inr ⟨f :: before, g, text, after, rfl, rfl, refused, accepted⟩

/-! ### The fields -/

theorem tells_showFailure {tree : List String} {payload : Bytes} {start stop : Nat}
    {dump : String} (marked : dumped payload start stop = .ok dump) :
    Tells (showFailure (.ok tree) payload start stop) (.ok ())
      (entriesOf .error [] (tree ++ "Received bytes:" :: dump.splitOn "\n")) := by
  have whole : Tells (showFailure (.ok tree) payload start stop) (.ok ())
      ([] ++ (entriesOf .error [] tree ++ (entriesOf .error [] ["Received bytes:"] ++
        ([] ++ entriesOf .error [] (dump.splitOn "\n"))))) := by
    unfold showFailure
    rw [dumped] at marked
    rw [marked]
    apply (Tells.faultless tree).bind
    apply (Tells.tell .error tree).bind
    apply (Tells.tell .error ["Received bytes:"]).bind
    exact (Tells.faultless dump).bind (Tells.tell .error (dump.splitOn "\n"))
  simpa only [entriesOf, List.map_append, List.map_cons, List.map_nil, List.nil_append,
    List.singleton_append] using whole

theorem within_entriesOf (level : Level) (span : String) (lines : List String) :
    ((entriesOf level [] lines).map fun e => { e with spans := span :: e.spans }) =
      entriesOf level [span] lines := List.map_map ..

section Fields

variable {e : ε} {payload : Bytes} {tree : List String} {dump : String}

/-- A complaint about a field goes before what became of the reading. -/
theorem tells_judgeFields_field {g : Field} {text : String}
    (last : lastComplaint e (Response.recorded β payload) = .ok (some (g, text)))
    (shown : Tree.linesForFailedField (Response.recorded β payload) g.path = .ok tree)
    (marked : dumped payload g.start g.stop = .ok dump) :
    Tells (judgeFields e payload : Tried InWorld (Response β))
      (.error (.objection (.field g.path g.start g.stop text))) (failureLog tree dump) := by
  have report : Tells (do
      showFailure (Tree.linesForFailedField (Response.recorded β payload) g.path) payload g.start
        g.stop
      throw (.objection (.field g.path g.start g.stop text)) : Tried InWorld (Response β))
      (.error (.objection (.field g.path g.start g.stop text)))
      (entriesOf .error [] (tree ++ "Received bytes:" :: dump.splitOn "\n") ++ []) := by
    rw [shown]
    exact (tells_showFailure marked).bind (Tells.of_except (.error _))
  have told := report.within "Decoder"
  rw [List.append_nil, within_entriesOf] at told
  unfold judgeFields
  rw [Response.recorded] at last told
  rcases run : Response.read (β := β) payload with ⟨r, s⟩ | ⟨err, s⟩
  · rw [run] at last told
    dsimp only at last told ⊢
    rw [last]
    exact (Tells.faultless _).bind told
  · rw [run] at last told
    dsimp only at last told ⊢
    rw [last]
    exact (Tells.faultless _).bind told

theorem tells_judgeFields_unreadable {err : DecodeError} {s : ReadState Unit}
    (run : Response.read (β := β) payload = .error err s)
    (last : lastComplaint e s.fields.toList = .ok none)
    (shown : Tree.linesForDecodeError s.fields.toList err.path = .ok tree)
    (marked : dumped payload err.start err.stop = .ok dump) :
    Tells (judgeFields e payload : Tried InWorld (Response β))
      (.error (.objection (.unreadable err))) (failureLog tree dump) := by
  have report : Tells (do
      showFailure (Tree.linesForDecodeError s.fields.toList err.path) payload err.start err.stop
      throw (.objection (.unreadable err)) : Tried InWorld (Response β))
      (.error (.objection (.unreadable err)))
      (entriesOf .error [] (tree ++ "Received bytes:" :: dump.splitOn "\n") ++ []) := by
    rw [shown]
    exact (tells_showFailure marked).bind (Tells.of_except (.error _))
  have told := report.within "Decoder"
  rw [List.append_nil, within_entriesOf] at told
  unfold judgeFields
  rw [run]
  dsimp only
  rw [last]
  exact (Tells.faultless _).bind told

theorem tells_judgeFields_read {r : Response β} {s : ReadState Unit}
    (run : Response.read payload = .ok r s) (last : lastComplaint e s.fields.toList = .ok none)
    (shown : Tree.lines s.fields.toList = .ok tree) :
    Tells (judgeFields e payload) (.ok r) (entriesOf .debug ["Decoder"] tree) := by
  have report : Tells (do
      tell .debug (← faultless (Tree.lines s.fields.toList))
      return r : Tried InWorld (Response β)) (.ok r) ([] ++ (entriesOf .debug [] tree ++ [])) := by
    rw [shown]
    exact (Tells.faultless tree).bind ((Tells.tell .debug tree).bind (Tells.of_except (.ok r)))
  have told := report.within "Decoder"
  rw [List.nil_append, List.append_nil, within_entriesOf] at told
  unfold judgeFields
  rw [run]
  dsimp only
  rw [last]
  exact (Tells.faultless _).bind told

end Fields

/-! ### Messages -/

/-- An expectation with other checks across the fields. -/
structure Rechecked (ε β : Type) where
  expected : ε
  checks : Response β → List Check

instance : Expectation (Rechecked ε β) β where
  rules x := Expectation.rules x.expected
  checks x := x.checks

omit [ResponseBody β] in
theorem lastComplaint_rechecked (x : Rechecked ε β) (fields : List Field) :
    lastComplaint x fields = lastComplaint x.expected fields := by
  induction fields with
  | nil => rfl
  | cons f fs ih =>
    rw [lastComplaint, lastComplaint, ih]
    rfl

/-- The fields are judged by the rules alone. -/
theorem judgeFields_rechecked (x : Rechecked ε β) (payload : Bytes) :
    (judgeFields x payload : Tried InWorld (Response β)) = judgeFields x.expected payload := by
  unfold judgeFields
  simp only [lastComplaint_rechecked]

section Messages

variable {e : ε} {f : Frame} {log : List Entry}

theorem tells_judgeMessage_of_size {o : Objection} (size : f.checkSize = .error o) :
    Tells (judgeMessage e f false : Tried InWorld (Response β)) (.error (.objection o)) [] := by
  have objected : Tells (ExceptT.mk (pure (f.checkSize.mapError .objection)) : Tried InWorld Unit)
      (.error (.objection o)) [] := by
    rw [size]
    exact Tells.of_except _
  exact objected.bind_error

/-- A message of the right size is judged by what is behind its size. -/
theorem tells_judgeMessage_of_sized {v : Except Failure (Response β)} (sized : f.Sized)
    (rest : Tells (do
      let r ← judgeFields e f.payload
      judgeWhole e r
      return r) v log) : Tells (judgeMessage e f false) v log := by
  have size : Tells (ExceptT.mk (pure (f.checkSize.mapError .objection)) : Tried InWorld Unit)
      (.ok ()) [] := by
    rw [Frame.checkSize, Frame.sizeBytes, if_neg (Nat.not_lt.2 sized.1), if_pos sized.2]
    exact Tells.of_except _
  exact size.bind rest

theorem tells_judgeMessage_of_failed {failure : Failure} (sized : f.Sized)
    (fields : Tells (judgeFields e f.payload : Tried InWorld (Response β)) (.error failure) log) :
    Tells (judgeMessage e f false : Tried InWorld (Response β)) (.error failure) log :=
  tells_judgeMessage_of_sized sized fields.bind_error

omit [ResponseBody β] in
theorem tells_judgeWhole (e : ε) (r : Response β) : Tells (judgeWhole e r) (verdictOnWhole e r)
    (entriesOf .info [] (Check.remarks (Expectation.checks e r))) := by
  have whole : Tells (judgeWhole e r) (verdictOnWhole e r)
      (entriesOf .info [] (Check.remarks (Expectation.checks e r)) ++ []) := by
    unfold judgeWhole verdictOnWhole
    apply (Tells.tell .info _).bind
    rcases Check.objection? (Expectation.checks e r) with - | text
    · exact Tells.of_except _
    · exact Tells.of_except _
  rwa [List.append_nil] at whole

/-- An answer that is complete is judged across its fields. -/
theorem judged_of_read {r : Response β} {s : ReadState Unit} {tree : List String} (sized : f.Sized)
    (run : Response.read f.payload = .ok r s) (accepted : ∀ g ∈ s.fields.toList, Accepts e g)
    (shown : Tree.lines s.fields.toList = .ok tree)
    (fields : Tells (judgeFields e f.payload) (.ok r) (entriesOf .debug ["Decoder"] tree)) :
    ∃ v log, Judged e f v log ∧
      Tells (judgeMessage e f false : Tried InWorld (Response β)) v log := by
  have whole := tells_judgeWhole e r
  rw [verdictOnWhole] at whole
  rcases objection : Check.objection? (Expectation.checks e r) with - | text
  · rw [objection] at whole
    have passes := Check.objection?_eq_none_iff.1 objection
    have rest := fields.bind (f := fun r => do judgeWhole e r; pure r)
      (whole.bind (f := fun _ => pure r) (Tells.of_except (.ok r)))
    rw [List.append_nil] at rest
    exact ⟨_, _, .passed sized run accepted shown passes, tells_judgeMessage_of_sized sized rest⟩
  · rw [objection] at whole
    have rest := fields.bind (f := fun r => do judgeWhole e r; pure r)
      (whole.bind_error (f := fun _ => pure r))
    exact ⟨_, _, .composite sized run accepted shown objection,
      tells_judgeMessage_of_sized sized rest⟩

variable [ResponseLayout β]

/-- Either the fields are what is wrong, or the answer is complete. -/
theorem judged_judgeFields (h : Expectation.Covers ε) (e : ε) (sized : f.Sized) :
    ((¬ ∃ r : Response β, Complete e f r) ∧ ∃ failure log, Judged e f (.error failure) log ∧
      Tells (judgeFields e f.payload : Tried InWorld (Response β)) (.error failure) log) ∨
    ∃ r s tree, Response.read f.payload = .ok r s ∧ (∀ g ∈ s.fields.toList, Accepts e g) ∧
      Tree.lines s.fields.toList = .ok tree ∧
      Tells (judgeFields e f.payload) (.ok r) (entriesOf .debug ["Decoder"] tree) := by
  have judged : ∀ g ∈ Response.recorded β f.payload, ∃ complaint, complaint? e g = .ok complaint :=
    fun g hg => h.complaint_ok e hg
  rcases lastComplaint_cases e judged with
    ⟨last, accepted⟩ | ⟨before, g, text, after, last, split, refused, later⟩
  · rcases run : Response.read (β := β) f.payload with ⟨r, s⟩ | ⟨err, s⟩
    · -- all is read, and nothing is wrong
      have fields := Response.recorded_of_ok run
      rw [fields] at last accepted
      have below : ∀ g ∈ s.fields.toList, g.path.segments ≠ [] := fun g hg =>
        Response.path_recorded_ne_root h.tidy (fields ▸ hg)
      obtain ⟨pen, -, shown, -⟩ := Tree.lines_ok below
      exact .inr ⟨r, s, _, rfl, accepted, shown, tells_judgeFields_read run last shown⟩
    · -- reading has failed
      have fields := Response.recorded_of_error run
      obtain ⟨tree, shown⟩ := Response.tree_of_error h.tidy run
      obtain ⟨dump, marked⟩ :=
        HexDump.formatWithRange_ok f.payload err.start (max (err.stop - 1) err.start)
      rw [fields] at last accepted shown
      refine .inl ⟨?_, _, _, .unreadable sized run accepted shown marked,
        tells_judgeFields_unreadable run last shown marked⟩
      rintro ⟨r, -, s', run', -⟩
      rw [run] at run'
      cases run'
  · -- a field is wrong, however reading ended
    have member : g ∈ Response.recorded β f.payload :=
      split ▸ List.mem_append_right _ List.mem_cons_self
    obtain ⟨dump, marked⟩ :=
      HexDump.formatWithRange_ok f.payload g.start (max (g.stop - 1) g.start)
    have notRoot : ∀ k ∈ before ++ g :: after, k.path.segments ≠ [] := fun k hk =>
      Response.path_recorded_ne_root h.tidy (split ▸ hk)
    have other : ∀ k ∈ before, k.path ≠ g.path := by
      have apart := Response.apart_recorded h.tidy f.payload
      rw [split, List.pairwise_append] at apart
      exact fun k hk => (apart.2.2 k hk g List.mem_cons_self).1
    obtain ⟨above, tree, shown, failed, -, crossed⟩ := Tree.linesForFailedField_ok notRoot other
    rw [← split] at failed
    refine .inl ⟨?_, _, _,
      .field sized split refused later shown g.value.shown_display crossed marked,
      tells_judgeFields_field last failed marked⟩
    rintro ⟨r, complete⟩
    exact (complete.accepts member).not_refuses refused

end Messages

/-- Judging a message ends, in every world, with the first thing that is wrong; exactly the answers
pass that are complete and have nothing wrong across their fields; and what is checked across the
fields has no part in what becomes of an answer that is not complete. -/
def InOrder (ε : Type) {β : Type} [Expectation ε β] [ResponseBody β] : Prop :=
  ∀ (e : ε) (f : Frame), ∃ v log,
    Tells (judgeMessage e f false : Tried InWorld (Response β)) v log ∧ Judged e f v log ∧
    (∀ r, v = .ok r ↔ Complete e f r ∧ Check.Passes (Expectation.checks e r)) ∧
    ((¬ ∃ r : Response β, Complete e f r) → ∀ checks : Response β → List Check,
      Tells (judgeMessage (⟨e, checks⟩ : Rechecked ε β) f false : Tried InWorld (Response β)) v log)

theorem inOrder [ResponseLayout β] (h : Expectation.Covers ε) : InOrder ε := by
  intro e f
  by_cases enough : 4 ≤ f.raw.length
  · by_cases same : f.declared.toInt = f.payload.length
    · have sized : f.Sized := ⟨enough, same⟩
      rcases judged_judgeFields h e sized with
        ⟨-, failure, log, judged, told⟩ | ⟨r, s, tree, run, accepted, shown, fields⟩
      · refine ⟨_, log, tells_judgeMessage_of_failed sized told, judged,
          fun r => judged.eq_ok_iff, fun _ checks => ?_⟩
        apply tells_judgeMessage_of_failed sized
        rw [judgeFields_rechecked]
        exact told
      · obtain ⟨v, log, judged, told⟩ := judged_of_read sized run accepted shown fields
        exact ⟨v, log, told, judged, fun r => judged.eq_ok_iff, fun incomplete =>
          absurd ⟨r, sized, s, run, accepted⟩ incomplete⟩
    · have size : f.checkSize = .error (.wrongSize f.declared.toInt f.payload.length) := by
        rw [Frame.checkSize, Frame.sizeBytes, if_neg (Nat.not_lt.2 enough), if_neg same]
      have judged : Judged e f (.error (.objection (.wrongSize _ _))) [] :=
        .wrongSize enough same
      exact ⟨_, [], tells_judgeMessage_of_size size, judged, fun r => judged.eq_ok_iff,
        fun _ checks => tells_judgeMessage_of_size size⟩
  · have size : f.checkSize = .error (.missingSize f.raw.length) := by
      rw [Frame.checkSize, Frame.sizeBytes, if_pos (Nat.not_le.1 enough)]
    have judged : Judged e f (.error (.objection (.missingSize _))) [] :=
      .missingSize (Nat.not_le.1 enough)
    exact ⟨_, [], tells_judgeMessage_of_size size, judged, fun r => judged.eq_ok_iff,
      fun _ checks => tells_judgeMessage_of_size size⟩

end Verdict

/-- **What is wrong is told in order.**  Whatever is expected of the answer to any API, and whatever
arrives: judging it with its size passes it exactly if the size is that of what is behind it, it is
read in full, no field but a tag buffer is refused, and everything checked across the fields holds.
Otherwise the first failure is told, the last of the refused fields before an error of reading; and
the tree ends at that field, with its value. -/
theorem judging_inOrder :
    Verdict.InOrder ApiVersionsExpectation ∧
    Verdict.InOrder DescribeTopicPartitionsExpectation ∧
    Verdict.InOrder FetchExpectation ∧ Verdict.InOrder ProduceExpectation :=
  ⟨Verdict.inOrder Expectation.covers_apiVersions,
    Verdict.inOrder Expectation.covers_describeTopicPartitions,
    Verdict.inOrder Expectation.covers_fetch, Verdict.inOrder Expectation.covers_produce⟩

end BrokerExam
