/-
BrokerExam/Proofs/Verdict/Judge.lean

What judging an answer comes to.  A judge tells a journal what it sees, but no
part of the verdict depends on the journal: in every world the outcome is that
of a function of the expectation and the frame alone (`Verdict.verdict`), and
what the journal leaves as it is stays as it is.

Main results: `Verdict.settles_judgeMessage`, and from it
`Verdict.comesTo_judgeMessage` for made-up worlds; and
`Verdict.verdict_eq_ok_iff`, which says when an answer passes.
-/
import BrokerExam.Proofs.Wire.RawRead
import BrokerExam.Rehearsal.World
import BrokerExam.Verdict.Judge

namespace BrokerExam

open Rehearsal

/-! ### Outcomes that depend on no state -/

section Settling

variable {η σ α β : Type} [Journal (EStateM η σ)] {P : σ → Prop}

/-- What is told to the journal leads from states of `P` to such states. -/
structure Journals (η : Type) {σ : Type} [Journal (EStateM η σ)] (P : σ → Prop) : Prop where
  record (e : Entry) {w : σ} : P w →
    ∃ w', (Journal.record e : EStateM η σ Unit) w = .ok () w' ∧ P w'
  within {α : Type} (span : String) {x : EStateM η σ α} {a : α} :
    (∀ w, P w → ∃ w', x w = .ok a w' ∧ P w') →
    ∀ w, P w → ∃ w', Journal.within span x w = .ok a w' ∧ P w'

/-- From every state of `P` the computation ends with the outcome, and again in a state of `P`. -/
def Settles (P : σ → Prop) (x : Tried (EStateM η σ) α) (v : Except Failure α) : Prop :=
  ∀ w, P w → ∃ w', x.run w = .ok v w' ∧ P w'

namespace Settles

variable {x : Tried (EStateM η σ) α} {u : Except Failure α} {f : α → Tried (EStateM η σ) β}
  {g : α → Except Failure β}

omit [Journal (EStateM η σ)] in
theorem of_except (v : Except Failure α) :
    Settles P (ExceptT.mk (pure v) : Tried (EStateM η σ) α) v := fun w here => ⟨w, rfl, here⟩

omit [Journal (EStateM η σ)] in
theorem faultless (v : Except Fault α) :
    Settles P (BrokerExam.faultless v : Tried (EStateM η σ) α) (v.mapError Failure.fault) :=
  of_except _

omit [Journal (EStateM η σ)] in
theorem bind (hx : Settles P x u) (hf : ∀ a, u = .ok a → Settles P (f a) (g a)) :
    Settles P (x >>= f) (u >>= g) := by
  intro w here
  obtain ⟨w₁, run, here₁⟩ := hx w here
  cases u with
  | error e => exact ⟨w₁, run_bind_of_error run, here₁⟩
  | ok a =>
    obtain ⟨w₂, run', here₂⟩ := hf a rfl w₁ here₁
    exact ⟨w₂, (run_bind_of_ok run).trans run', here₂⟩

omit [Journal (EStateM η σ)] in
/-- A part that comes to nothing of its own may go before. -/
theorem after {y : Tried (EStateM η σ) Unit} {v : Except Failure α} (hy : Settles P y (.ok ()))
    (hx : Settles P x v) : Settles P (do y; x) v :=
  bind (g := fun _ => v) hy fun _ _ => hx

theorem record (journals : Journals η P) (e : Entry) :
    Settles P (Journal.record e : Tried (EStateM η σ) Unit) (.ok ()) := by
  intro w here
  obtain ⟨w', run, here'⟩ := journals.record e here
  exact ⟨w', run_lift_of_ok run, here'⟩

theorem within (journals : Journals η P) (span : String) (hx : Settles P x u) :
    Settles P (Journal.within span x : Tried (EStateM η σ) α) u :=
  journals.within span hx

theorem tell (journals : Journals η P) (level : Level) (lines : List String) :
    Settles P (Verdict.tell level lines : Tried (EStateM η σ) Unit) (.ok ()) := by
  unfold Verdict.tell
  induction lines with
  | nil => exact of_except _
  | cons line lines ih => exact after (record journals { level, text := line }) ih

end Settles
end Settling

/-! ### Made-up worlds -/

/-- The computation ends with the outcome in every world, whatever it does to it. -/
def ComesTo {α : Type} (x : Tried InWorld α) (v : Except Failure α) : Prop :=
  ∀ w, ∃ w', x.run w = .ok v w'

/-- Telling is possible in every world. -/
theorem journals_world : Journals Blocked fun _ : World => True where
  record e w _ := ⟨_, rfl, trivial⟩
  within span x a ends w _ := by
    obtain ⟨w₁, run, -⟩ := ends { w with spans := w.spans ++ [span] } trivial
    -- the span is taken off again, however the body ends
    exact ⟨{ w₁ with spans := w.spans }, bind_of_ok run, trivial⟩

namespace Verdict

variable {ε β η σ : Type} [Expectation ε β] [Journal (EStateM η σ)] {P : σ → Prop}

/-! ### The verdict -/

/-- The verdict across the fields. -/
def verdictOnWhole (e : ε) (r : Response β) : Except Failure Unit :=
  match Check.objection? (Expectation.checks e r) with
  | none => .ok ()
  | some text => .error (.objection (.composite text))

theorem settles_judgeWhole (journals : Journals η P) (e : ε) (r : Response β) :
    Settles P (judgeWhole e r : Tried (EStateM η σ) Unit) (verdictOnWhole e r) := by
  unfold judgeWhole verdictOnWhole
  refine Settles.after (Settles.tell journals _ _) ?_
  rcases Check.objection? (Expectation.checks e r) with - | text
  · exact Settles.of_except _
  · exact Settles.of_except _

section Judging

variable [ResponseBody β]

/-- What becomes of an answer once its failed part has been shown. -/
def shown (tree : Except Fault (List String)) (payload : Bytes) (start stop : Nat) :
    Except Failure Unit := do
  let _ ← tree.mapError Failure.fault
  let _ ← ((HexDump.mk payload 0).formatWithRange start (max (stop - 1) start)).mapError
    Failure.fault

/-- The verdict on the fields, and the response if they are all fine. -/
def verdictOnFields (e : ε) (payload : Bytes) : Except Failure (Response β) := do
  let (answer, fields) : Except DecodeError (Response β) × List Field :=
    match Response.read payload with
    | .ok r s => (.ok r, s.fields.toList)
    | .error err s => (.error err, s.fields.toList)
  match ← (lastComplaint e fields).mapError Failure.fault, answer with
  | some (f, text), _ =>
    shown (Tree.linesForFailedField fields f.path) payload f.start f.stop
    throw (.objection (.field f.path f.start f.stop text))
  | none, .error err =>
    shown (Tree.linesForDecodeError fields err.path) payload err.start err.stop
    throw (.objection (.unreadable err))
  | none, .ok r =>
    let _ ← (Tree.lines fields).mapError Failure.fault
    return r

/-- The verdict on a message. -/
def verdict (e : ε) (f : Frame) (ignoreSize : Bool) : Except Failure (Response β) := do
  if !ignoreSize then f.checkSize.mapError .objection
  let r ← verdictOnFields e f.payload
  verdictOnWhole e r
  return r

omit [ResponseBody β] [Expectation ε β] in
theorem settles_showFailure (journals : Journals η P) (tree : Except Fault (List String))
    (payload : Bytes) (start stop : Nat) :
    Settles P (showFailure tree payload start stop : Tried (EStateM η σ) Unit)
      (shown tree payload start stop) := by
  unfold showFailure shown
  refine Settles.bind (Settles.faultless tree) fun lines _ => ?_
  refine Settles.after (Settles.tell journals _ _) (Settles.after (Settles.tell journals _ _) ?_)
  exact Settles.bind (Settles.faultless _) fun dump _ => Settles.tell journals _ _

theorem settles_judgeFields (journals : Journals η P) (e : ε) (payload : Bytes) :
    Settles P (judgeFields e payload : Tried (EStateM η σ) _) (verdictOnFields e payload) := by
  unfold judgeFields verdictOnFields
  rcases Response.read (β := β) payload with ⟨r, s⟩ | ⟨err, s⟩
  · -- a complaint about a field goes before what became of the reading
    refine Settles.bind (Settles.faultless _) fun complaint _ =>
      Settles.within journals "Decoder" ?_
    rcases complaint with - | ⟨f, text⟩
    · exact Settles.bind (Settles.faultless _) fun lines _ =>
        Settles.after (Settles.tell journals _ _) (Settles.of_except _)
    · exact Settles.bind (settles_showFailure journals _ _ _ _) fun _ _ => Settles.of_except _
  · refine Settles.bind (Settles.faultless _) fun complaint _ =>
      Settles.within journals "Decoder" ?_
    rcases complaint with - | ⟨f, text⟩
    · exact Settles.bind (settles_showFailure journals _ _ _ _) fun _ _ => Settles.of_except _
    · exact Settles.bind (settles_showFailure journals _ _ _ _) fun _ _ => Settles.of_except _

/-- **Judging comes to the verdict**, whatever is told on the way. -/
theorem settles_judgeMessage (journals : Journals η P) (e : ε) (f : Frame) (ignoreSize : Bool) :
    Settles P (judgeMessage e f ignoreSize : Tried (EStateM η σ) _) (verdict e f ignoreSize) := by
  have rest : Settles P (do
      let r ← judgeFields e f.payload
      judgeWhole e r
      return r : Tried (EStateM η σ) (Response β)) (do
      let r ← verdictOnFields e f.payload
      verdictOnWhole e r
      return r) :=
    Settles.bind (settles_judgeFields journals e f.payload) fun r _ =>
      Settles.bind (settles_judgeWhole journals e r) fun _ _ => Settles.of_except (.ok r)
  unfold judgeMessage verdict
  cases ignoreSize with
  | true => exact rest
  | false => exact Settles.bind (Settles.of_except _) fun _ _ => rest

theorem comesTo_judgeMessage (e : ε) (f : Frame) (ignoreSize : Bool) :
    ComesTo (judgeMessage e f ignoreSize) (verdict e f ignoreSize) := by
  intro w
  obtain ⟨w', run, -⟩ := settles_judgeMessage journals_world e f ignoreSize w trivial
  exact ⟨w', run⟩

end Judging

/-! ### Passing -/

theorem verdictOnWhole_eq_ok_iff {e : ε} {r : Response β} {u : Unit} :
    verdictOnWhole e r = .ok u ↔ Check.Passes (Expectation.checks e r) := by
  rw [← Check.objection?_eq_none_iff, verdictOnWhole]
  rcases Check.objection? (Expectation.checks e r) with - | text
  · exact ⟨fun _ => rfl, fun _ => rfl⟩
  · constructor
    · intro h
      cases h
    · intro h
      cases h

/-- Where there is no complaint in the end, there is none about any field. -/
theorem complaint?_of_lastComplaint {e : ε} {fields : List Field}
    (h : lastComplaint e fields = .ok none) {f : Field} (hf : f ∈ fields) :
    complaint? e f = .ok none := by
  induction fields with
  | nil => cases hf
  | cons g gs ih =>
    obtain ⟨here, judged, h⟩ := Except.bind_eq_ok_iff.1 h
    obtain ⟨later, last, h⟩ := Except.bind_eq_ok_iff.1 h
    cases later with
    | some _ => cases Except.ok.inj h
    | none =>
      rcases List.mem_cons.1 hf with rfl | hf
      · cases here with
        | none => exact judged
        | some _ => cases Except.ok.inj h
      · exact ih last hf

variable [ResponseBody β]

/-- The fields are fine if there is no complaint about any, and all could be read and shown. -/
theorem verdictOnFields_eq_ok_iff {e : ε} {payload : Bytes} {r : Response β} :
    verdictOnFields e payload = .ok r ↔ ∃ s, Response.read payload = .ok r s ∧
      lastComplaint e s.fields.toList = .ok none ∧
      ∃ lines, Tree.lines s.fields.toList = .ok lines := by
  -- whatever is shown, what fails after that does not pass
  have failed {x : Except Failure Unit} {failure : Failure} :
      ¬ (x >>= fun _ => throw failure) = (.ok r : Except Failure (Response β)) := by
    rw [Except.bind_eq_ok_iff]
    rintro ⟨_, -, h⟩
    cases h
  unfold verdictOnFields
  constructor
  · intro h
    rcases hread : Response.read (β := β) payload with ⟨r', s⟩ | ⟨err, s⟩
    · simp only [hread, Except.bind_eq_ok_iff, Except.mapError_eq_ok_iff] at h
      obtain ⟨complaint, hlast, h⟩ := h
      rcases complaint with - | ⟨f, text⟩
      · obtain ⟨lines, htree, h⟩ := Except.bind_eq_ok_iff.1 h
        obtain rfl : r' = r := Except.ok.inj h
        exact ⟨s, rfl, hlast, lines, Except.mapError_eq_ok_iff.1 htree⟩
      · exact absurd h failed
    · simp only [hread, Except.bind_eq_ok_iff, Except.mapError_eq_ok_iff] at h
      obtain ⟨complaint, -, h⟩ := h
      rcases complaint with - | ⟨f, text⟩
      · exact absurd h failed
      · exact absurd h failed
  · rintro ⟨s, hread, hlast, lines, htree⟩
    simp only [hread, hlast, htree]
    rfl

/-- **What passes**: a message of the right size, unless that is left aside, that can be read, with
no complaint about a field and no objection across them. -/
theorem verdict_eq_ok_iff {e : ε} {f : Frame} {ignoreSize : Bool} {r : Response β} :
    verdict e f ignoreSize = .ok r ↔
      (ignoreSize = false → f.checkSize = .ok ()) ∧ verdictOnFields e f.payload = .ok r ∧
        Check.Passes (Expectation.checks e r) := by
  have parts : (do
      let r ← verdictOnFields e f.payload
      verdictOnWhole e r
      return r) = .ok r ↔
        verdictOnFields e f.payload = .ok r ∧ Check.Passes (Expectation.checks e r) := by
    simp only [Except.bind_eq_ok_iff, verdictOnWhole_eq_ok_iff]
    constructor
    · rintro ⟨r', fields, _, whole, h⟩
      obtain rfl : r' = r := Except.ok.inj h
      exact ⟨fields, whole⟩
    · rintro ⟨fields, whole⟩
      exact ⟨r, fields, (), whole, rfl⟩
  unfold verdict
  cases ignoreSize with
  | true =>
    rw [← parts]
    exact ⟨fun h => ⟨fun aside => absurd aside (by decide), h⟩, fun h => h.2⟩
  | false =>
    rw [← parts]
    show (f.checkSize.mapError Failure.objection >>= _) = .ok r ↔ _
    constructor
    · intro h
      obtain ⟨⟨⟩, size, h⟩ := Except.bind_eq_ok_iff.1 h
      exact ⟨fun _ => Except.mapError_eq_ok_iff.1 size, h⟩
    · rintro ⟨size, h⟩
      exact Except.bind_eq_ok_iff.2 ⟨(), Except.mapError_eq_ok_iff.2 (size rfl), h⟩

end Verdict
end BrokerExam
