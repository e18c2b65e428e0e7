/-
BrokerExam/Proofs/Wire/Discipline.lean

What a field reader leaves as it was, however it ends.  It comes back to the path
at which it began, in front of the same end, and has only added to the fields
(`ReadState.Keeps`).  Whatever it records, and whatever bytes it blames for a
failure, lies in what it saw at the start: between the offset and the end of what
was in sight.  So a bound that is in force when a reader begins is in force for
all that it does, and a bound inside of it can only hide more.

A failure may also be blamed on a field from before, of which the reader was
given the anchor.

Main results: the closure of `Disciplined` under what readers are made of, and
`Disciplined.of_orderly`, by which the readers of batches are disciplined.
-/
import BrokerExam.Proofs.Batch.Layout
import BrokerExam.Proofs.Wire.Steady

namespace BrokerExam

variable {ν α β : Type}

/-! ### Windows -/

/-- A stretch of the input, from the offset `start` to the offset `stop`. -/
structure Window where
  start : Nat
  stop : Nat
  deriving DecidableEq, Repr

namespace Window

/-- The bytes from `start` to `stop` lie in the window. -/
structure Holds (w : Window) (start stop : Nat) : Prop where
  first : w.start ≤ start
  forward : start ≤ stop
  last : stop ≤ w.stop

theorem Holds.widen {w w' : Window} {start stop : Nat} (h : w.Holds start stop)
    (first : w'.start ≤ w.start) (last : w.stop ≤ w'.stop) : w'.Holds start stop :=
  ⟨Nat.le_trans first h.first, h.forward, Nat.le_trans h.last last⟩

end Window

/-- What can still be read. -/
def Cursor.sight (c : Cursor) : Window := ⟨c.offset, c.stop⟩

/-- A confined cursor sees no byte from the bound on, and none that was not in sight before. -/
theorem Cursor.stop_confine_le (c : Cursor) (length : Nat) :
    (c.confine (c.offset + length)).stop ≤ c.offset + length ∧
      (c.confine (c.offset + length)).stop ≤ c.stop := by
  simp only [stop, confine, List.length_take]
  omega

/-- The fields of a trace lie where it was met. -/
theorem Trace.holds_of_mem_fields {base : FieldPath} {start : Nat} {t : Trace} {f : Field}
    (h : f ∈ t.fields base start) : Window.Holds ⟨start, start + t.width⟩ f.start f.stop := by
  induction t generalizing start with
  | nil => exact absurd h List.not_mem_nil
  | cons m t ih =>
    rw [width_cons]
    rcases List.mem_cons.1 h with rfl | h
    · exact ⟨Nat.le_refl _, Nat.le_add_right _ _, by dsimp only; omega⟩
    · exact (ih h).widen (Nat.le_add_right _ _) (by dsimp only; omega)

/-! ### States before and after -/

/-- A run that began at `s` can have come to `s'`: it `Follows`, and what was recorded on the way
lies in what was in sight. -/
structure ReadState.Keeps (s s' : ReadState ν) : Prop extends s.Follows s' where
  fields : ∃ new, s'.fields.toList = s.fields.toList ++ new ∧
    ∀ f ∈ new, s.cursor.sight.Holds f.start f.stop

namespace ReadState

variable {s s₁ s₂ : ReadState ν}

/-- What lies in sight later on was in sight before. -/
theorem Follows.sight {start stop : Nat} (h : s.Follows s₁)
    (later : s₁.cursor.sight.Holds start stop) : s.cursor.sight.Holds start stop :=
  later.widen h.forward (Nat.le_of_eq h.stop)

namespace Keeps

/-- Without a new field. -/
theorem of_follows (h : s.Follows s₁) (same : s₁.fields = s.fields) : s.Keeps s₁ where
  toFollows := h
  fields := ⟨[], by rw [same, List.append_nil], fun _ hf => absurd hf List.not_mem_nil⟩

theorem refl (s : ReadState ν) : s.Keeps s := of_follows (.refl s) rfl

theorem trans (h₁ : s.Keeps s₁) (h₂ : s₁.Keeps s₂) : s.Keeps s₂ where
  toFollows := h₁.toFollows.trans h₂.toFollows
  fields := by
    obtain ⟨new₁, same₁, inSight₁⟩ := h₁.fields
    obtain ⟨new₂, same₂, inSight₂⟩ := h₂.fields
    refine ⟨new₁ ++ new₂, by rw [same₂, same₁, List.append_assoc], fun f hf => ?_⟩
    rcases List.mem_append.1 hf with hf | hf
    · exact inSight₁ f hf
    · exact h₁.toFollows.sight (inSight₂ f hf)

/-- The fields from before are the first of those afterwards. -/
theorem fields_isPrefix (h : s.Keeps s₁) : s.fields.toList <+: s₁.fields.toList := by
  obtain ⟨new, same, -⟩ := h.fields
  rw [same]
  exact List.prefix_append _ _

end Keeps
end ReadState

/-! ### Disciplined readers -/

/-- Each run keeps what it should, and blames what it saw or one of the anchors. -/
structure Disciplined (anchors : List Anchor) (r : NotingRead ν α) : Prop where
  keeps : ∀ s : ReadState ν, s.Keeps (finalState (r s))
  blames : ∀ s e s', r s = .error e s' →
    s.cursor.sight.Holds e.start e.stop ∨ e.anchor ∈ anchors

namespace Disciplined

variable {anchors : List Anchor} {r : NotingRead ν α} {f : α → NotingRead ν β} {kind : Kind α}
  {k : α × Anchor → NotingRead ν β} {segment : String}

/-- What was met ahead of an orderly reader was in sight. -/
theorem of_orderly {l : Layout} (steady : FieldRead.Steady r) (orderly : Orderly l anchors r) :
    Disciplined anchors r where
  keeps := by
    intro s
    have follows := steady s
    have recorded : ∃ t : Trace, t.width ≤ s.cursor.ahead.length ∧
        (finalState (r s)).fields = (s.after t).fields := by
      cases run : r s with
      | ok a s' =>
        obtain ⟨t, met, rfl⟩ := orderly.ok s a s' run
        exact ⟨t, met.width, rfl⟩
      | error e s' =>
        obtain ⟨t, met, -, fields, -⟩ := orderly.error s e s' run
        exact ⟨t, met.width, fields⟩
    obtain ⟨t, width, fields⟩ := recorded
    refine ⟨follows, _, by rw [fields, ReadState.after_fields], fun f hf => ?_⟩
    exact (Trace.holds_of_mem_fields hf).widen (Nat.le_refl _) (Nat.add_le_add_left width _)
  blames := by
    intro s e s' run
    obtain ⟨t, met, -, -, cause⟩ := orderly.error s e s' run
    have width := met.width
    rcases cause with refused | ⟨f, hf, same, -⟩ | given
    · obtain ⟨sight, inSight, failed⟩ := refused.failed
      obtain ⟨start, forward, stop, -⟩ := failed.range
      have length := inSight.length_le
      rw [List.length_drop] at length
      simp only [Cursor.stop] at start stop
      exact .inl ⟨by simp only [Cursor.sight]; omega, forward,
        by simp only [Cursor.sight, Cursor.stop]; omega⟩
    · obtain ⟨-, start, stop⟩ := Anchor.mk.inj same
      have here := Trace.holds_of_mem_fields hf
      rw [start, stop] at here
      exact .inl (here.widen (Nat.le_refl _) (Nat.add_le_add_left width _))
    · exact .inr given

/-- With no anchor given, what is blamed was in sight. -/
theorem blames_inSight (hr : Disciplined [] r) {s s' : ReadState ν} {e : DecodeError}
    (run : r s = .error e s') : s.cursor.sight.Holds e.start e.stop :=
  (hr.blames s e s' run).resolve_right List.not_mem_nil

/-- More anchors do no harm. -/
theorem weaken {anchors' : List Anchor} (hr : Disciplined anchors r) (more : anchors ⊆ anchors') :
    Disciplined anchors' r where
  keeps := hr.keeps
  blames := fun s e s' run => (hr.blames s e s' run).imp_right fun given => more given

/-! #### Sequences -/

/-- A reader that succeeds where it stands. -/
theorem of_stay (stay : ∀ s, ∃ a s', r s = .ok a s' ∧ s'.path = s.path ∧ s'.cursor = s.cursor ∧
    s'.fields = s.fields) : Disciplined anchors r where
  keeps := by
    intro s
    obtain ⟨a, s', run, path, cursor, fields⟩ := stay s
    rw [run]
    refine .of_follows ⟨path, ?_, congrArg Cursor.stop cursor⟩ fields
    exact Nat.le_of_eq (congrArg Cursor.offset cursor.symm)
  blames := by
    intro s e s' run
    obtain ⟨a, s₁, run', -⟩ := stay s
    rw [run'] at run
    cases run

theorem pure (a : α) : Disciplined anchors (Pure.pure a : NotingRead ν α) :=
  of_stay fun s => ⟨a, s, rfl, rfl, rfl, rfl⟩

/-- A complaint about a field from before. -/
theorem throw {anchor : Anchor} (given : anchor ∈ anchors) (cause : CodecError) :
    Disciplined anchors (throw (anchor.error cause) : NotingRead ν α) where
  keeps := .refl
  blames := by
    intro s e s' run
    obtain ⟨rfl, -⟩ := EStateM.Result.error.inj run
    exact .inr given

theorem keeps_bind (hr : ∀ s : ReadState ν, s.Keeps (finalState (r s)))
    (hf : ∀ a (s : ReadState ν), s.Keeps (finalState (f a s))) (s : ReadState ν) :
    s.Keeps (finalState ((r >>= f) s)) := by
  have first := hr s
  cases run : r s with
  | ok a s₁ =>
    rw [run] at first
    rw [bind_of_ok run]
    exact first.trans (hf a s₁)
  | error e s₁ =>
    rw [run] at first
    rw [bind_of_error run]
    exact first

theorem bind (hr : Disciplined anchors r) (hf : ∀ a, Disciplined anchors (f a)) :
    Disciplined anchors (r >>= f) where
  keeps := keeps_bind hr.keeps fun a => (hf a).keeps
  blames := by
    intro s e s' run
    rcases error_of_bind run with first | ⟨a, s₁, first, second⟩
    · exact hr.blames s e s' first
    · -- what the second reader sees was in sight of the first
      have follows := (hr.keeps s).toFollows
      rw [first] at follows
      exact ((hf a).blames s₁ e s' second).imp_left follows.sight

theorem map (hr : Disciplined anchors r) (g : α → β) : Disciplined anchors (g <$> r) := by
  rw [← bind_pure_comp]
  exact hr.bind fun a => pure (g a)

/-! #### Fields -/

theorem anchored (primitive : kind.Primitive) :
    Disciplined anchors (FieldRead.anchored segment kind : NotingRead ν (α × Anchor)) where
  keeps := by
    intro s
    have follows := FieldRead.Steady.anchored primitive segment s
    cases run : FieldRead.anchored segment kind s with
    | ok v s' =>
      rw [run] at follows
      obtain ⟨used, left, ahead, -, rfl⟩ := FieldRead.ok_of_anchored primitive.isLocal run
      refine ⟨follows, _, Array.toList_append, fun f hf => ?_⟩
      refine (Trace.holds_of_mem_fields hf).widen (Nat.le_refl _) ?_
      show s.cursor.offset + (used.length + 0) ≤ s.cursor.offset + s.cursor.ahead.length
      rw [ahead, List.length_append]
      omega
    | error e s' =>
      rw [run] at follows
      exact .of_follows follows (Orderly.refused_of_anchored primitive .int8 run).2.2
  blames := by
    intro s e s' run
    obtain ⟨⟨-, sight, inSight, failed⟩, -, -⟩ := Orderly.refused_of_anchored primitive .int8 run
    obtain ⟨start, forward, stop, -⟩ := failed.range
    have length := inSight.length_le
    simp only [Cursor.stop, Trace.width_nil, Nat.add_zero, List.drop_zero] at start stop length
    exact .inl ⟨by simp only [Cursor.sight]; omega, forward,
      by simp only [Cursor.sight, Cursor.stop]; omega⟩

theorem field (primitive : kind.Primitive) :
    Disciplined anchors (FieldRead.field segment kind : NotingRead ν α) :=
  (anchored primitive).map _

theorem tagBuffer : Disciplined anchors (FieldRead.tagBuffer : NotingRead ν Unit) :=
  (field .tagBuffer).map _

/-- The anchor of a field lies in sight of its reader. -/
theorem inSight_of_anchored (primitive : kind.Primitive) {s s' : ReadState ν} {v : α}
    {anchor : Anchor} (run : FieldRead.anchored segment kind s = .ok (v, anchor) s') :
    s.cursor.sight.Holds anchor.start anchor.stop := by
  have follows := FieldRead.Steady.anchored primitive segment s
  rw [run] at follows
  -- a field reaches from the offset before to the one afterwards
  have place : anchor.start = s.cursor.offset ∧ anchor.stop = s'.cursor.offset := by
    simp only [FieldRead.anchored] at run
    split at run
    · obtain ⟨same, rfl⟩ := EStateM.Result.ok.inj run
      obtain ⟨-, rfl⟩ := Prod.mk.inj same
      exact ⟨rfl, rfl⟩
    · cases run
  rw [place.1, place.2]
  exact ⟨Nat.le_refl _, follows.forward,
    Nat.le_trans (Nat.le_add_right _ _) (Nat.le_of_eq follows.stop)⟩

/-- What follows a field may blame it. -/
theorem anchored_bind (primitive : kind.Primitive)
    (hk : ∀ v anchor, Disciplined (anchor :: anchors) (k (v, anchor))) :
    Disciplined anchors (FieldRead.anchored segment kind >>= k) where
  keeps := by
    have first : Disciplined anchors (FieldRead.anchored segment kind : NotingRead ν _) :=
      anchored primitive
    exact keeps_bind first.keeps fun v => (hk v.1 v.2).keeps
  blames := by
    intro s e s' run
    rcases error_of_bind run with first | ⟨⟨v, anchor⟩, s₁, first, second⟩
    · exact (anchored primitive).blames s e s' first
    · rcases (hk v anchor).blames s₁ e s' second with later | given
      · have follows := FieldRead.Steady.anchored primitive segment s
        rw [first] at follows
        exact .inl (follows.sight later)
      · rcases List.mem_cons.1 given with same | given
        · obtain rfl : e.anchor = anchor := same
          exact .inl (inSight_of_anchored primitive first)
        · exact .inr given

/-! #### Scopes and bounds -/

theorem scope (hr : Disciplined anchors r) (segment : String) :
    Disciplined anchors (FieldRead.scope segment r) where
  keeps := by
    intro s
    have body := hr.keeps { s with path := s.path.child segment }
    have follows := FieldRead.Steady.scope (fun s => (hr.keeps s).toFollows) segment s
    rw [FieldRead.finalState_scope] at follows ⊢
    exact ⟨follows, body.fields⟩
  blames := by
    intro s e s' run
    obtain ⟨s₁, body, -⟩ := FieldRead.error_of_scope run
    exact hr.blames { s with path := s.path.child segment } e s₁ body

/-- What is in sight in front of a bound was in sight before. -/
theorem bounded (hr : Disciplined anchors r) (length : Nat) :
    Disciplined anchors (FieldRead.bounded length r) where
  keeps := by
    intro s
    have body := hr.keeps { s with cursor := s.cursor.confine (s.cursor.offset + length) }
    have follows := FieldRead.Steady.bounded (fun s => (hr.keeps s).toFollows) length s
    rw [FieldRead.finalState_bounded] at follows ⊢
    obtain ⟨new, same, inSight⟩ := body.fields
    refine ⟨follows, new, same, fun f hf => ?_⟩
    exact (inSight f hf).widen (Nat.le_refl _) (s.cursor.stop_confine_le length).2
  blames := by
    intro s e s' run
    obtain ⟨s₁, body, -⟩ := FieldRead.error_of_bounded run
    refine (hr.blames _ e s₁ body).imp_left fun inSight => ?_
    exact inSight.widen (Nat.le_refl _) (s.cursor.stop_confine_le length).2

/-! #### Arrays -/

section Arrays

variable {name : String} {element : NotingRead ν α}

theorem repeated {element : Nat → NotingRead ν α} (h : ∀ i, Disciplined anchors (element i))
    (count i : Nat) : Disciplined anchors (FieldRead.repeated element count i) := by
  induction count generalizing i with
  | zero => exact pure []
  | succ count ih =>
    exact (h i).bind fun a => (ih (i + 1)).bind fun as => pure (a :: as)

theorem compactArray (h : Disciplined anchors element) :
    Disciplined anchors (FieldRead.compactArray name element) := by
  refine scope (bind (field (.plain .compactArrayLength)) fun raw => ?_) name
  exact repeated (fun i => h.scope (indexed name i)) _ 0

theorem compactInt32Array :
    Disciplined anchors (FieldRead.compactInt32Array name : NotingRead ν (List Int32)) := by
  refine scope (bind (field (.plain .compactArrayLength)) fun raw => ?_) name
  exact repeated (fun i => field (.plain .int32)) _ 0

theorem array (h : Disciplined anchors element) :
    Disciplined anchors (FieldRead.array name element) := by
  refine scope (anchored_bind (.plain .int32) fun length anchor => ?_) name
  show Disciplined _ (if length < -1 then _ else _)
  split
  · exact throw List.mem_cons_self _
  · exact repeated (fun i => (h.weaken (List.subset_cons_self _ _)).scope (indexed name i)) _ 0

end Arrays

/-! #### Batches -/

theorem record : Disciplined anchors Record.codec.read :=
  of_orderly (Codec.Steady.steady (c := Record.codec)) (Codec.LaidOut.orderly_with inferInstance _)

theorem batch : Disciplined anchors RecordBatch.read :=
  of_orderly RecordBatch.steady_read
    (Codec.LaidOut.orderly_with (c := RecordBatch.codec) inferInstance _)

/-- Batches until nothing is in sight, as they are read in front of the end of a stream. -/
theorem batches (name : String) :
    Disciplined anchors (FieldRead.all name RecordBatch.read) :=
  of_orderly (RecordBatch.steady_read.all name)
    (Codec.LaidOut.orderly_with (c := RecordBatch.codec) inferInstance _).all

theorem batchStream (name : String) : Disciplined anchors (FieldRead.batchStream name) :=
  of_orderly (FieldRead.steady_batchStream name)
    (Codec.LaidOut.orderly_with (c := Codec.batchStream name) inferInstance _)

/-! #### Notes -/

/-- Notes beside the fields play no part in it. -/
theorem noting {r : FieldRead α} (hr : Disciplined anchors r) :
    Disciplined anchors (FieldRead.noting r : NotingRead ν α) where
  keeps := by
    intro s
    have run := hr.keeps { s with notes := () }
    rw [FieldRead.finalState_noting]
    exact ⟨⟨run.path, run.forward, run.stop⟩, run.fields⟩
  blames := by
    intro s e s' run
    simp only [FieldRead.noting] at run
    split at run
    · cases run
    · next ended =>
      obtain ⟨rfl, -⟩ := EStateM.Result.error.inj run
      exact hr.blames { s with notes := () } _ _ ended

end Disciplined
end BrokerExam
