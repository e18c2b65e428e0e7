/-
BrokerExam/Proofs/Wire/Reads.lean

Field readers as relations between bytes, traces and values.

    ReadsBefore rest r used t a

says that `r`, in front of `used ++ rest`, takes exactly `used`, meets the trace
`t` and gives `a`, at whatever offset and below whatever path.  `Reads r used t a`
says so for every `rest`.  Only a reader that goes on to the end of what is in
sight needs to be told which bytes follow; hiding them makes it a reader like
the others (`ReadsBefore.bounded`).

A reader is local if each of its successful runs is of this form
(`FieldRead.Local`): it has read some bytes, and the bytes behind them played no
part in it.

Main results: both relations are closed under everything readers are made of.
-/
import BrokerExam.Proofs.Wire.Trace
import BrokerExam.Proofs.Wire.Kind

namespace BrokerExam

variable {ν α β : Type}

/-- `r` takes `used` for `a`, when `rest` is all that follows. -/
structure ReadsBefore (rest : Bytes) (r : NotingRead ν α) (used : Bytes) (t : Trace) (a : α) :
    Prop where
  width : t.width = used.length
  run : ∀ s : ReadState ν, s.cursor.ahead = used ++ rest → r s = .ok a (s.past t rest)

/-- `r` takes `used` for `a`, whatever follows. -/
def Reads (r : NotingRead ν α) (used : Bytes) (t : Trace) (a : α) : Prop :=
  ∀ rest, ReadsBefore rest r used t a

namespace FieldRead

/-- Each successful run reads some bytes, and depends on no others. -/
def Local (r : NotingRead ν α) : Prop :=
  ∀ s a s', r s = .ok a s' → ∃ used left t, s.cursor.ahead = used ++ left ∧ Reads r used t a

/-- The readers are local, and those that succeed at all do the same thing: they differ in the
anchors of their errors. -/
def LocalFamily {ι : Type} (r : ι → NotingRead ν α) : Prop :=
  ∀ i s a s', r i s = .ok a s' →
    ∃ used left t, s.cursor.ahead = used ++ left ∧ ∀ j, Reads (r j) used t a

end FieldRead

/-! ### Sequences -/

namespace ReadsBefore

variable {rest used used' : Bytes} {t t' : Trace} {a : α} {b : β}
  {r : NotingRead ν α} {f : α → NotingRead ν β}

theorem pure (a : α) : ReadsBefore rest (Pure.pure a : NotingRead ν α) [] [] a where
  width := rfl
  run := by
    intro s ahead
    obtain rfl : s.cursor.ahead = rest := ahead
    rw [ReadState.past_nil]
    rfl

theorem bind (hr : ReadsBefore (used' ++ rest) r used t a)
    (hf : ReadsBefore rest (f a) used' t' b) :
    ReadsBefore rest (r >>= f) (used ++ used') (t ++ t') b where
  width := by rw [Trace.width_append, hr.width, hf.width, List.length_append]
  run := by
    intro s ahead
    rw [List.append_assoc] at ahead
    rw [bind_of_ok (hr.run s ahead), hf.run _ rfl, ReadState.past_past]

theorem map (hr : ReadsBefore rest r used t a) (g : α → β) :
    ReadsBefore rest (g <$> r) used t (g a) where
  width := hr.width
  run := fun s ahead => map_of_ok (hr.run s ahead)

/-- A read that only hands a value on at the end takes nothing for that. -/
theorem bind_pure (hr : ReadsBefore rest r used t a) (g : α → β) :
    ReadsBefore rest (r >>= fun a => Pure.pure (g a)) used t (g a) := by
  rw [bind_pure_comp]
  exact hr.map g

/-- Where a successful run ends. -/
theorem eq_past {s s' : ReadState ν} {a' : α} (hr : ReadsBefore rest r used t a)
    (ahead : s.cursor.ahead = used ++ rest) (run : r s = .ok a' s') :
    a = a' ∧ s' = s.past t rest := by
  rw [hr.run s ahead] at run
  obtain ⟨ha, hs⟩ := EStateM.Result.ok.inj run
  exact ⟨ha, hs.symm⟩

end ReadsBefore

/-- Reading bytes from the start to their end. -/
theorem Reads.run_start {used : Bytes} {t : Trace} {a : α} {r : NotingRead ν α}
    (hr : Reads r used t a) (notes : ν) :
    r (ReadState.start used notes) = .ok a ((ReadState.start used notes).past t []) :=
  (hr []).run _ (List.append_nil used).symm

/-! ### Fields -/

theorem FieldRead.offset_ok (s : ReadState ν) : FieldRead.offset s = .ok s.cursor.offset s := rfl

theorem FieldRead.remaining_ok (s : ReadState ν) :
    FieldRead.remaining s = .ok s.cursor.ahead.length s := rfl

theorem FieldRead.get_ok (s : ReadState ν) : (get : NotingRead ν (ReadState ν)) s = .ok s s := rfl

section Fields

variable {rest used used' : Bytes} {t : Trace} {a : α} {b : β} {kind : Kind α}
  {r : NotingRead ν α} {f : α × Anchor → NotingRead ν β}

/-- A field, its value recorded in the bytes it was read from. -/
theorem run_anchored (segment : String) (h : kind.read.Reads used a) {s : ReadState ν}
    (ahead : s.cursor.ahead = used ++ rest) :
    FieldRead.anchored segment kind s =
      .ok (a, ⟨s.path.child segment, s.cursor.offset, s.cursor.offset + used.length⟩)
        (s.past [⟨[segment], kind.value a, used.length⟩] rest) := by
  obtain ⟨⟨o, _⟩, p, fs, notes⟩ := s
  obtain rfl : _ = used ++ rest := ahead
  simp only [FieldRead.anchored, h o rest, ReadState.past, Trace.fields, FieldPath.child,
    Trace.width_cons, Trace.width_nil, Nat.add_zero]
  rfl

namespace ReadsBefore

theorem anchored_bind (segment : String) (h : kind.read.Reads used a)
    (hf : ∀ anchor, ReadsBefore rest (f (a, anchor)) used' t b) :
    ReadsBefore rest (FieldRead.anchored segment kind >>= f) (used ++ used')
      (⟨[segment], kind.value a, used.length⟩ :: t) b where
  width := by
    rw [Trace.width_cons, (hf ⟨FieldPath.root, 0, 0⟩).width, List.length_append]
  run := by
    intro s ahead
    rw [List.append_assoc] at ahead
    rw [bind_of_ok (run_anchored segment h ahead), (hf _).run _ rfl, ReadState.past_past]
    rfl

theorem field (segment : String) (h : kind.read.Reads used a) :
    ReadsBefore rest (FieldRead.field segment kind : NotingRead ν α) used
      [⟨[segment], kind.value a, used.length⟩] a where
  width := Nat.add_zero used.length
  run := fun _ ahead => map_of_ok (run_anchored segment h ahead)

end ReadsBefore
end Fields

/-! ### Scopes and bounds -/

section Scopes

variable {rest used : Bytes} {t : Trace} {a : α} {r : NotingRead ν α}

theorem FieldPath.parent_child (p : FieldPath) (segment : String) :
    (p.child segment).parent = p := by
  simp only [FieldPath.child, FieldPath.parent, List.dropLast_concat]

namespace ReadsBefore

theorem scope (segment : String) (hr : ReadsBefore rest r used t a) :
    ReadsBefore rest (FieldRead.scope segment r) used (t.scope segment) a where
  width := by rw [Trace.width_scope, hr.width]
  run := by
    intro s ahead
    simp only [FieldRead.scope, hr.run { s with path := s.path.child segment } ahead,
      ReadState.past, FieldPath.parent_child, Trace.width_scope, Trace.fields_scope]

/-- What is read to the end of what is in sight is read in front of anything, once that is
hidden. -/
theorem bounded (hr : ReadsBefore [] r used t a) :
    ReadsBefore rest (FieldRead.bounded used.length r) used t a where
  width := hr.width
  run := by
    intro s ahead
    -- the bound is met by what is read, and nothing behind it is in sight
    have inSight : (s.cursor.confine (s.cursor.offset + used.length)).ahead = used ++ [] := by
      rw [Cursor.confine, ahead, Nat.add_sub_cancel_left, List.take_left, List.append_nil]
    rw [FieldRead.bounded, hr.run { s with cursor := s.cursor.confine _ } inSight]
    simp only [ReadState.past, Cursor.confine, Cursor.release, hr.width, ahead,
      Nat.add_sub_cancel_left, List.drop_left]

end ReadsBefore
end Scopes

/-! ### Locality -/

namespace FieldRead

variable {ι : Type} {r : NotingRead ν α} {f : α → NotingRead ν β}

/-- A scope is left as its body has ended. -/
theorem scope_of_ok {segment : String} {s s' : ReadState ν} {a : α}
    (body : r { s with path := s.path.child segment } = .ok a s') :
    scope segment r s = .ok a { s' with path := s'.path.parent } := by
  rw [scope, body]

theorem scope_of_error {segment : String} {s s' : ReadState ν} {e : DecodeError}
    (body : r { s with path := s.path.child segment } = .error e s') :
    scope segment r s = .error e { s' with path := s'.path.parent } := by
  rw [scope, body]

/-- A scope that was left had its body run below the segment. -/
theorem ok_of_scope {segment : String} {s s' : ReadState ν} {a : α}
    (run : scope segment r s = .ok a s') :
    ∃ s₁, r { s with path := s.path.child segment } = .ok a s₁ ∧
      s' = { s₁ with path := s₁.path.parent } := by
  simp only [scope] at run
  split at run
  · next b s₁ body =>
    obtain ⟨rfl, rfl⟩ := EStateM.Result.ok.inj run
    exact ⟨s₁, body, rfl⟩
  · cases run

/-- A scope that was left by a failure had its body fail below the segment. -/
theorem error_of_scope {segment : String} {s s' : ReadState ν} {e : DecodeError}
    (run : scope segment r s = .error e s') :
    ∃ s₁, r { s with path := s.path.child segment } = .error e s₁ ∧
      s' = { s₁ with path := s₁.path.parent } := by
  simp only [scope] at run
  split at run
  · cases run
  · next e' s₁ body =>
    obtain ⟨rfl, rfl⟩ := EStateM.Result.error.inj run
    exact ⟨s₁, body, rfl⟩

/-- A bound is lifted as its body has ended. -/
theorem bounded_of_ok {length : Nat} {s s' : ReadState ν} {a : α}
    (body : r { s with cursor := s.cursor.confine (s.cursor.offset + length) } = .ok a s') :
    bounded length r s = .ok a { s' with cursor := s'.cursor.release s.cursor } := by
  rw [bounded, body]

theorem bounded_of_error {length : Nat} {s s' : ReadState ν} {e : DecodeError}
    (body : r { s with cursor := s.cursor.confine (s.cursor.offset + length) } = .error e s') :
    bounded length r s = .error e { s' with cursor := s'.cursor.release s.cursor } := by
  rw [bounded, body]

/-- A bound that was lifted had its body run on the bytes in front of it. -/
theorem ok_of_bounded {length : Nat} {s s' : ReadState ν} {a : α}
    (run : bounded length r s = .ok a s') :
    ∃ s₁, r { s with cursor := s.cursor.confine (s.cursor.offset + length) } = .ok a s₁ ∧
      s' = { s₁ with cursor := s₁.cursor.release s.cursor } := by
  simp only [bounded] at run
  split at run
  · next b s₁ body =>
    obtain ⟨rfl, rfl⟩ := EStateM.Result.ok.inj run
    exact ⟨s₁, body, rfl⟩
  · cases run

theorem error_of_bounded {length : Nat} {s s' : ReadState ν} {e : DecodeError}
    (run : bounded length r s = .error e s') :
    ∃ s₁, r { s with cursor := s.cursor.confine (s.cursor.offset + length) } = .error e s₁ ∧
      s' = { s₁ with cursor := s₁.cursor.release s.cursor } := by
  simp only [bounded] at run
  split at run
  · cases run
  · next e' s₁ body =>
    obtain ⟨rfl, rfl⟩ := EStateM.Result.error.inj run
    exact ⟨s₁, body, rfl⟩

theorem Local.family (h : Local r) : LocalFamily fun _ : ι => r := by
  intro _ s a s' run
  obtain ⟨used, left, t, ahead, hr⟩ := h s a s' run
  exact ⟨used, left, t, ahead, fun _ => hr⟩

theorem LocalFamily.isLocal {q : ι → NotingRead ν α} (h : LocalFamily q) (i : ι) :
    Local (q i) := by
  intro s a s' run
  obtain ⟨used, left, t, ahead, hq⟩ := h i s a s' run
  exact ⟨used, left, t, ahead, hq i⟩

/-- What fails has no successful run. -/
theorem LocalFamily.throw (e : ι → DecodeError) :
    LocalFamily fun i => (throw (e i) : NotingRead ν α) := by
  intro i s a s' run
  change EStateM.Result.error (e i) s = .ok a s' at run
  cases run

theorem Local.pure (a : α) : Local (Pure.pure a : NotingRead ν α) := by
  intro s b s' run
  obtain ⟨rfl, rfl⟩ := EStateM.Result.ok.inj run
  exact ⟨[], s.cursor.ahead, [], rfl, fun _ => ReadsBefore.pure a⟩

theorem Local.bind (hr : Local r) (hf : ∀ a, Local (f a)) : Local (r >>= f) := by
  intro s b s' run
  obtain ⟨a, s₁, run₁, run₂⟩ := ok_of_bind run
  obtain ⟨used, left, t, ahead, hused⟩ := hr s a s₁ run₁
  obtain ⟨-, rfl⟩ := (hused left).eq_past ahead run₁
  obtain ⟨used', left', t', ahead', hused'⟩ := hf a _ b s' run₂
  refine ⟨used ++ used', left', t ++ t', ?_, fun rest => (hused _).bind (hused' rest)⟩
  rw [ahead, List.append_assoc, ← ahead']
  rfl

theorem Local.map (hr : Local r) (g : α → β) : Local (g <$> r) := by
  intro s b s' run
  obtain ⟨a, run₁, rfl⟩ := ok_of_map run
  obtain ⟨used, left, t, ahead, hused⟩ := hr s a s' run₁
  exact ⟨used, left, t, ahead, fun rest => (hused rest).map g⟩

theorem Local.scope (segment : String) (hr : Local r) : Local (scope segment r) := by
  intro s a s' run
  obtain ⟨s₁, body, -⟩ := ok_of_scope run
  obtain ⟨used, left, t, ahead, hused⟩ := hr _ a s₁ body
  exact ⟨used, left, t.scope segment, ahead, fun rest => (hused rest).scope segment⟩

variable {kind : Kind α} {k : α × Anchor → NotingRead ν β}

/-- A field that is read was read from some bytes. -/
theorem ok_of_anchored {segment : String} (h : kind.read.Local) {s s' : ReadState ν}
    {v : α × Anchor} (run : anchored segment kind s = .ok v s') :
    ∃ used left, s.cursor.ahead = used ++ left ∧ kind.read.Reads used v.1 ∧
      s' = s.past [⟨[segment], kind.value v.1, used.length⟩] left := by
  simp only [anchored] at run
  split at run
  · next a c raw =>
    obtain ⟨rfl, -⟩ := EStateM.Result.ok.inj run
    obtain ⟨used, left, ahead, hused⟩ := h _ a c raw
    have again := run_anchored segment hused ahead
    simp only [anchored, raw] at again
    refine ⟨used, left, ahead, hused, ?_⟩
    obtain ⟨-, rfl⟩ := EStateM.Result.ok.inj run
    exact (EStateM.Result.ok.inj again).2
  · cases run

theorem ok_of_field {segment : String} (h : kind.read.Local) {s s' : ReadState ν} {v : α}
    (run : field segment kind s = .ok v s') :
    ∃ used left, s.cursor.ahead = used ++ left ∧ kind.read.Reads used v ∧
      s' = s.past [⟨[segment], kind.value v, used.length⟩] left := by
  obtain ⟨w, run₁, rfl⟩ := ok_of_map run
  exact ok_of_anchored h run₁

theorem Local.anchored_bind (segment : String) (h : kind.read.Local)
    (hk : ∀ v, LocalFamily fun anchor => k (v, anchor)) : Local (anchored segment kind >>= k) := by
  intro s b s' run
  obtain ⟨⟨v, anchor⟩, s₁, run₁, run₂⟩ := ok_of_bind run
  obtain ⟨used, left, ahead, hused, rfl⟩ := ok_of_anchored h run₁
  -- the anchor tells where the field stood, so that only a family can forget it again
  obtain ⟨used', left', t, ahead', hused'⟩ := hk v anchor _ b s' run₂
  refine ⟨used ++ used', left', _, ?_, fun rest =>
    ReadsBefore.anchored_bind segment hused fun j => hused' j rest⟩
  rw [ahead, List.append_assoc, ← ahead']
  rfl

theorem Local.field (segment : String) (h : kind.read.Local) :
    Local (field segment kind : NotingRead ν α) := by
  intro s a s' run
  obtain ⟨used, left, ahead, hused, -⟩ := ok_of_field h run
  exact ⟨used, left, _, ahead, fun _ => ReadsBefore.field segment hused⟩

theorem Local.tagBuffer : Local (tagBuffer : NotingRead ν Unit) :=
  (Local.field tagBufferSegment RawRead.tagBuffer_isLocal).map _

end FieldRead
end BrokerExam
