/-
BrokerExam/Proofs/Wire/Orderly.lean

What a field reader does however it ends.  An orderly reader meets a trace that
fits its layout, and has recorded just that when it ends.  When it fails, it was
refused by a primitive read right behind the trace, at a path of its own that
the layout provides for too (`Refused`), or it blames a field of the trace
(`Blames`), or else a field from before it began, of which it was given the
anchor.

Main results: orderly readers are closed under everything readers are made of.
What a sequence is made of must be kept apart by the layout (`Layout.Splits`).
-/
import BrokerExam.Proofs.Wire.Arrays
import BrokerExam.Proofs.Wire.FailedRead
import BrokerExam.Proofs.Wire.Layout

namespace BrokerExam

variable {ν α β : Type}

/-! ### Where a run has come to -/

/-- The state with the trace met. -/
def ReadState.after (s : ReadState ν) (t : Trace) : ReadState ν :=
  s.past t (s.cursor.ahead.drop t.width)

namespace ReadState

variable {s : ReadState ν} {t t' : Trace}

theorem after_nil : s.after [] = s := past_nil s

theorem after_after : (s.after t).after t' = s.after (t ++ t') := by
  simp only [after, past_past, past_ahead, List.drop_drop, Trace.width_append]

theorem after_fields :
    (s.after t).fields.toList = s.fields.toList ++ t.fields s.path s.cursor.offset := by
  rw [after, past, Array.toList_append]

/-- Reading some bytes leads behind the trace that was read from them. -/
theorem past_eq_after {used left : Bytes} (ahead : s.cursor.ahead = used ++ left)
    (width : t.width = used.length) : s.past t left = s.after t := by
  rw [after, ahead, width, List.drop_left]

end ReadState

/-! ### What a run can meet -/

/-- From the state on, the trace can be met by a reader with the layout. -/
structure Layout.Met (l : Layout) (s : ReadState ν) (t : Trace) : Prop where
  width : t.width ≤ s.cursor.ahead.length
  has : ∀ m ∈ t, l.Has m.path m.value.type
  apart : l.tidy = true → (t.map Mark.path).Pairwise Apart

/-- The error is that of a primitive read behind the trace, at a path of the layout at which there
is nothing yet.  The read saw no more than what is ahead. -/
structure Layout.Refused (l : Layout) (s : ReadState ν) (t : Trace) (e : DecodeError) : Prop where
  place : ∃ path type, e.path.segments = s.path.segments ++ path ∧ l.Has path type ∧
    (l.tidy = true → ∀ m ∈ t, Apart m.path path)
  failed : ∃ sight, sight <+: s.cursor.ahead.drop t.width ∧
    e.FailedAt ⟨s.cursor.offset + t.width, sight⟩

def DecodeError.anchor (e : DecodeError) : Anchor := ⟨e.path, e.start, e.stop⟩

/-- The error is blamed on a field of the trace, which is not empty. -/
def ReadState.Blames (s : ReadState ν) (t : Trace) (e : DecodeError) : Prop :=
  ∃ f ∈ t.fields s.path s.cursor.offset, f.anchor = e.anchor ∧ f.start < f.stop

/-- What `r` records fits the layout, and it fails only in one of three ways.  The anchors are those
that it was given of fields from before. -/
structure Orderly (l : Layout) (anchors : List Anchor) (r : NotingRead ν α) : Prop where
  ok : ∀ s a s', r s = .ok a s' → ∃ t, l.Met s t ∧ s' = s.after t
  error : ∀ s e s', r s = .error e s' → ∃ t, l.Met s t ∧ s'.path = s.path ∧
    s'.fields = (s.after t).fields ∧ (l.Refused s t e ∨ s.Blames t e ∨ e.anchor ∈ anchors)

namespace Layout

variable {l l₁ l₂ : Layout} {s : ReadState ν} {t t' : Trace} {e : DecodeError}

theorem Met.nil : l.Met s [] where
  width := Nat.zero_le _
  has := fun _ hm => absurd hm List.not_mem_nil
  apart := fun _ => List.Pairwise.nil

/-- The layout consists of the two others, which no paths have in common. -/
structure Splits (l l₁ l₂ : Layout) : Prop where
  first : ∀ {path type}, l₁.Has path type → l.Has path type
  second : ∀ {path type}, l₂.Has path type → l.Has path type
  tidy : l.tidy = true → l₁.tidy = true ∧ l₂.tidy = true ∧
    ∀ {path path' type type'}, l₁.Has path type → l₂.Has path' type' → Apart path path'

namespace Splits

theorem both : (Layout.both l₁ l₂).Splits l₁ l₂ where
  first := .inl
  second := .inr
  tidy := tidy_both

theorem elements (name : String) (inner : Layout) (i : Nat) :
    (under (.elements name i) inner).Splits (under (.only (indexed name i)) inner)
      (under (.elements name (i + 1)) inner) where
  first := fun h => elements_has (.inl h)
  second := fun h => elements_has (.inr h)
  tidy := fun tidy => ⟨tidy, tidy, elements_apart⟩

/-- After everything else, nothing. -/
theorem nothing : l.Splits l nothing where
  first := id
  second := False.elim
  tidy := fun tidy => ⟨tidy, rfl, fun _ none => none.elim⟩

end Splits

/-- What is met one after the other. -/
theorem Met.append (split : l.Splits l₁ l₂) (h₁ : l₁.Met s t) (h₂ : l₂.Met (s.after t) t') :
    l.Met s (t ++ t') where
  width := by
    have fits := h₁.width
    have rest : t'.width ≤ (s.cursor.ahead.drop t.width).length := h₂.width
    rw [List.length_drop] at rest
    rw [Trace.width_append]
    omega
  has := by
    intro m hm
    rcases List.mem_append.1 hm with hm | hm
    · exact split.first (h₁.has m hm)
    · exact split.second (h₂.has m hm)
  apart := by
    intro tidy
    obtain ⟨tidy₁, tidy₂, across⟩ := split.tidy tidy
    rw [List.map_append, List.pairwise_append]
    refine ⟨h₁.apart tidy₁, h₂.apart tidy₂, fun p hp q hq => ?_⟩
    obtain ⟨m, hm, rfl⟩ := List.mem_map.1 hp
    obtain ⟨n, hn, rfl⟩ := List.mem_map.1 hq
    exact across (h₁.has m hm) (h₂.has n hn)

/-- What is met first may be all that is met. -/
theorem Met.first (split : l.Splits l₁ l₂) (h : l₁.Met s t) : l.Met s t := by
  have whole := h.append split (Met.nil (l := l₂) (s := s.after t))
  rwa [List.append_nil] at whole

theorem Refused.first (split : l.Splits l₁ l₂) (h : l₁.Refused s t e) : l.Refused s t e where
  place := by
    obtain ⟨path, type, place, has, apart⟩ := h.place
    exact ⟨path, type, place, split.first has, fun tidy => apart (split.tidy tidy).1⟩
  failed := h.failed

/-- What was refused behind a second trace is apart from the first one too. -/
theorem Refused.second (split : l.Splits l₁ l₂) (met : l₁.Met s t)
    (h : l₂.Refused (s.after t) t' e) : l.Refused s (t ++ t') e where
  place := by
    obtain ⟨path, type, place, has, apart⟩ := h.place
    refine ⟨path, type, place, split.second has, fun tidy m hm => ?_⟩
    obtain ⟨-, tidy₂, across⟩ := split.tidy tidy
    rcases List.mem_append.1 hm with hm | hm
    · exact across (met.has m hm) has
    · exact apart tidy₂ m hm
  failed := by
    obtain ⟨sight, inSight, failed⟩ := h.failed
    refine ⟨sight, ?_, ?_⟩
    · rw [Trace.width_append, ← List.drop_drop]
      exact inSight
    · rw [Trace.width_append, ← Nat.add_assoc]
      exact failed

end Layout

namespace ReadState.Blames

variable {s : ReadState ν} {t t' : Trace} {e : DecodeError}

theorem first (h : s.Blames t e) : s.Blames (t ++ t') e := by
  obtain ⟨f, hf, blamed⟩ := h
  refine ⟨f, ?_, blamed⟩
  rw [Trace.fields_append]
  exact List.mem_append_left _ hf

theorem second (h : (s.after t).Blames t' e) : s.Blames (t ++ t') e := by
  obtain ⟨f, hf, blamed⟩ := h
  refine ⟨f, ?_, blamed⟩
  rw [Trace.fields_append]
  exact List.mem_append_right _ hf

end ReadState.Blames

/-! ### Sequences -/

namespace Orderly

variable {l l₁ l₂ : Layout} {anchors : List Anchor} {r : NotingRead ν α} {f : α → NotingRead ν β}

theorem pure (a : α) : Orderly l anchors (Pure.pure a : NotingRead ν α) where
  ok := by
    intro s b s' run
    obtain ⟨-, rfl⟩ := EStateM.Result.ok.inj run
    exact ⟨[], .nil, ReadState.after_nil.symm⟩
  error := by
    intro s e s' run
    cases run

/-- A complaint about a field from before. -/
theorem throw {anchor : Anchor} (h : anchor ∈ anchors) (cause : CodecError) :
    Orderly l anchors (throw (anchor.error cause) : NotingRead ν α) where
  ok := by
    intro s a s' run
    cases run
  error := by
    intro s e s' run
    obtain ⟨rfl, rfl⟩ := EStateM.Result.error.inj run
    exact ⟨[], .nil, rfl, congrArg ReadState.fields ReadState.after_nil.symm, .inr (.inr h)⟩

/-- More anchors do no harm. -/
theorem weaken {anchors' : List Anchor} (hr : Orderly l anchors r) (more : anchors ⊆ anchors') :
    Orderly l anchors' r where
  ok := hr.ok
  error := by
    intro s e s' run
    obtain ⟨t, met, path, fields, cause⟩ := hr.error s e s' run
    exact ⟨t, met, path, fields,
      cause.imp_right fun blamed => blamed.imp_right fun given => more given⟩

theorem bind (split : l.Splits l₁ l₂) (hr : Orderly l₁ anchors r)
    (hf : ∀ a, Orderly l₂ anchors (f a)) : Orderly l anchors (r >>= f) where
  ok := by
    intro s b s' run
    obtain ⟨a, s₁, run₁, run₂⟩ := ok_of_bind run
    obtain ⟨t, met, rfl⟩ := hr.ok s a s₁ run₁
    obtain ⟨t', met', rfl⟩ := (hf a).ok _ b s' run₂
    exact ⟨t ++ t', met.append split met', ReadState.after_after⟩
  error := by
    intro s e s' run
    -- either read can fail, the second one behind all that the first has met
    rcases error_of_bind run with run | ⟨a, s₁, run₁, run₂⟩
    · obtain ⟨t, met, path, fields, cause⟩ := hr.error s e s' run
      refine ⟨t, met.first split, path, fields, ?_⟩
      rcases cause with refused | blamed
      · exact .inl (refused.first split)
      · exact .inr blamed
    · obtain ⟨t, met, rfl⟩ := hr.ok s a s₁ run₁
      obtain ⟨t', met', path, fields, cause⟩ := (hf a).error _ e s' run₂
      refine ⟨t ++ t', met.append split met', path, ?_, ?_⟩
      · rw [fields, ReadState.after_after]
      · rcases cause with refused | blamed | given
        · exact .inl (refused.second split met)
        · exact .inr (.inl blamed.second)
        · exact .inr (.inr given)

/-- A read that only looks. -/
theorem peek {look : NotingRead ν α} (hlook : ∀ s, ∃ a, look s = .ok a s)
    (hf : ∀ a, Orderly l anchors (f a)) : Orderly l anchors (look >>= f) where
  ok := by
    intro s b s' run
    obtain ⟨a, seen⟩ := hlook s
    rw [bind_of_ok seen] at run
    exact (hf a).ok s b s' run
  error := by
    intro s e s' run
    obtain ⟨a, seen⟩ := hlook s
    rw [bind_of_ok seen] at run
    exact (hf a).error s e s' run

theorem offset {f : Nat → NotingRead ν β} (hf : ∀ n, Orderly l anchors (f n)) :
    Orderly l anchors (FieldRead.offset >>= f) :=
  peek (fun s => ⟨_, FieldRead.offset_ok s⟩) hf

theorem remaining {f : Nat → NotingRead ν β} (hf : ∀ n, Orderly l anchors (f n)) :
    Orderly l anchors (FieldRead.remaining >>= f) :=
  peek (fun s => ⟨_, FieldRead.remaining_ok s⟩) hf

theorem get {f : ReadState ν → NotingRead ν β} (hf : ∀ s, Orderly l anchors (f s)) :
    Orderly l anchors (MonadState.get >>= f) :=
  peek (fun s => ⟨_, FieldRead.get_ok s⟩) hf

/-- What is not read changes nothing. -/
theorem bind_pure (hr : Orderly l anchors r) (g : α → β) :
    Orderly l anchors (r >>= fun a => Pure.pure (g a)) :=
  hr.bind .nothing fun a => pure (g a)

theorem map (hr : Orderly l anchors r) (g : α → β) : Orderly l anchors (g <$> r) := by
  rw [← bind_pure_comp]
  exact hr.bind_pure g

/-! ### Fields -/

section Fields

variable {kind : Kind α} {type : ValueType} {k : α × Anchor → NotingRead ν β} {segment : String}

/-- A field that cannot be read is refused right here. -/
theorem refused_of_anchored (h : kind.Primitive) (type : ValueType)
    {s s' : ReadState ν} {e : DecodeError} (run : FieldRead.anchored segment kind s = .error e s') :
    (Layout.leaf segment type).Refused s [] e ∧ s'.path = s.path ∧ s'.fields = s.fields := by
  simp only [FieldRead.anchored] at run
  split at run
  · cases run
  · next cause c raw =>
    obtain ⟨rfl, rfl⟩ := EStateM.Result.error.inj run
    refine ⟨⟨⟨[segment], type, rfl, ⟨segment, [], rfl, rfl, rfl, rfl⟩, ?_⟩, ?_⟩, rfl, rfl⟩
    · exact fun _ m hm => absurd hm List.not_mem_nil
    · exact ⟨s.cursor.ahead, List.prefix_rfl, α, kind, h, c, raw, rfl, rfl⟩

/-- A field that was read is all that was met. -/
theorem met_of_anchored (h : kind.Primitive) (typed : ∀ a, (kind.value a).type = type)
    {s s' : ReadState ν} {v : α × Anchor} (run : FieldRead.anchored segment kind s = .ok v s') :
    ∃ used, kind.read.Reads used v.1 ∧
      v.2 = ⟨s.path.child segment, s.cursor.offset, s.cursor.offset + used.length⟩ ∧
      (Layout.leaf segment type).Met s [⟨[segment], kind.value v.1, used.length⟩] ∧
      s' = s.after [⟨[segment], kind.value v.1, used.length⟩] := by
  obtain ⟨used, left, ahead, hused, rfl⟩ := FieldRead.ok_of_anchored h.isLocal run
  rw [run_anchored segment hused ahead] at run
  refine ⟨used, hused, ?_, ⟨?_, ?_, ?_⟩, ReadState.past_eq_after ahead rfl⟩
  · exact congrArg Prod.snd (EStateM.Result.ok.inj run).1.symm
  · rw [ahead, List.length_append]
    exact Nat.le_add_right _ _
  · intro m hm
    rw [List.mem_singleton.1 hm]
    exact ⟨segment, [], rfl, rfl, rfl, typed v.1⟩
  · exact fun _ => List.pairwise_singleton _ _

theorem field (h : kind.Primitive) (typed : ∀ a, (kind.value a).type = type) :
    Orderly (Layout.leaf segment type) anchors (FieldRead.field segment kind : NotingRead ν α) where
  ok := by
    intro s a s' run
    obtain ⟨v, first, -⟩ := ok_of_map run
    obtain ⟨used, -, -, met, stop⟩ := met_of_anchored h typed first
    exact ⟨_, met, stop⟩
  error := by
    intro s e s' run
    obtain ⟨refused, path, fields⟩ := refused_of_anchored h type (error_of_map run)
    exact ⟨[], .nil, path, fields.trans (congrArg ReadState.fields ReadState.after_nil.symm),
      .inl refused⟩

/-- What follows a field may blame it.  The field is not empty, since its kind is plain. -/
theorem anchored_bind (split : l.Splits (Layout.leaf segment type) l₂) (h : kind.Plain)
    (typed : ∀ a, (kind.value a).type = type)
    (hk : ∀ v anchor, Orderly l₂ (anchor :: anchors) (k (v, anchor))) :
    Orderly l anchors (FieldRead.anchored segment kind >>= k) where
  ok := by
    intro s b s' run
    obtain ⟨v, s₁, run₁, run₂⟩ := ok_of_bind run
    obtain ⟨used, -, -, met, rfl⟩ := met_of_anchored (.plain h) typed run₁
    obtain ⟨t, met', rfl⟩ := (hk v.1 v.2).ok _ b s' run₂
    exact ⟨_, met.append split met', ReadState.after_after⟩
  error := by
    intro s e s' run
    rcases error_of_bind run with run | ⟨v, s₁, run₁, run₂⟩
    · obtain ⟨refused, path, fields⟩ := refused_of_anchored (.plain h) type run
      exact ⟨[], .nil, path, fields.trans (congrArg ReadState.fields ReadState.after_nil.symm),
        .inl (refused.first split)⟩
    · obtain ⟨used, hused, anchor, met, rfl⟩ := met_of_anchored (.plain h) typed run₁
      obtain ⟨t, met', path, fields, cause⟩ := (hk v.1 v.2).error _ e s' run₂
      refine ⟨_, met.append split met', path, fields.trans ?_, ?_⟩
      · rw [ReadState.after_after]
      · rcases cause with refused | blamed | given
        · exact .inl (refused.second split met)
        · exact .inr (.inl blamed.second)
        · rcases List.mem_cons.1 given with same | given
          · -- the field just read is the first of the trace
            refine .inr (.inl ⟨_, List.mem_cons_self, ?_, ?_⟩)
            · rw [same, anchor]
              rfl
            · exact Nat.lt_add_of_pos_right (h.used_pos hused)
          · exact .inr (.inr given)

theorem tagBuffer : Orderly Layout.tagBuffer anchors (FieldRead.tagBuffer : NotingRead ν Unit) :=
  (field .tagBuffer fun _ => rfl).map _

end Fields

end Orderly

/-! ### Scopes and bounds -/

section Scopes

variable {l : Layout} {segment : String} {s : ReadState ν} {t : Trace} {e : DecodeError}

/-- Leaving a scope restores the path, and the trace stands below the segment. -/
theorem ReadState.after_scope :
    { ({ s with path := s.path.child segment } : ReadState ν).after t with
      path := (s.path.child segment).parent } = s.after (t.scope segment) := by
  simp only [after, past, FieldPath.parent_child, Trace.width_scope, Trace.fields_scope]

/-- Lifting a bound shows again what is behind it. -/
theorem ReadState.after_confine (stop : Nat) :
    let confined : ReadState ν := { s with cursor := s.cursor.confine stop }
    { confined.after t with cursor := (confined.after t).cursor.release s.cursor } = s.after t := by
  simp only [after, past, Cursor.confine, Cursor.release, Nat.add_sub_cancel_left]

theorem ReadState.Blames.scope
    (h : ({ s with path := s.path.child segment } : ReadState ν).Blames t e) :
    s.Blames (t.scope segment) e := by
  obtain ⟨f, hf, blamed⟩ := h
  exact ⟨f, (Trace.fields_scope ..).symm ▸ hf, blamed⟩

namespace Layout

theorem Met.scope (h : l.Met ({ s with path := s.path.child segment } : ReadState ν) t) :
    (under (.only segment) l).Met s (t.scope segment) where
  width := by
    rw [Trace.width_scope]
    exact h.width
  has := by
    intro m hm
    obtain ⟨n, hn, rfl⟩ := List.mem_map.1 hm
    exact ⟨segment, n.path, rfl, rfl, h.has n hn⟩
  apart := by
    intro tidy
    have paths : (t.scope segment).map Mark.path = (t.map Mark.path).map (segment :: ·) := by
      rw [Trace.scope, List.map_map, List.map_map]
      rfl
    rw [paths, List.pairwise_map]
    exact (h.apart tidy).imp Apart.cons_iff.2

theorem Refused.scope (h : l.Refused ({ s with path := s.path.child segment } : ReadState ν) t e) :
    (under (.only segment) l).Refused s (t.scope segment) e where
  place := by
    obtain ⟨path, type, place, has, apart⟩ := h.place
    refine ⟨segment :: path, type, ?_, ⟨segment, path, rfl, rfl, has⟩, fun tidy m hm => ?_⟩
    · rw [place, FieldPath.child, List.append_assoc, List.singleton_append]
    · obtain ⟨n, hn, rfl⟩ := List.mem_map.1 hm
      exact Apart.cons_iff.2 (apart tidy n hn)
  failed := by
    rw [Trace.width_scope]
    exact h.failed

theorem Met.of_confined {stop : Nat}
    (h : l.Met ({ s with cursor := s.cursor.confine stop } : ReadState ν) t) : l.Met s t where
  width := Nat.le_trans h.width (List.length_take_le' _ _)
  has := h.has
  apart := h.apart

/-- What was refused in front of a bound did not see more than is ahead. -/
theorem Refused.of_confined {stop : Nat}
    (h : l.Refused ({ s with cursor := s.cursor.confine stop } : ReadState ν) t e) :
    l.Refused s t e where
  place := h.place
  failed := by
    obtain ⟨sight, inSight, failed⟩ := h.failed
    refine ⟨sight, inSight.trans ?_, failed⟩
    rw [Cursor.confine, List.drop_take]
    exact List.take_prefix _ _

end Layout
end Scopes

namespace Orderly

variable {l l₁ l₂ : Layout} {anchors : List Anchor} {r : NotingRead ν α}

theorem scope (segment : String) (hr : Orderly l anchors r) :
    Orderly (Layout.under (.only segment) l) anchors (FieldRead.scope segment r) where
  ok := by
    intro s a s' run
    obtain ⟨s₁, body, rfl⟩ := FieldRead.ok_of_scope run
    obtain ⟨t, met, rfl⟩ := hr.ok _ a s₁ body
    exact ⟨t.scope segment, met.scope, ReadState.after_scope⟩
  error := by
    intro s e s' run
    obtain ⟨s₁, body, rfl⟩ := FieldRead.error_of_scope run
    obtain ⟨t, met, path, fields, cause⟩ := hr.error _ e s₁ body
    refine ⟨t.scope segment, met.scope, ?_, ?_, ?_⟩
    · rw [path, FieldPath.parent_child]
    · rw [fields, ← ReadState.after_scope]
    · rcases cause with refused | blamed | given
      · exact .inl refused.scope
      · exact .inr (.inl blamed.scope)
      · exact .inr (.inr given)

theorem bounded (length : Nat) (hr : Orderly l anchors r) :
    Orderly l anchors (FieldRead.bounded length r) where
  ok := by
    intro s a s' run
    obtain ⟨s₁, body, rfl⟩ := FieldRead.ok_of_bounded run
    obtain ⟨t, met, rfl⟩ := hr.ok _ a s₁ body
    exact ⟨t, met.of_confined, ReadState.after_confine _⟩
  error := by
    intro s e s' run
    obtain ⟨s₁, body, rfl⟩ := FieldRead.error_of_bounded run
    obtain ⟨t, met, path, fields, cause⟩ := hr.error _ e s₁ body
    refine ⟨t, met.of_confined, path, ?_, ?_⟩
    · rw [fields]
      rfl
    · rcases cause with refused | blamed | given
      · exact .inl refused.of_confined
      · exact .inr (.inl blamed)
      · exact .inr (.inr given)

/-! ### Arrays -/

section Arrays

variable {name : String} {inner : Layout} {element : NotingRead ν α}

theorem repeated {element : Nat → NotingRead ν α}
    (h : ∀ i, Orderly (Layout.under (.only (indexed name i)) inner) anchors (element i))
    (count i : Nat) : Orderly (Layout.under (.elements name i) inner) anchors
      (FieldRead.repeated element count i) := by
  induction count generalizing i with
  | zero => exact pure []
  | succ count ih =>
    have others (a : α) := (ih (i + 1)).bind_pure (a :: ·)
    exact bind (.elements name inner i) (h i) others

theorem repeated_scope (h : Orderly inner anchors element) (count : Nat) :
    Orderly (Layout.elements name inner) anchors
      (FieldRead.repeated (fun i => FieldRead.scope (indexed name i) element) count 0) :=
  repeated (fun i => h.scope (indexed name i)) count 0

theorem untilEnd (h : Orderly inner anchors element) (fuel i : Nat) :
    Orderly (Layout.under (.elements name i) inner) anchors
      (FieldRead.untilEnd name element fuel i) := by
  induction fuel generalizing i with
  | zero => exact pure []
  | succ fuel ih =>
    refine get fun s => ?_
    split
    · exact pure []
    · -- the elements from `i` on are the one at `i` and those behind it
      have others (a : α) := (ih (i + 1)).bind_pure (a :: ·)
      exact bind (.elements name inner i) (h.scope (indexed name i)) others

theorem all (h : Orderly inner anchors element) :
    Orderly (Layout.elements name inner) anchors (FieldRead.all name element) :=
  remaining fun fuel => h.untilEnd fuel 0

theorem compactArray (h : Orderly inner anchors element) :
    Orderly (Layout.array .compactArrayLength name inner) anchors
      (FieldRead.compactArray name element) := by
  refine scope name (bind .both (field (.plain .compactArrayLength) fun _ => rfl) fun raw => ?_)
  exact h.repeated_scope _

theorem compactInt32Array :
    Orderly (Layout.array .compactArrayLength name (.value .int32)) anchors
      (FieldRead.compactInt32Array name : NotingRead ν (List Int32)) := by
  refine scope name (bind .both (field (.plain .compactArrayLength) fun _ => rfl) fun raw => ?_)
  exact repeated (fun i => field (.plain .int32) fun _ => rfl) _ 0

theorem array (h : Orderly inner anchors element) :
    Orderly (Layout.array .int32 name inner) anchors (FieldRead.array name element) := by
  refine scope name (anchored_bind .both .int32 (fun _ => rfl) fun length anchor => ?_)
  show Orderly _ _ (if length < -1 then _ else _)
  split
  · exact throw List.mem_cons_self _
  · exact (h.weaken (List.subset_cons_self anchor anchors)).repeated_scope _

end Arrays
end Orderly
end BrokerExam
