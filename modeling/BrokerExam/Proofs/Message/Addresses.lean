/-
BrokerExam/Proofs/Message/Addresses.lean

Paths as addresses.  The fields of a response are apart from each other, so that
a path finds one value or none.  A read that fails has a path apart from all of
them.  The tree that is shown for a failure therefore marks the field that the
failure is about, and nothing else.

Main result: `responses_addressed`.
-/
import BrokerExam.Proofs.Message.Tiling
import BrokerExam.Proofs.Report.Tree

namespace BrokerExam

/-! ### Recorded fields -/

/-- The fields recorded while a response was read, however that ended. -/
def Response.recorded (β : Type) [ResponseBody β] (payload : Bytes) : List Field :=
  match (read payload : EStateM.Result DecodeError (ReadState Unit) (Response β)) with
  | .ok _ s => s.fields.toList
  | .error _ s => s.fields.toList

/-- The tree shows the fields in front of `f`, and then `f` with the one cross in it. -/
def Tree.Marks (fields : List Field) (f : Field) (tree : List String) : Prop :=
  ∃ before after above, fields = before ++ f :: after ∧ lines before = .ok above ∧
    CrossedLast above f.path f.value.display tree

/-- What is so of the paths of a response, and of the trees that are shown when a field is found
wrong or reading fails. -/
structure Response.Addressed (β : Type) [ResponseBody β] (payload : Bytes) : Prop where
  apart : ((recorded β payload).map Field.path).Pairwise FieldPath.Apart
  rooted : ∀ f ∈ recorded β payload, f.path.segments.head? = some (root β)
  failedField : ∀ f ∈ recorded β payload, ∃ tree,
    Tree.linesForFailedField (recorded β payload) f.path = .ok tree ∧
      Tree.Marks (recorded β payload) f tree
  /-- A read that failed has a path apart from all fields. -/
  failedRead : ∀ e s, (read payload : EStateM.Result _ _ (Response β)) = .error e s →
    e.IsFailedRead (root β) payload (recorded β payload) →
    ∀ f ∈ recorded β payload, e.path.Apart f.path
  /-- A field that is blamed is the one that is marked. -/
  blamed : ∀ e s, (read payload : EStateM.Result _ _ (Response β)) = .error e s →
    ∀ f ∈ recorded β payload, f.anchor = e.anchor → ∃ tree,
      Tree.linesForDecodeError (recorded β payload) e.path = .ok tree ∧
        Tree.Marks (recorded β payload) f tree
  /-- If none is blamed, all are shown, and the path of the error is marked behind them. -/
  unblamed : ∀ e s, (read payload : EStateM.Result _ _ (Response β)) = .error e s →
    ¬ e.IsBlamed (recorded β payload) → ∃ above tree,
      Tree.lines (recorded β payload) = .ok above ∧
        Tree.linesForDecodeError (recorded β payload) e.path = .ok tree ∧
          Tree.CrossedLast above e.path "Decode Error" tree

namespace Response

variable {β : Type} [ResponseBody β] [ResponseLayout β] {payload : Bytes} {s : ReadState Unit}
  {t : Trace}

omit [ResponseLayout β] in
theorem recorded_of_ok {r : Response β}
    (run : (read payload : EStateM.Result _ _ (Response β)) = .ok r s) :
    recorded β payload = s.fields.toList := by
  rw [recorded, run]

omit [ResponseLayout β] in
theorem recorded_of_error {e : DecodeError}
    (run : (read payload : EStateM.Result _ _ (Response β)) = .error e s) :
    recorded β payload = s.fields.toList := by
  rw [recorded, run]

/-- However reading ends, what is recorded is a trace that fits the layout. -/
theorem came_recorded (β : Type) [ResponseBody β] [ResponseLayout β] (payload : Bytes) :
    ∃ s t, Came β payload s t ∧ recorded β payload = s.fields.toList := by
  rcases run : (read payload : EStateM.Result DecodeError (ReadState Unit) (Response β)) with
    ⟨r, s⟩ | ⟨e, s⟩
  · obtain ⟨t, came, -⟩ := ok_of_read run
    exact ⟨s, t, came, recorded_of_ok run⟩
  · obtain ⟨t, came, -⟩ := error_of_read run
    exact ⟨s, t, came, recorded_of_error run⟩

/-- Every field has a place in the layout. -/
theorem has_recorded {f : Field} (hf : f ∈ recorded β payload) :
    (layout β).Has f.path.segments f.value.type := by
  obtain ⟨s, t, came, same⟩ := came_recorded β payload
  obtain ⟨m, hm, path, value⟩ := came.mark (same ▸ hf)
  rw [path, value]
  exact came.met.has m hm

/-! ### Fields apart -/

theorem segments_fields (t : Trace) (start : Nat) :
    (t.fields FieldPath.root start).map (·.path.segments) = t.map Mark.path := by
  induction t generalizing start with
  | nil => rfl
  | cons m t ih =>
    rw [Trace.fields, List.map_cons, ih, List.map_cons]
    rfl

theorem apart_recorded (tidy : (layout β).tidy = true) (payload : Bytes) :
    (recorded β payload).Pairwise fun f g => f.path.Apart g.path := by
  obtain ⟨s, t, came, same⟩ := came_recorded β payload
  have marks := came.met.apart tidy
  rw [← segments_fields t 0, ← came.fields, List.pairwise_map] at marks
  rw [same]
  exact marks.imp FieldPath.apart_iff.2

/-- Every field stands below the root. -/
theorem path_recorded (tidy : (layout β).tidy = true) {f : Field} (hf : f ∈ recorded β payload) :
    ∃ segment rest, f.path.segments = root β :: segment :: rest :=
  below_root tidy (has_recorded hf)

theorem path_recorded_ne_root (tidy : (layout β).tidy = true) {f : Field}
    (hf : f ∈ recorded β payload) : f.path.segments ≠ [] := by
  obtain ⟨segment, rest, path⟩ := path_recorded tidy hf
  rw [path]
  exact List.cons_ne_nil _ _

/-- Of which kind an error is; that of a failed read is at a path apart from all fields. -/
theorem kind_of_error (tidy : (layout β).tidy = true) {e : DecodeError}
    (run : (read payload : EStateM.Result _ _ (Response β)) = .error e s) :
    (e.IsFailedRead (root β) payload (recorded β payload) ∧
      ∀ f ∈ recorded β payload, e.path.Apart f.path) ∨
    e.IsBlamed (recorded β payload) ∨ e.IsTrailing (root β) payload (recorded β payload) := by
  obtain ⟨t, came, cause⟩ := error_of_read run
  rw [recorded_of_error run]
  rcases cause with refused | blamed | ⟨some, rfl⟩
  · obtain ⟨failedRead, apart⟩ := came.isFailedRead tidy refused
    exact .inl ⟨failedRead, fun f hf => FieldPath.apart_iff.2 (apart f hf).symm⟩
  · exact .inr (.inl (came.isBlamed blamed))
  · exact .inr (.inr (came.isTrailing some))

/-! ### Trees -/

/-- Every field can be marked, with what stands in front of it above. -/
theorem marks_recorded (tidy : (layout β).tidy = true) {f : Field}
    (hf : f ∈ recorded β payload) : ∃ tree,
      Tree.linesForFailedField (recorded β payload) f.path = .ok tree ∧
      Tree.linesForDecodeError (recorded β payload) f.path = .ok tree ∧
        Tree.Marks (recorded β payload) f tree := by
  obtain ⟨before, after, split⟩ := List.append_of_mem hf
  have notRoot : ∀ g ∈ before ++ f :: after, g.path.segments ≠ [] := fun g hg =>
    path_recorded_ne_root tidy (split ▸ hg)
  -- the path finds no field in front of the one it is meant for
  have other : ∀ g ∈ before, g.path ≠ f.path := by
    have apart := apart_recorded tidy payload
    rw [split, List.pairwise_append] at apart
    exact fun g hg => (apart.2.2 g hg f List.mem_cons_self).1
  obtain ⟨above, tree, shown, failed, blamed, crossed⟩ := Tree.linesForFailedField_ok notRoot other
  rw [← split] at failed blamed
  exact ⟨tree, failed, blamed, before, after, above, split, shown, crossed⟩

/-- **Paths address at most one value**, wherever the layout keeps its parts apart. -/
theorem addressed (tidy : (layout β).tidy = true) (payload : Bytes) : Addressed β payload where
  apart := List.pairwise_map.2 (apart_recorded tidy payload)
  rooted := by
    intro f hf
    obtain ⟨segment, rest, path⟩ := path_recorded tidy hf
    rw [path, List.head?_cons]
  failedField := by
    intro f hf
    obtain ⟨tree, failed, -, marks⟩ := marks_recorded tidy hf
    exact ⟨tree, failed, marks⟩
  failedRead := by
    intro e s run failedRead
    have placed := isPlaced_of_error tidy run
    rw [← recorded_of_error run] at placed
    rcases kind_of_error tidy run with ⟨-, apart⟩ | blamed | trailing
    · exact apart
    · exact absurd ⟨failedRead, blamed⟩ placed.failedRead_or_blamed
    · exact absurd ⟨failedRead, trailing⟩ placed.failedRead_or_trailing
  blamed := by
    intro e s run f hf same
    obtain ⟨tree, -, blamed, marks⟩ := marks_recorded tidy hf
    have path : f.path = e.path := congrArg Anchor.path same
    exact ⟨tree, path ▸ blamed, marks⟩
  unblamed := by
    intro e s run unblamed
    have notRoot : ∀ g ∈ recorded β payload, g.path.segments ≠ [] := fun g =>
      path_recorded_ne_root tidy
    rcases kind_of_error tidy run with ⟨failedRead, apart⟩ | blamed | trailing
    · have above := (FieldPath.isDescendantOf_iff.1 failedRead.below).1
      refine Tree.linesForDecodeError_ok notRoot ?_ fun g hg => (apart g hg).1.symm
      intro empty
      rw [empty, List.prefix_nil] at above
      cases above
    · exact absurd blamed unblamed
    · rw [trailing.path]
      refine Tree.linesForDecodeError_ok notRoot (List.cons_ne_nil _ _) fun g hg here => ?_
      obtain ⟨segment, rest, below⟩ := path_recorded tidy hg
      rw [here] at below
      cases below

end Response

end BrokerExam
