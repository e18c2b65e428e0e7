/-
BrokerExam/Proofs/Wire/Inside.lean

Runs inside a run.  A run that ends well, from `s` to `s'`, is made of many
others;

    Inside s s' below r a

says that one of them was of `r`, below the segments `below`, and gave `a`.  What
it recorded is still there in the end, and it saw the bytes that its offset says
(`Reaches`).

Main results: the way down to such a run, through sequences, scopes and arrays
(`Inside.bind`, `Inside.scope`, `Inside.element`), and what it has recorded when
it is a field (`Inside.recorded`).
-/
import BrokerExam.Proofs.Wire.Arrays

namespace BrokerExam

variable {ν α β : Type}

/-- A reader at `s` is at `s₁` later on. -/
structure Reaches (s s₁ : ReadState ν) : Prop where
  ahead : ∃ skipped, s.cursor.ahead = skipped ++ s₁.cursor.ahead ∧
    s₁.cursor.offset = s.cursor.offset + skipped.length
  fields : s.fields.toList <+: s₁.fields.toList

/-- On the way from `s` to `s'`, a run of `r` below the segments gave `a`. -/
def Inside (s s' : ReadState ν) (below : List String) (r : NotingRead ν α) (a : α) : Prop :=
  ∃ s₁ s₂, Reaches s s₁ ∧ s₁.path.segments = s.path.segments ++ below ∧ r s₁ = .ok a s₂ ∧
    Reaches s₂ s'

/-! ### Later states -/

namespace Reaches

variable {s s₁ s₂ : ReadState ν}

theorem refl (s : ReadState ν) : Reaches s s := ⟨⟨[], rfl, rfl⟩, List.prefix_rfl⟩

theorem trans (h₁ : Reaches s s₁) (h₂ : Reaches s₁ s₂) : Reaches s s₂ where
  ahead := by
    obtain ⟨skipped, ahead, offset⟩ := h₁.ahead
    obtain ⟨skipped', ahead', offset'⟩ := h₂.ahead
    refine ⟨skipped ++ skipped', ?_, ?_⟩
    · rw [ahead, ahead', List.append_assoc]
    · rw [offset', offset, List.length_append, Nat.add_assoc]
  fields := h₁.fields.trans h₂.fields

theorem past {t : Trace} {used left : Bytes} (ahead : s.cursor.ahead = used ++ left)
    (width : t.width = used.length) : Reaches s (s.past t left) where
  ahead := ⟨used, ahead, congrArg (s.cursor.offset + ·) width⟩
  fields := by
    rw [ReadState.past, Array.toList_append]
    exact List.prefix_append _ _

/-- From the start on, what lies ahead are the bytes from the offset on. -/
theorem ahead_of_start {payload : Bytes} {notes : ν}
    (h : Reaches (ReadState.start payload notes) s) :
    s.cursor.ahead = payload.drop s.cursor.offset := by
  obtain ⟨skipped, ahead, offset⟩ := h.ahead
  have whole : payload = skipped ++ s.cursor.ahead := ahead
  have here : s.cursor.offset = skipped.length := offset.trans (Nat.zero_add _)
  rw [here, whole, List.drop_left]

end Reaches

namespace FieldRead

/-- Each successful run leads on, and back to the path at which it began. -/
def Onward (r : NotingRead ν α) : Prop :=
  ∀ s a s', r s = .ok a s' → Reaches s s' ∧ s'.path = s.path

theorem Local.onward {r : NotingRead ν α} (h : Local r) : Onward r := by
  intro s a s' run
  obtain ⟨used, left, t, ahead, hused⟩ := h s a s' run
  obtain ⟨-, rfl⟩ := (hused left).eq_past ahead run
  exact ⟨Reaches.past ahead (hused left).width, rfl⟩

end FieldRead

/-! ### The way down -/

namespace Inside

variable {s s' : ReadState ν} {below : List String} {a : α} {b : β} {r : NotingRead ν α}
  {f : α → NotingRead ν β}

theorem of_run (run : r s = .ok a s') : Inside s s' [] r a :=
  ⟨s, s', Reaches.refl s, (List.append_nil _).symm, run, Reaches.refl s'⟩

theorem eq_of_pure {x : α} (h : Inside s s' below (pure x) a) : x = a := by
  obtain ⟨_, _, -, -, run, -⟩ := h
  exact (EStateM.Result.ok.inj run).1

/-- What comes next in a sequence. -/
theorem next (h : Inside s s' below (r >>= f) b) (hr : FieldRead.Local r) :
    ∃ a, Inside s s' below (f a) b := by
  obtain ⟨s₁, s₂, before, path, run, behind⟩ := h
  obtain ⟨a, s₃, run₁, run₂⟩ := ok_of_bind run
  obtain ⟨reaches, same⟩ := hr.onward s₁ a s₃ run₁
  refine ⟨a, s₃, s₂, before.trans reaches, ?_, run₂, behind⟩
  rw [same, path]

/-- Both runs of a sequence. -/
theorem bind (h : Inside s s' below (r >>= f) b) (hr : FieldRead.Local r)
    (hf : ∀ a, FieldRead.Onward (f a)) :
    ∃ a, Inside s s' below r a ∧ Inside s s' below (f a) b := by
  obtain ⟨s₁, s₂, before, path, run, behind⟩ := h
  obtain ⟨a, s₃, run₁, run₂⟩ := ok_of_bind run
  obtain ⟨reaches, same⟩ := hr.onward s₁ a s₃ run₁
  refine ⟨a, ⟨s₁, s₃, before, path, run₁, ?_⟩, ⟨s₃, s₂, before.trans reaches, ?_, run₂, behind⟩⟩
  · exact (hf a s₃ b s₂ run₂).1.trans behind
  · rw [same, path]

theorem scope {segment : String} (h : Inside s s' below (FieldRead.scope segment r) a) :
    Inside s s' (below ++ [segment]) r a := by
  obtain ⟨s₁, s₂, before, path, run, behind⟩ := h
  obtain ⟨s₃, body, rfl⟩ := FieldRead.ok_of_scope run
  -- entering and leaving the scope moves neither the cursor nor the fields
  refine ⟨{ s₁ with path := s₁.path.child segment }, s₃, ⟨before.ahead, before.fields⟩, ?_, body,
    ⟨behind.ahead, behind.fields⟩⟩
  rw [FieldPath.child, path, List.append_assoc]

/-! ### Arrays -/

theorem repeated {element : Nat → NotingRead ν α} (he : ∀ i, FieldRead.Local (element i))
    {count i j : Nat} {as : List α}
    (h : Inside s s' below (FieldRead.repeated element count i) as) (get : as[j]? = some a) :
    Inside s s' below (element (i + j)) a := by
  induction count generalizing i j as with
  | zero =>
    obtain rfl : [] = as := eq_of_pure h
    cases get
  | succ count ih =>
    have others := FieldRead.Local.repeated he count (i + 1)
    obtain ⟨x, first, behind⟩ := h.bind (he i) fun x =>
      (others.bind fun xs => FieldRead.Local.pure (x :: xs)).onward
    obtain ⟨xs, rest, last⟩ := behind.bind others fun xs =>
      (FieldRead.Local.pure (x :: xs)).onward
    obtain rfl : x :: xs = as := eq_of_pure last
    cases j with
    | zero =>
      obtain rfl : x = a := Option.some.inj get
      exact first
    | succ j =>
      have there := ih rest (j := j) get
      rwa [Nat.add_assoc, Nat.add_comm 1] at there

/-- The element of an array at an index is read below that index. -/
theorem element {name : String} (hr : FieldRead.Local r) {j : Nat} {as : List α}
    (h : Inside s s' below (FieldRead.compactArray name r) as) (get : as[j]? = some a) :
    Inside s s' (below ++ [name, indexed name j]) r a := by
  have readsLength := FieldRead.Local.field (ν := ν) "Length" Kind.Plain.compactArrayLength.isLocal
  obtain ⟨raw, items⟩ := h.scope.next readsLength
  have item := (items.repeated (fun i => hr.scope (indexed name i)) get).scope
  rwa [List.append_assoc, Nat.zero_add] at item

/-! ### Fields -/

/-- A value that was read inside is among the fields in the end; what came behind it saw the bytes
from its end on. -/
theorem recorded {segment : String} {kind : Kind α} {k : α × Anchor → NotingRead ν β}
    (h : Inside s s' below (FieldRead.anchored segment kind >>= k) b) (hkind : kind.read.Local)
    (hk : ∀ v, FieldRead.Onward (k v)) :
    ∃ v s₁ s₂, ∃ f ∈ s'.fields.toList, f.path.segments = s.path.segments ++ below ++ [segment] ∧
      f.value = kind.value v.1 ∧ f.stop = s₁.cursor.offset ∧ Reaches s s₁ ∧ k v s₁ = .ok b s₂ := by
  obtain ⟨s₁, s₂, before, path, run, behind⟩ := h
  obtain ⟨v, s₃, run₁, run₂⟩ := ok_of_bind run
  obtain ⟨used, left, ahead, -, rfl⟩ := FieldRead.ok_of_anchored hkind run₁
  have here : Reaches s₁ _ := Reaches.past (t := [⟨[segment], kind.value v.1, used.length⟩]) ahead
    (Nat.add_zero used.length)
  -- what was recorded here is a prefix of what is recorded in the end
  have kept := ((hk v _ b s₂ run₂).1.trans behind).fields
  refine ⟨v, _, s₂, ⟨⟨s₁.path.segments ++ [segment]⟩, kind.value v.1, s₁.cursor.offset,
    s₁.cursor.offset + used.length⟩, ?_, ?_, rfl, rfl, before.trans here, run₂⟩
  · apply kept.subset
    rw [ReadState.past, Array.toList_append]
    exact List.mem_append_right _ List.mem_cons_self
  · show s₁.path.segments ++ [segment] = _
    rw [path]

end Inside
end BrokerExam
