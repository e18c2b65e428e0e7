/-
BrokerExam/Proofs/Wire/Pieces.lean

What bytes hold that were read.  An array that was read is its length and then
one piece for each element; a row of fields of fixed width is as wide as they are
together.  That is the way back from what was read to how it stands in the bytes,
also where they were not written by a codec.

Main results: `FieldRead.reads_of_array`, and the class `Codec.Spans`, which is
found by instances along a codec.
-/
import BrokerExam.Proofs.Wire.Delimited

namespace BrokerExam

variable {α β γ : Type}

/-! ### Arrays -/

namespace FieldRead

variable {name : String} {element : FieldRead α} {used : Bytes} {t : Trace} {as : List α}

/-- Elements that were read one after the other have a piece each. -/
theorem reads_of_repeated (h : Local element) {count i : Nat}
    (reads : Reads (repeated (fun i => scope (indexed name i) element) count i) used t as) :
    ∃ ps : List (Piece α), ps.length = count ∧ used = ps.flatMap Piece.bytes ∧
      as = ps.map Piece.value ∧ ∀ p ∈ ps, p.ReadBy element := by
  induction count generalizing i used t as with
  | zero =>
    obtain ⟨rfl, rfl⟩ := reads_of_pure reads
    exact ⟨[], rfl, rfl, rfl, fun p hp => absurd hp List.not_mem_nil⟩
  | succ count ih =>
    have first := h.scope (indexed name i)
    have others := Local.repeated (fun i => h.scope (indexed name i)) count (i + 1)
    obtain ⟨a, u, v, _, _, rfl, readsFirst, behind⟩ :=
      first.reads_of_bind (fun a => others.bind fun as => Local.pure (a :: as)) reads
    rw [bind_pure_comp] at behind
    obtain ⟨as, _, rfl, readsOthers⟩ := others.reads_of_map behind
    obtain ⟨t', piece⟩ := h.reads_of_scope readsFirst
    obtain ⟨ps, count, cut, rfl, each⟩ := ih readsOthers
    refine ⟨⟨u, t', a⟩ :: ps, congrArg Nat.succ count, ?_, rfl, ?_⟩
    · rw [cut, List.flatMap_cons]
    · exact List.forall_mem_cons.2 ⟨piece, each⟩

/-- **An array that was read** is a length and a piece for each element.  The length counts the
elements, or is that of null. -/
theorem reads_of_array (h : Local element) (reads : Reads (array name element) used t as) :
    ∃ (n : Int32) (length : Bytes) (ps : List (Piece α)), used = length ++ ps.flatMap Piece.bytes ∧
      Kind.int32.read.Reads length n ∧ (n.toInt = as.length ∨ n = -1 ∧ as = []) ∧
      as = ps.map Piece.value ∧ ∀ p ∈ ps, p.ReadBy element := by
  obtain ⟨s₁, body, left⟩ := ok_of_scope (reads.run_start ())
  obtain ⟨⟨n, anchor⟩, _, first, second⟩ := ok_of_bind body
  obtain ⟨length, rest, ahead, value, rfl⟩ := ok_of_anchored Kind.Plain.int32.isLocal first
  have whole : [] = s₁.cursor.ahead := congrArg (fun s : ReadState Unit => s.cursor.ahead) left
  dsimp only at second
  split at second
  · cases second
  · next notBelow =>
    have elements := Local.repeated (fun i => h.scope (indexed name i)) n.toInt.toNat 0
    obtain ⟨t', behind⟩ := elements.reads_of_run second whole.symm
    obtain ⟨ps, count, cut, rfl, each⟩ := reads_of_repeated h behind
    refine ⟨n, length, ps, ahead.trans (congrArg (length ++ ·) cut), value, ?_, rfl, each⟩
    rw [List.length_map, count]
    rw [Int32.lt_iff_toInt_lt, show (-1 : Int32).toInt = -1 from rfl] at notBelow
    by_cases null : n.toInt = -1
    · rw [null] at count
      obtain rfl : ps = [] := List.eq_nil_of_length_eq_zero count
      exact .inr ⟨Int32.toInt_inj.1 null, rfl⟩
    · exact .inl (by omega)

end FieldRead

/-! ### Fixed widths -/

namespace Codec

/-- Whatever the codec reads takes `k` bytes. -/
class Spans (c : Codec α β) (k : outParam Nat) : Prop where
  isLocal : FieldRead.Local c.read
  length : ∀ {used : Bytes} {t : Trace} {b : β}, Reads c.read used t b → used.length = k

instance (b : β) : (pure b : Codec α β).Spans 0 where
  isLocal := FieldRead.Local.pure b
  length reads := by rw [(FieldRead.reads_of_pure reads).1]; rfl

instance {c : Codec α β} {f : β → Codec α γ} {j k : Nat} [h : c.Spans j] [h' : ∀ b, (f b).Spans k] :
    (c >>= f).Spans (j + k) where
  isLocal := h.isLocal.bind fun b => (h' b).isLocal
  length reads := by
    obtain ⟨b, u, v, _, _, rfl, first, second⟩ :=
      h.isLocal.reads_of_bind (fun b => (h' b).isLocal) reads
    rw [List.length_append, h.length first, (h' b).length second]

instance {c : Codec α β} {k : Nat} [h : c.Spans k] (part : γ → α) : (c.on part).Spans k :=
  ⟨h.isLocal, h.length⟩

/-- A number of fixed width is as wide as its kind. -/
theorem spans_field {segment : String} {k : Nat} {what : String} {g : Nat → α} {kind : Kind α}
    (hk : kind.read = g <$> RawRead.fixed k what) : (field segment kind).Spans k := by
  have isLocal : kind.read.Local := hk ▸ (RawRead.fixed_isLocal k what).map g
  refine ⟨FieldRead.Local.field segment isLocal, fun {used t a} reads => ?_⟩
  have value := FieldRead.reads_of_field isLocal reads
  rw [hk] at value
  exact RawRead.length_of_reads_fixed value

instance (segment : String) : (int16 segment).Spans 2 := spans_field rfl
instance (segment : String) : (int32 segment).Spans 4 := spans_field rfl
instance (segment : String) : (int64 segment).Spans 8 := spans_field rfl

end Codec
end BrokerExam
