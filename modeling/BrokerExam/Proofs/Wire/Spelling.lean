/-
BrokerExam/Proofs/Wire/Spelling.lean

Bytes as anyone may write them.  A number of variable length can be written
longer than it needs to be, so that one value has several spellings; a reader
takes each of them.  Arrays are read from any spelling of their length and of
their elements.

Main results: `reads_compactString_iff` and `Reads.compactArray`.
-/
import BrokerExam.Proofs.Wire.Arrays

namespace BrokerExam

variable {ν α : Type}

/-- Bytes that are read as the value. -/
def Kind.Spelling (kind : Kind α) (a : α) : Type := { used : Bytes // kind.read.Reads used a }

/-! ### Numbers and texts -/

open RawRead in
/-- The number in the fewest groups. -/
def Kind.Spelling.shortest (n : UInt64) : Kind.unsignedVarint.Spelling n :=
  ⟨Varint.encode n, reads_unsignedVarint n⟩

/-- A number that begins with a byte below 128 is that byte. -/
theorem Kind.Spelling.of_small {n : UInt64} (s : Kind.unsignedVarint.Spelling n) {b : UInt8}
    {rest bs : Bytes} (small : b < 128) (h : s.1 ++ rest = b :: bs) :
    n = UInt64.ofNat b.toNat ∧ rest = bs := by
  have run : RawRead.unsignedVarint ⟨0, s.1 ++ rest⟩ = .ok n ⟨0 + s.1.length, rest⟩ := s.2 0 rest
  have one : RawRead.unsignedVarint ⟨0, b :: bs⟩ = .ok (UInt64.ofNat b.toNat) ⟨1, bs⟩ := by
    simp [RawRead.unsignedVarint, Varint.decode, Varint.maxBytes, Varint.ungroup, small,
      Cursor.advance]
  rw [h, one] at run
  obtain ⟨number, there⟩ := EStateM.Result.ok.inj run
  exact ⟨number.symm, (congrArg Cursor.ahead there).symm⟩

open RawRead in
/-- A text is read from a length, however it is spelled, and the bytes that it counts. -/
theorem RawRead.reads_compactString_iff {u : Bytes} {s : String} : compactString.Reads u s ↔
    ∃ (n : UInt64) (length : Kind.unsignedVarint.Spelling n) (contents : Bytes),
      u = length.1 ++ contents ∧ n.toNat = contents.length + 1 ∧
        Utf8.decodeLossy contents = s := by
  constructor
  · intro h
    have behindLength (n : UInt64) : Local (if n = 0
        then throw (.invalidLength .emptyCompactString) else contents (n.toNat - 1)) := by
      split
      · exact .throw _
      · exact contents_isLocal _
    obtain ⟨n, length, bs, rfl, number, text⟩ := unsignedVarint_isLocal.reads_of_bind behindLength h
    split at text
    · cases text 0 []
    · next nonzero =>
      obtain ⟨bs, taken, rfl⟩ := (take_isLocal _ _).reads_of_map text
      obtain ⟨counts, rfl⟩ := eq_of_reads_take taken
      have positive : n.toNat ≠ 0 := fun zero => nonzero (UInt64.toNat_inj.1 zero)
      exact ⟨n, ⟨length, number⟩, _, rfl, by omega, rfl⟩
  · rintro ⟨n, length, bs, rfl, counts, rfl⟩
    refine Reads.bind length.2 ?_
    have nonzero : n ≠ 0 := by
      rintro rfl
      exact Nat.succ_ne_zero _ counts.symm
    rw [if_neg nonzero, counts, Nat.add_sub_cancel]
    exact (reads_take bs "string").map Utf8.decodeLossy

/-! ### Tag buffers and arrays -/

namespace Reads

theorem tagBuffer : Reads (FieldRead.tagBuffer : NotingRead ν Unit) [0]
    Encoding.emptyTagBuffer.trace () :=
  ReadsBack.tagBuffer

variable (name : String) {element : NotingRead ν α} {ps : List (Piece α)}

theorem repeated (h : ∀ p ∈ ps, p.ReadBy element) (i : Nat) :
    Reads (FieldRead.repeated (fun i => FieldRead.scope (indexed name i) element) ps.length i)
      (ps.flatMap Piece.bytes) (Trace.itemsFrom name i (ps.map Piece.trace))
      (ps.map Piece.value) := by
  induction ps generalizing i with
  | nil => exact fun _ => ReadsBefore.pure []
  | cons p ps ih =>
    intro rest
    have first := (h p List.mem_cons_self (ps.flatMap Piece.bytes ++ rest)).scope (indexed name i)
    have others := ih (fun q hq => h q (List.mem_cons_of_mem p hq)) (i + 1) rest
    exact first.bind (others.bind_pure (p.value :: ·))

/-- **Compact arrays** are read from any spelling of their length and their elements. -/
theorem compactArray (h : ∀ p ∈ ps, p.ReadBy element) {n : UInt64}
    (counts : n.toNat - 1 = ps.length) {length : Bytes}
    (hl : Kind.compactArrayLength.read.Reads length n) :
    Reads (FieldRead.compactArray name element) (length ++ ps.flatMap Piece.bytes)
      (Trace.scope name (⟨["Length"], .compactArrayLength n, length.length⟩ ::
        Trace.itemsFrom name 0 (ps.map Piece.trace))) (ps.map Piece.value) := by
  intro rest
  refine ReadsBefore.scope name ((ReadsBefore.field "Length" hl).bind ?_)
  rw [counts]
  exact repeated name h 0 rest

/-- An array of one element has the length two. -/
theorem compactArray_singleton {used : Bytes} {t : Trace} {a : α} (h : Reads element used t a)
    {length : Bytes} (hl : Kind.compactArrayLength.read.Reads length 2) :
    Reads (FieldRead.compactArray name element) (length ++ used)
      (Trace.scope name
        (⟨["Length"], .compactArrayLength 2, length.length⟩ :: t.scope (indexed name 0))) [a] := by
  have single : ∀ p ∈ [(⟨used, t, a⟩ : Piece α)], p.ReadBy element := List.forall_mem_singleton.2 h
  have whole := compactArray name single rfl hl
  simp only [List.flatMap_cons, List.flatMap_nil, List.map_cons, List.map_nil, Trace.itemsFrom,
    List.append_nil] at whole
  exact whole

end Reads
end BrokerExam
