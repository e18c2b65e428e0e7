/-
BrokerExam/Proofs/Wire/Readable.lean

What can be read at all of what is written.  A codec that is lawful on some values
reads those back; of the others it may still read something.  It reads nothing of
them if it is exact (`Codec.ReadsOnly`): then what is written is accepted for the
values that it is lawful on, and for no others.

Main result: `Codec.ReadsOnly.compactArray`; with the rules before it, exactness
follows the way a codec is put together.
-/
import BrokerExam.Proofs.Wire.Pieces

namespace BrokerExam

variable {α β γ : Type}

/-! ### One way to read -/

theorem RawRead.Reads.unique {r : RawRead α} {u u' left left' : Bytes} {a a' : α}
    (h : r.Reads u a) (h' : r.Reads u' a') (same : u ++ left = u' ++ left') :
    u = u' ∧ left = left' ∧ a = a' := by
  obtain ⟨value, stop⟩ := h'.cursor_eq same (h 0 left)
  obtain rfl : left = left' := congrArg Cursor.ahead stop
  exact ⟨List.append_cancel_right same, rfl, value.symm⟩

/-- Bytes are read in one way. -/
theorem Reads.unique {r : FieldRead α} {u u' left left' : Bytes} {t t' : Trace} {a a' : α}
    (h : Reads r u t a) (h' : Reads r u' t' a') (same : u ++ left = u' ++ left') :
    u = u' ∧ left = left' ∧ a = a' := by
  have run := (h left).run (ReadState.start (u ++ left) ()) rfl
  obtain ⟨value, stop⟩ := (h' left').eq_past same run
  obtain rfl : left = left' := congrArg (fun s : ReadState Unit => s.cursor.ahead) stop
  exact ⟨List.append_cancel_right same, rfl, value.symm⟩

/-! ### What is read -/

namespace FieldRead

variable {P : β → Prop} {Q : α → Prop} {r : FieldRead α}

/-- Whatever is read has the property. -/
def Yields (r : FieldRead α) (P : α → Prop) : Prop := ∀ s a s', r s = .ok a s' → P a

theorem Yields.any (r : FieldRead α) : r.Yields fun _ => True := fun _ _ _ _ => trivial

theorem Yields.pure {b : β} (h : P b) : Yields (Pure.pure b) P := by
  intro s b' s' run
  obtain ⟨rfl, -⟩ := EStateM.Result.ok.inj run
  exact h

theorem Yields.bind {f : α → FieldRead β} (hr : r.Yields Q) (hf : ∀ a, Q a → (f a).Yields P) :
    (r >>= f).Yields P := by
  intro s b s' run
  obtain ⟨a, s₁, first, second⟩ := ok_of_bind run
  exact hf a (hr s a s₁ first) s₁ b s' second

theorem Yields.scope (h : r.Yields Q) (segment : String) : Yields (scope segment r) Q := by
  intro s a s' run
  obtain ⟨s₁, body, -⟩ := ok_of_scope run
  exact h _ a s₁ body

theorem Yields.repeated {element : Nat → FieldRead α} (h : ∀ i, (element i).Yields Q)
    (count i : Nat) : Yields (repeated element count i) fun as => ∀ a ∈ as, Q a := by
  induction count generalizing i with
  | zero => exact .pure fun a mem => absurd mem List.not_mem_nil
  | succ count ih =>
    exact .bind (h i) fun a first => .bind (ih (i + 1)) fun as others =>
      .pure (List.forall_mem_cons.2 ⟨first, others⟩)

theorem Yields.compactArray (h : r.Yields Q) (name : String) :
    Yields (compactArray name r) fun as => ∀ a ∈ as, Q a :=
  .scope (.bind (.any _) fun _ _ => .repeated (fun _ => h.scope _) _ 0) name

/-- **A compact array that was read** is a length and as many pieces as it counts. -/
theorem reads_of_compactArray {name : String} {used : Bytes} {t : Trace} {as : List α}
    (h : Local r) (reads : Reads (FieldRead.compactArray name r) used t as) :
    ∃ (n : UInt64) (length : Bytes) (ps : List (Piece α)), used = length ++ ps.flatMap Piece.bytes ∧
      Kind.compactArrayLength.read.Reads length n ∧ ps.length = n.toNat - 1 ∧
      as = ps.map Piece.value ∧ ∀ p ∈ ps, p.ReadBy r := by
  have length : Local (field "Length" Kind.compactArrayLength : FieldRead UInt64) :=
    Local.field "Length" Kind.Plain.compactArrayLength.isLocal
  have elements (n : UInt64) :=
    Local.repeated (fun i => h.scope (indexed name i)) (n.toNat - 1) 0
  obtain ⟨_, body⟩ := (length.bind elements).reads_of_scope reads
  obtain ⟨n, u, v, _, _, rfl, first, second⟩ := length.reads_of_bind elements body
  obtain ⟨ps, count, rfl, values, each⟩ := reads_of_repeated h second
  exact ⟨n, u, ps, rfl, reads_of_field Kind.Plain.compactArrayLength.isLocal first, count, values,
    each⟩

end FieldRead

/-! ### Exact codecs -/

namespace Codec

/-- Every value with `may` can be written, but something can be read of what is written only for
those with `ok`. -/
structure ReadsOnly (c : Codec α β) (may ok : α → Prop) : Prop where
  short : ∀ a, may a → (c.write a).2.Short
  isLocal : FieldRead.Local c.read
  ok_of_reads : ∀ {a : α} {b : β} {used left rest : Bytes} {t : Trace}, may a →
    (c.write a).2.bytes.length < 0x8000000000000000 →
    used ++ left = (c.write a).2.bytes ++ rest → Reads c.read used t b → ok a

namespace ReadsOnly

variable {c : Codec α β} {f : β → Codec α γ} {may ok : α → Prop}

theorem on {part : γ → α} (h : c.ReadsOnly may ok) :
    (c.on part).ReadsOnly (fun g => may (part g)) fun g => ok (part g) :=
  ⟨fun g hm => h.short (part g) hm, h.isLocal,
    fun hm small same reads => h.ok_of_reads hm small same reads⟩

/-- A codec that is lawful on all values is exact. -/
theorem of [lawful : c.Lawful] : c.ReadsOnly (fun _ => True) fun _ => True :=
  ⟨lawful.on_all.short, lawful.on_all.isLocal, fun _ _ _ _ => trivial⟩

theorem scope (segment : String) (h : c.ReadsOnly may ok) : (c.scope segment).ReadsOnly may ok where
  short a hm := (h.short a hm).scope segment
  isLocal := h.isLocal.scope segment
  ok_of_reads hm small same reads := by
    obtain ⟨_, body⟩ := h.isLocal.reads_of_scope reads
    simp only [Codec.scope, Encoding.bytes_scope] at small same
    exact h.ok_of_reads hm small same body

theorem bytes_bind (a : α) (rest : Bytes) : ((c >>= f).write a).2.bytes ++ rest =
    (c.write a).2.bytes ++ (((f (c.write a).1).write a).2.bytes ++ rest) := by
  show Encoding.bytes ((c.write a).2 ++ ((f (c.write a).1).write a).2) ++ rest = _
  rw [Encoding.bytes_append, List.append_assoc]

/-- What comes second does not matter if nothing is read of what comes first. -/
theorem first [behind : ∀ b, (f b).Lawful] (h : c.ReadsOnly may ok) :
    (c >>= f).ReadsOnly may ok where
  short a hm := (h.short a hm).append ((behind _).on_all.short a trivial)
  isLocal := h.isLocal.bind fun b => (behind b).on_all.isLocal
  ok_of_reads hm small same reads := by
    obtain ⟨_, u, v, _, _, rfl, reads, -⟩ :=
      h.isLocal.reads_of_bind (fun b => (behind b).on_all.isLocal) reads
    rw [length_bytes_bind] at small
    rw [bytes_bind, List.append_assoc] at same
    exact h.ok_of_reads hm (by omega) same reads

/-- What comes second is met behind a value that reads back. -/
theorem second [front : c.Lawful] (h : ∀ b, (f b).ReadsOnly may ok) :
    (c >>= f).ReadsOnly may ok where
  short a hm := (front.on_all.short a trivial).append ((h _).short a hm)
  isLocal := front.on_all.isLocal.bind fun b => (h b).isLocal
  ok_of_reads hm small same reads := by
    obtain ⟨_, u, v, _, _, rfl, readsFirst, readsSecond⟩ :=
      front.on_all.isLocal.reads_of_bind (fun b => (h b).isLocal) reads
    rw [length_bytes_bind] at small
    rw [bytes_bind, List.append_assoc] at same
    obtain ⟨-, same, rfl⟩ := readsFirst.unique (front.on_all.reads _ trivial (by omega)) same
    exact (h _).ok_of_reads hm (by omega) same readsSecond

/-- As many pieces as there are values, or all that there are, are read of what is written for the
values one after the other only if each of them has `ok`. -/
theorem of_pieces [c.Solid] (h : c.ReadsOnly may ok) (lawful : c.LawfulOn ok) {as : List α}
    {ps : List (Piece β)} {left rest : Bytes} (enough : as.length ≤ ps.length ∨ left = [])
    (hm : ∀ a ∈ as, may a) (small : ∀ a ∈ as, (c.write a).2.bytes.length < 0x8000000000000000)
    (same : ps.flatMap Piece.bytes ++ left = (as.flatMap fun a => (c.write a).2.bytes) ++ rest)
    (each : ∀ p ∈ ps, p.ReadBy c.read) : ∀ a ∈ as, ok a := by
  induction as generalizing ps with
  | nil => exact fun a mem => absurd mem List.not_mem_nil
  | cons a as ih =>
    rw [List.forall_mem_cons] at hm small
    rw [List.flatMap_cons, List.append_assoc] at same
    cases ps with
    | nil =>
      -- something is written for the value, so there is a piece of it
      rcases enough with enough | rfl
      · cases enough
      · have some := Solid.length_pos (c := c) a
        have none := congrArg List.length same
        simp only [List.flatMap_nil, List.length_append, List.length_nil] at none
        omega
    | cons p ps =>
      rw [List.forall_mem_cons] at each
      rw [List.flatMap_cons, List.append_assoc] at same
      have first : ok a := h.ok_of_reads hm.1 small.1 same each.1
      obtain ⟨-, same, -⟩ := Reads.unique each.1 (lawful.reads a first small.1) same
      have enough : as.length ≤ ps.length ∨ left = [] :=
        enough.imp_left Nat.le_of_succ_le_succ
      exact List.forall_mem_cons.2 ⟨first, ih enough hm.2 small.2 same each.2⟩

/-- **An array is exact** if its element is. -/
theorem compactArray [c.Solid] (name : String) (h : c.ReadsOnly may ok) (lawful : c.LawfulOn ok) :
    (compactArray name c).ReadsOnly (fun as => ∀ a ∈ as, may a) fun as => ∀ a ∈ as, ok a where
  short as hm := by
    simp only [Codec.compactArray, writeItems]
    refine Encoding.Short.compactArray (fun e he => ?_) name
    obtain ⟨a, ha, rfl⟩ := List.mem_map.1 he
    exact h.short a (hm a ha)
  isLocal := h.isLocal.compactArray name
  ok_of_reads {as bs used left rest t} hm small same reads := by
    obtain ⟨n, length, ps, rfl, number, count, -, each⟩ :=
      FieldRead.reads_of_compactArray h.isLocal reads
    have few : as.length < 0x8000000000000000 :=
      Nat.lt_of_le_of_lt (Nat.le_trans (length_le_items as name)
        (length_items_le_compactArray c as name)) small
    have smaller : ∀ a ∈ as, (c.write a).2.bytes.length < 0x8000000000000000 := fun a mem =>
      Nat.lt_of_le_of_lt (length_element_le mem name) small
    simp only [Codec.compactArray, writeItems_eq, Encoding.compactArray, Encoding.compactLength,
      Encoding.bytes_scope, Encoding.bytes_append, Encoding.bytes_leaf, Encoding.bytes_items,
      List.append_assoc, List.length_map, List.flatMap_map] at same
    obtain ⟨-, same, rfl⟩ := number.unique (RawRead.reads_unsignedVarint _) same
    rw [(RawRead.compactLength_counts few).2] at count
    exact of_pieces h lawful (.inl (Nat.le_of_eq count.symm)) hm smaller same each

end ReadsOnly
end Codec
end BrokerExam
