/-
BrokerExam/Proofs/Batch/Concatenation.lean

Logs one behind the other.  Nothing holds the reader within the first log, but the
batches in it are found without a look at what follows them; so the second log is
read as it is read alone, only further on and with higher indices.  That is as true
of a log that is refused: it is batches that can be read, and then bytes at which
the reader fails (`Breaks`), and both stay what they are behind other batches.

Main results: `decodeLog_eq_error_iff`, which says of any bytes when they are
refused as a log, and why; and `decodeLog_append`.
-/
import BrokerExam.Proofs.Batch.Stream
import BrokerExam.Proofs.Field.Apart
import BrokerExam.Proofs.Wire.Inside
import BrokerExam.Proofs.Wire.Relocation

namespace BrokerExam

variable {α : Type}

/-! ### Where reading breaks off -/

/-- The bytes are those of the pieces, and then some at which the next element fails. -/
structure Breaks (element : FieldRead α) (bytes : Bytes) (ps : List (Piece α)) (e : DecodeError) :
    Prop where
  each : ∀ p ∈ ps, p.ReadBy element
  behind : ∃ rest s, bytes = ps.flatMap Piece.bytes ++ rest ∧ rest ≠ [] ∧
    element (ReadState.start rest ()) = .error e s

namespace Breaks

variable {element : FieldRead α} {bytes : Bytes} {ps : List (Piece α)} {e : DecodeError}

/-- Other pieces in front change nothing. -/
theorem append (h : Breaks element bytes ps e) {qs : List (Piece α)}
    (before : ∀ q ∈ qs, q.ReadBy element) :
    Breaks element (qs.flatMap Piece.bytes ++ bytes) (qs ++ ps) e where
  each := fun p hp => (List.mem_append.1 hp).elim (before p) (h.each p)
  behind := by
    obtain ⟨rest, s, rfl, some, run⟩ := h.behind
    refine ⟨rest, s, ?_, some, run⟩
    rw [List.flatMap_append, List.append_assoc]

theorem ne_nil (h : Breaks element bytes ps e) : bytes ≠ [] := by
  obtain ⟨rest, s, rfl, some, -⟩ := h.behind
  exact List.append_ne_nil_of_right_ne_nil _ some

/-- What is behind the first piece breaks off too. -/
theorem tail {p : Piece α} (h : Breaks element bytes (p :: ps) e) :
    ∃ others, bytes = p.bytes ++ others ∧ Breaks element others ps e := by
  obtain ⟨rest, s, rfl, some, run⟩ := h.behind
  refine ⟨ps.flatMap Piece.bytes ++ rest, ?_, ?_⟩
  · rw [List.flatMap_cons, List.append_assoc]
  · exact ⟨fun q hq => h.each q (List.mem_cons_of_mem p hq), rest, s, rfl, some, run⟩

/-- Where the element fails that comes behind the pieces, counted from index `i`. -/
def place (name : String) (i : Nat) (ps : List (Piece α)) (s : ReadState Unit) : Place where
  above := s.path.child (indexed name (i + ps.length))
  before := s.cursor.offset + (ps.flatMap Piece.bytes).length
  recorded := #[]

end Breaks

section Failing

variable {element : FieldRead α} {name : String} {e : DecodeError}

/-- A reader fails at a place if it fails from the start. -/
theorem error_iff_start (moves : ∀ p : Place, Moves p id element element) {s : ReadState Unit} :
    (∃ s', element s = .error e s') ↔ ∃ e₀ s₀,
      element (ReadState.start s.cursor.ahead ()) = .error e₀ s₀ ∧ e = (Place.of s).error e₀ := by
  have mirrored := moves (Place.of s)
  have here := Place.state_start s
  constructor
  · rintro ⟨s', run⟩
    cases start : element (ReadState.start s.cursor.ahead ()) with
    | ok a s₀ =>
      have again := mirrored.ok start
      rw [here, run] at again
      cases again
    | error e₀ s₀ =>
      have again := mirrored.error start
      rw [here, run] at again
      exact ⟨e₀, s₀, rfl, (EStateM.Result.error.inj again).1⟩
  · rintro ⟨e₀, s₀, run, rfl⟩
    have again := mirrored.error run
    rw [here] at again
    exact ⟨_, again⟩

theorem scope_error_iff {r : FieldRead α} {s : ReadState Unit} {segment : String} :
    (∃ s', FieldRead.scope segment r s = .error e s') ↔
      ∃ s', r { s with path := s.path.child segment } = .error e s' := by
  constructor
  · rintro ⟨s', run⟩
    obtain ⟨s₁, body, -⟩ := FieldRead.error_of_scope run
    exact ⟨s₁, body⟩
  · rintro ⟨s', body⟩
    exact ⟨_, FieldRead.scope_of_error body⟩

theorem scope_error_iff_start (moves : ∀ p : Place, Moves p id element element)
    {s : ReadState Unit} {segment : String} :
    (∃ s', FieldRead.scope segment element s = .error e s') ↔ ∃ e₀ s₀,
      element (ReadState.start s.cursor.ahead ()) = .error e₀ s₀ ∧
      e = Place.error ⟨s.path.child segment, s.cursor.offset, #[]⟩ e₀ :=
  scope_error_iff.trans (error_iff_start moves)

/-- Reading to the end fails where it breaks off. -/
theorem breaks_of_untilEnd (isLocal : FieldRead.Local element) (eats : FieldRead.Eats element)
    (moves : ∀ p : Place, Moves p id element element) {fuel i : Nat} {s s' : ReadState Unit}
    (run : FieldRead.untilEnd name element fuel i s = .error e s') :
    ∃ ps e₀, Breaks element s.cursor.ahead ps e₀ ∧ e = (Breaks.place name i ps s).error e₀ := by
  induction fuel generalizing i s s' with
  | zero => cases run
  | succ fuel ih =>
    by_cases ahead : s.cursor.ahead = []
    · rw [untilEnd_stop ahead] at run
      cases run
    · rw [untilEnd_step ahead] at run
      rcases error_of_bind run with first | ⟨a, s₁, first, others⟩
      · -- there is no piece at all
        obtain ⟨e₀, s₀, failed, rfl⟩ := (scope_error_iff_start moves).1 ⟨s', first⟩
        refine ⟨[], e₀, ⟨fun p hp => absurd hp List.not_mem_nil, _, s₀, rfl, ahead, failed⟩, rfl⟩
      · rw [bind_pure_comp] at others
        obtain ⟨ps, e₀, breaks, rfl⟩ := ih (error_of_map others)
        obtain ⟨p, -, split, piece, -⟩ := FieldRead.piece_of_scope isLocal eats first
        obtain ⟨⟨⟨skipped, skips, offset⟩, -⟩, path⟩ := (isLocal.scope _).onward s a s₁ first
        have width : skipped.length = p.bytes.length :=
          congrArg List.length (List.append_cancel_right (skips.symm.trans split))
        refine ⟨p :: ps, e₀, ?_, ?_⟩
        · have whole : Breaks element ([p].flatMap Piece.bytes ++ s₁.cursor.ahead) ([p] ++ ps) e₀ :=
            breaks.append fun q hq => List.mem_singleton.1 hq ▸ piece
          rwa [List.flatMap_singleton, ← split] at whole
        · simp only [Breaks.place, path, offset, width, List.length_cons, List.flatMap_cons,
            List.length_append, Nat.add_assoc, Nat.add_comm 1]

/-- Where reading breaks off it fails. -/
theorem untilEnd_of_breaks (moves : ∀ p : Place, Moves p id element element) {fuel i : Nat}
    {s : ReadState Unit} {ps : List (Piece α)} {e₀ : DecodeError}
    (some : ∀ p ∈ ps, 0 < p.bytes.length) (enough : s.cursor.ahead.length ≤ fuel)
    (breaks : Breaks element s.cursor.ahead ps e₀) :
    ∃ s', FieldRead.untilEnd name element fuel i s =
      .error ((Breaks.place name i ps s).error e₀) s' := by
  induction ps generalizing fuel i s with
  | nil =>
    obtain ⟨rest, s₀, ahead, -, failed⟩ := breaks.behind
    obtain rfl : s.cursor.ahead = rest := ahead
    obtain ⟨fuel, rfl⟩ : ∃ k, fuel = k + 1 := Nat.exists_eq_succ_of_ne_zero
      (Nat.ne_of_gt (Nat.lt_of_lt_of_le (List.length_pos_iff.2 breaks.ne_nil) enough))
    have first : ∃ s', FieldRead.scope (indexed name i) element s = .error _ s' :=
      (scope_error_iff_start moves).2 ⟨e₀, s₀, failed, rfl⟩
    obtain ⟨s', first⟩ := first
    rw [untilEnd_step breaks.ne_nil, bind_of_error first]
    exact ⟨s', rfl⟩
  | cons p ps ih =>
    obtain ⟨others, ahead, behind⟩ := breaks.tail
    have long := some p List.mem_cons_self
    rw [ahead, List.length_append] at enough
    obtain ⟨fuel, rfl⟩ : ∃ k, fuel = k + 1 := Nat.exists_eq_succ_of_ne_zero (by omega)
    have first := ((breaks.each p List.mem_cons_self) others).scope (indexed name i)
    have fewer : others.length ≤ fuel := by omega
    obtain ⟨s', run⟩ := ih (i := i + 1) (s := s.past (p.trace.scope (indexed name i)) others)
      (fun q hq => some q (List.mem_cons_of_mem p hq)) fewer behind
    rw [untilEnd_step breaks.ne_nil, bind_of_ok (first.run s ahead), bind_of_error run]
    refine ⟨s', ?_⟩
    simp only [Breaks.place, ReadState.past_offset, first.width, List.length_cons,
      List.flatMap_cons, List.length_append, Nat.add_assoc, Nat.add_comm 1]
    rfl

end Failing

/-! ### Logs that are refused -/

/-- Where the batch fails that comes behind the pieces of a log. -/
def logPlace (ps : List (Piece RecordBatch)) : Place where
  above := ⟨["RecordBatches", indexed "RecordBatches" ps.length]⟩
  before := (ps.flatMap Piece.bytes).length
  recorded := #[]

/-- **What is not a log**: bytes are refused exactly if they are cut into pieces which read as
batches, and others at which the reading of a batch fails; the error is told of the next batch. -/
theorem decodeLog_eq_error_iff {log : Bytes} {e : DecodeError} :
    decodeLog log = .error e ↔
      ∃ ps e₀, Breaks RecordBatch.read log ps e₀ ∧ e = (logPlace ps).error e₀ := by
  have inside : decodeLog log = .error e ↔ ∃ s', FieldRead.untilEnd "RecordBatches"
      RecordBatch.read log.length 0
      { ReadState.start log () with path := FieldPath.root.child "RecordBatches" } =
        .error e s' := by
    refine Iff.trans ?_ scope_error_iff
    rw [decodeLog, readLog]
    constructor
    · intro refused
      split at refused
      · cases refused
      · next e' s' run =>
        obtain rfl := Except.error.inj refused
        exact ⟨s', run⟩
    · rintro ⟨s', run⟩
      have run : FieldRead.scope "RecordBatches"
          (FieldRead.all "RecordBatches" RecordBatch.read) (ReadState.start log ()) =
            .error e s' := run
      rw [run]
  have place (ps : List (Piece RecordBatch)) : Breaks.place "RecordBatches" 0 ps
      { ReadState.start log () with path := FieldPath.root.child "RecordBatches" } =
        logPlace ps := by
    simp only [Breaks.place, logPlace, ReadState.start, Cursor.start, FieldPath.root,
      FieldPath.child, List.nil_append, List.cons_append, Nat.zero_add]
  rw [inside]
  constructor
  · rintro ⟨s', run⟩
    obtain ⟨ps, e₀, breaks, rfl⟩ :=
      breaks_of_untilEnd RecordBatch.read_isLocal RecordBatch.read_eats RecordBatch.moves_read run
    exact ⟨ps, e₀, breaks, by rw [place]⟩
  · rintro ⟨ps, e₀, breaks, rfl⟩
    rw [← place]
    exact untilEnd_of_breaks RecordBatch.moves_read
      (fun p hp => length_pos_of_readBy (breaks.each p hp)) (Nat.le_refl _) breaks

/-! ### Two logs -/

/-- **Logs read compositionally**: what stands behind a log is read as it is alone, and what is in
the log as if nothing were there.  If the other bytes are no log, the error is the same but for its
place: it is further on by the bytes of the log, and its index by their batches.  In particular,
batches that are written behind a log leave those in front of them as they are read. -/
theorem decodeLog_append {log : Bytes} {bs : List RecordBatch} (decoded : decodeLog log = .ok bs) :
    (∀ other cs, decodeLog other = .ok cs → decodeLog (log ++ other) = .ok (bs ++ cs)) ∧
    (∀ other e, decodeLog other = .error e → ∃ i below,
      e.path.segments = "RecordBatches" :: indexed "RecordBatches" i :: below ∧
      decodeLog (log ++ other) = .error {
        path := ⟨"RecordBatches" :: indexed "RecordBatches" (bs.length + i) :: below⟩
        start := log.length + e.start
        stop := log.length + e.stop
        cause := e.cause }) ∧
    ∀ cs : List RecordBatch, (∀ c ∈ cs, c.Fits) →
      decodeLog (log ++ encodeLog cs) = .ok (bs ++ cs.map RecordBatch.normalized) := by
  obtain ⟨ps, rfl, rfl, each⟩ := decodeLog_eq_ok_iff.1 decoded
  have read (other : Bytes) (cs : List RecordBatch) (behind : decodeLog other = .ok cs) :
      decodeLog (ps.flatMap Piece.bytes ++ other) = .ok (ps.map Piece.value ++ cs) := by
    obtain ⟨qs, rfl, rfl, each'⟩ := decodeLog_eq_ok_iff.1 behind
    refine decodeLog_eq_ok_iff.2 ⟨ps ++ qs, ?_, ?_, ?_⟩
    · rw [List.flatMap_append]
    · rw [List.map_append]
    · exact fun p hp => (List.mem_append.1 hp).elim (each p) (each' p)
  refine ⟨read, ?_, fun cs fits => read _ _ (decodeLog_encodeLog fits)⟩
  intro other e refused
  obtain ⟨qs, e₀, breaks, rfl⟩ := decodeLog_eq_error_iff.1 refused
  refine ⟨qs.length, e₀.path.segments, rfl, ?_⟩
  refine decodeLog_eq_error_iff.2 ⟨ps ++ qs, e₀, breaks.append each, ?_⟩
  simp only [Place.error, Place.path, logPlace, List.length_append, List.length_map,
    List.flatMap_append, List.cons_append, List.nil_append, Nat.add_assoc]

/-- Behind a batch, another one is read, and a single byte is refused as the second batch. -/
theorem decodeLog_append_stale :
    decodeLog (encodeLog [staleBatch]) = .ok [staleBatch.normalized] ∧
    decodeLog (encodeLog [staleBatch] ++ encodeLog [{}]) =
      .ok [staleBatch.normalized, ({} : RecordBatch).normalized] ∧
    decodeLog (encodeLog [staleBatch] ++ [0]) = .error {
      path := ⟨["RecordBatches", indexed "RecordBatches" 1, "BaseOffset"]⟩
      start := 83
      stop := 84
      cause := .truncated "int64" 8 1 } := by
  have decoded : decodeLog (encodeLog [staleBatch]) = .ok [staleBatch.normalized] :=
    decodeLog_encodeLog (by decide +kernel)
  have refused : decodeLog [0] = .error {
      path := ⟨["RecordBatches", indexed "RecordBatches" 0, "BaseOffset"]⟩
      start := 0
      stop := 1
      cause := .truncated "int64" 8 1 } := rfl
  have length : (encodeLog [staleBatch]).length = 83 := by decide +kernel
  obtain ⟨-, failing, writing⟩ := decodeLog_append decoded
  refine ⟨decoded, writing [{}] (by decide +kernel), ?_⟩
  obtain ⟨i, below, path, whole⟩ := failing [0] _ refused
  obtain ⟨index, rfl⟩ := List.cons.inj (List.cons.inj path).2
  obtain rfl : 0 = i := indexed_inj index
  rw [whole, length]
  rfl

end BrokerExam
