/-
BrokerExam/Proofs/Batch/Corruption.lean

Logs that were damaged.  Where a batch ends is told by its own length, which stands
in front of what its checksum covers.  So damage to the covered part leaves the cut
of the log into segments as it was: whatever else the damaged bytes may look like,
the checksum of their batch is held against bytes that differ in the damaged ones
only, and a burst of four bytes never keeps a checksum.

Main results: `eq_of_flatten_eq`, that bytes are cut into segments in one way only,
and `burst_detected`.
-/
import BrokerExam.Proofs.Batch.Framing
import BrokerExam.Proofs.Bytes.Crc32c

namespace BrokerExam

/-! ### Segments that tell their own length -/

/-- The bytes are as many as the number in them says. -/
structure Counted (segment : Bytes) : Prop where
  long : 12 ≤ segment.length
  counts : (segment.length : Int) = 12 + (int32At segment 8).toInt

theorem int32At_append {bs : Bytes} {offset : Nat} (enough : offset + 4 ≤ bs.length)
    (more : Bytes) : int32At (bs ++ more) offset = int32At bs offset := by
  have inside : 4 ≤ (bs.drop offset).length := by
    rw [List.length_drop]
    omega
  rw [int32At, List.drop_append_of_le_length (by omega), List.take_append_of_le_length inside]
  rfl

theorem Counted.of_framed {segment : Bytes} {b : RecordBatch}
    (framed : RecordBatch.Framed segment b) : Counted segment where
  long := by
    have positive := framed.positive
    have length := framed.length
    omega
  counts := by rw [framed.length, framed.batchLength]

/-- Of two segments at one place neither is a part of the other. -/
theorem Counted.eq_of_append_eq {u v x y : Bytes} (hu : Counted u) (hv : Counted v)
    (same : u ++ x = v ++ y) : u = v ∧ x = y := by
  have number : int32At u 8 = int32At v 8 := by
    rw [← int32At_append hu.long x, same, int32At_append hv.long y]
  have length : u.length = v.length := by
    have left := hu.counts
    have right := hv.counts
    rw [number] at left
    omega
  exact List.append_inj same length

theorem Counted.ne_nil {u : Bytes} (hu : Counted u) : u ≠ [] := by
  rintro rfl
  exact absurd hu.long (by decide)

/-- Bytes are cut into segments in one way only. -/
theorem eq_of_flatten_eq {us vs : List Bytes} (hu : ∀ u ∈ us, Counted u)
    (hv : ∀ v ∈ vs, Counted v) (same : us.flatten = vs.flatten) : us = vs := by
  induction us generalizing vs with
  | nil =>
    cases vs with
    | nil => rfl
    | cons v vs =>
      exact absurd (List.append_eq_nil_iff.1 same.symm).1 (hv v List.mem_cons_self).ne_nil
  | cons u us ih =>
    cases vs with
    | nil => exact absurd (List.append_eq_nil_iff.1 same).1 (hu u List.mem_cons_self).ne_nil
    | cons v vs =>
      rw [List.flatten_cons, List.flatten_cons] at same
      obtain ⟨rfl, rest⟩ :=
        (hu u List.mem_cons_self).eq_of_append_eq (hv v List.mem_cons_self) same
      rw [ih (fun w hw => hu w (List.mem_cons_of_mem u hw))
        (fun w hw => hv w (List.mem_cons_of_mem u hw)) rest]

/-! ### Segments of a log -/

/-- A log that is read is cut into framed segments. -/
theorem segments_of_decodeLog {log : Bytes} {bs : List RecordBatch}
    (decoded : decodeLog log = .ok bs) :
    ∃ segments : List Bytes, log = segments.flatten ∧
      ∀ s ∈ segments, ∃ b, RecordBatch.Framed s b := by
  obtain ⟨ps, rfl, -, each⟩ := decodeLog_eq_ok_iff.1 decoded
  refine ⟨ps.map Piece.bytes, List.flatMap_def .., fun s hs => ?_⟩
  obtain ⟨p, hp, rfl⟩ := List.mem_map.1 hs
  exact ⟨p.value, RecordBatch.framed_of_reads (each p hp)⟩

theorem RecordBatch.framed_bytes {b : RecordBatch} (fits : b.Fits) :
    Framed b.bytes b.normalized := framed_of_reads (readsBack fits)

/-- A segment that is found in a log is one of its framed segments, if what is in front of it and
behind it is made of segments too. -/
theorem framed_of_decodeLog {before behind : List RecordBatch} {segment : Bytes}
    {bs : List RecordBatch} (fitsBefore : ∀ b ∈ before, b.Fits) (fitsBehind : ∀ b ∈ behind, b.Fits)
    (counted : Counted segment)
    (decoded : decodeLog (encodeLog before ++ (segment ++ encodeLog behind)) = .ok bs) :
    ∃ b, RecordBatch.Framed segment b := by
  obtain ⟨segments, cut, framed⟩ := segments_of_decodeLog decoded
  have counts (cs : List RecordBatch) (fits : ∀ b ∈ cs, b.Fits) :
      ∀ s ∈ cs.map RecordBatch.bytes, Counted s := by
    intro s hs
    obtain ⟨b, hb, rfl⟩ := List.mem_map.1 hs
    exact .of_framed (RecordBatch.framed_bytes (fits b hb))
  have same : (before.map RecordBatch.bytes ++ segment :: behind.map RecordBatch.bytes).flatten =
      segments.flatten := by
    rw [← cut, List.flatten_append, List.flatten_cons, ← List.flatMap_def, ← List.flatMap_def]
    rfl
  have each : ∀ s ∈ before.map RecordBatch.bytes ++ segment :: behind.map RecordBatch.bytes,
      Counted s := by
    intro s hs
    rcases List.mem_append.1 hs with hs | hs
    · exact counts before fitsBefore s hs
    · rcases List.mem_cons.1 hs with rfl | hs
      · exact counted
      · exact counts behind fitsBehind s hs
  have there := eq_of_flatten_eq each
    (fun s hs => (framed s hs).elim fun _ framed => Counted.of_framed framed) same
  apply framed
  rw [← there]
  exact List.mem_append_right _ List.mem_cons_self

/-! ### Bursts -/

/-- The bytes differ in a row of at most four, which lies between the offsets. -/
def Burst (start stop : Nat) (original altered : Bytes) : Prop :=
  ∃ front u v back : Bytes, original = front ++ (u ++ back) ∧ altered = front ++ (v ++ back) ∧
    u.length = v.length ∧ u.length ≤ 4 ∧ u ≠ v ∧
    start ≤ front.length ∧ front.length + u.length ≤ stop

/-- A burst between the ends of a part is a burst of that part. -/
theorem Burst.of_part {before part behind altered : Bytes} {skipped : Nat}
    (burst : Burst (before.length + skipped) (before.length + part.length)
      (before ++ (part ++ behind)) altered) :
    ∃ part', Burst skipped part.length part part' ∧ altered = before ++ (part' ++ behind) := by
  obtain ⟨front, u, v, back, split, rfl, length, short, differs, lower, upper⟩ := burst
  have leads : front <+: before ++ (part ++ behind) := ⟨u ++ back, split.symm⟩
  obtain ⟨f, rfl⟩ : before <+: front :=
    List.prefix_of_prefix_length_le (List.prefix_append ..) leads (Nat.le_of_add_right_le lower)
  rw [List.length_append] at lower upper
  rw [List.append_assoc] at split
  have split := List.append_cancel_left split
  have leads : f ++ u <+: part ++ behind := ⟨back, by rw [split, List.append_assoc]⟩
  have fewer : (f ++ u).length ≤ part.length := by
    rw [List.length_append]
    omega
  obtain ⟨back', rfl⟩ : f ++ u <+: part :=
    List.prefix_of_prefix_length_le leads (List.prefix_append ..) fewer
  have rest : back' ++ behind = back := by
    rw [List.append_assoc, List.append_assoc] at split
    exact List.append_cancel_left (List.append_cancel_left split)
  refine ⟨f ++ (v ++ back'), ⟨f, u, v, back', ?_, rfl, length, short, differs, ?_, ?_⟩, ?_⟩
  · rw [List.append_assoc]
  · omega
  · simp only [List.length_append]
    omega
  · simp only [← rest, List.append_assoc]

/-- A burst in what the checksum covers leaves a segment as long as it says. -/
theorem Counted.of_burst {segment altered : Bytes} {stop : Nat} (counted : Counted segment)
    (burst : Burst 21 stop segment altered) : Counted altered := by
  obtain ⟨front, u, v, back, rfl, rfl, length, -, -, lower, -⟩ := burst
  have early : 8 + 4 ≤ front.length := Nat.le_trans (by decide) lower
  have long := counted.long
  have counts := counted.counts
  rw [int32At_append early] at counts
  simp only [List.length_append, length] at long counts
  constructor
  · simpa only [List.length_append] using long
  · rw [int32At_append early, List.length_append, List.length_append]
    exact counts

theorem encode_uint32_inj {v w : UInt32}
    (same : BigEndian.encode 4 v.toNat = BigEndian.encode 4 w.toNat) : v = w := by
  have number := congrArg BigEndian.decode same
  rw [BigEndian.decode_encode, BigEndian.decode_encode, show BigEndian.span 4 = 2 ^ 32 from rfl,
    Nat.mod_eq_of_lt v.toNat_lt, Nat.mod_eq_of_lt w.toNat_lt] at number
  exact UInt32.toNat_inj.1 number

/-- No burst in what the checksum covers leaves the checksum right. -/
theorem RecordBatch.Framed.not_of_burst {segment altered : Bytes} {stop : Nat} {b c : RecordBatch}
    (framed : Framed segment b) (burst : Burst 21 stop segment altered) : ¬ Framed altered c := by
  intro again
  obtain ⟨front, u, v, back, rfl, rfl, length, short, differs, lower, -⟩ := burst
  -- the checksums stand in front of the burst
  have field (w : Bytes) : ((front ++ (w ++ back)).drop 17).take 4 = (front.drop 17).take 4 := by
    rw [List.drop_append_of_le_length (by omega), List.take_append_of_le_length]
    rw [List.length_drop]
    omega
  have covered (w : Bytes) :
      (front ++ (w ++ back)).drop 21 = front.drop 21 ++ (w ++ back) :=
    List.drop_append_of_le_length lower
  have left := framed.crc
  have right := again.crc
  rw [field, covered] at left right
  exact differs (eq_of_crc32c_eq length short (encode_uint32_inj (left.symm.trans right)))

/-- A log is what stands in front of a batch, the batch, and what stands behind it. -/
theorem encodeLog_split {bs : List RecordBatch} {i : Nat} (inside : i < bs.length) :
    encodeLog bs =
      encodeLog (bs.take i) ++ (bs[i].bytes ++ encodeLog (bs.drop (i + 1))) := by
  have whole : bs = bs.take i ++ bs[i] :: bs.drop (i + 1) := by
    rw [← List.drop_eq_getElem_cons, List.take_append_drop]
  calc encodeLog bs
    _ = encodeLog (bs.take i ++ bs[i] :: bs.drop (i + 1)) := congrArg encodeLog whole
    _ = _ := by rw [encodeLog, List.flatMap_append, List.flatMap_cons]; rfl

theorem length_encodeLog_take_succ {bs : List RecordBatch} {i : Nat} (inside : i < bs.length) :
    (encodeLog (bs.take (i + 1))).length =
      (encodeLog (bs.take i)).length + bs[i].bytes.length := by
  rw [← List.take_append_getElem inside, encodeLog, List.flatMap_append, List.length_append,
    List.flatMap_singleton]
  rfl

/-- **Damage is detected**: if any batch of a log has at most four bytes in a row changed among
those that its checksum covers, from byte 21 of the batch to its end, then the log is refused. -/
theorem burst_detected {bs : List RecordBatch} (fits : ∀ b ∈ bs, b.Fits) {i : Nat}
    {b : RecordBatch} (hb : bs[i]? = some b) {altered : Bytes}
    (burst : Burst ((encodeLog (bs.take i)).length + 21) (encodeLog (bs.take (i + 1))).length
      (encodeLog bs) altered) : ∃ e, decodeLog altered = .error e := by
  obtain ⟨inside, rfl⟩ := List.getElem?_eq_some_iff.1 hb
  rw [length_encodeLog_take_succ inside, encodeLog_split inside] at burst
  obtain ⟨segment, damage, rfl⟩ := burst.of_part
  have framed := RecordBatch.framed_bytes (fits bs[i] (List.getElem_mem inside))
  cases decoded : decodeLog _ with
  | error e => exact ⟨e, rfl⟩
  | ok cs =>
    -- it would have been read as a batch where it stands
    obtain ⟨c, again⟩ := framed_of_decodeLog (fun b hb => fits b (List.mem_of_mem_take hb))
      (fun b hb => fits b (List.mem_of_mem_drop hb)) ((Counted.of_framed framed).of_burst damage)
      decoded
    exact absurd again (framed.not_of_burst damage)

/-- A third record that is announced where there are two is found out. -/
theorem burst_detected_stale :
    ∃ e, decodeLog ((encodeLog [staleBatch, {}]).set 60 3) = .error e := by
  have fits : ∀ b ∈ [staleBatch, {}], b.Fits := by decide +kernel
  have burst : Burst (0 + 21) (encodeLog [staleBatch]).length (encodeLog [staleBatch, {}])
      ((encodeLog [staleBatch, {}]).set 60 3) :=
    ⟨(encodeLog [staleBatch, {}]).take 60, [2], [3], (encodeLog [staleBatch, {}]).drop 61,
      by decide +kernel, by decide +kernel, rfl, by decide, by decide, by decide +kernel,
      by decide +kernel⟩
  exact burst_detected fits (i := 0) rfl burst

end BrokerExam
