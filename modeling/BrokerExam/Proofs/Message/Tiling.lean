/-
BrokerExam/Proofs/Message/Tiling.lean

Where reading a response has come to, however it ends.  The fields recorded by
then tile the payload from its start on.  If reading failed, the error is of one
of three kinds, each with its place:

* a read failed: the error begins where the fields end (`IsFailedRead`);
* a field turned out wrong later on: the error has its place (`IsBlamed`);
* there were bytes left: the error covers them (`IsTrailing`).

Main results: `Response.ok_of_read` and `Response.error_of_read`, which say the
same of the trace that was met, and `responses_readSoundly`.
-/
import BrokerExam.Proofs.Message.Layout

namespace BrokerExam

/-! ### Fields end to end -/

/-- The fields lie end to end from `start` to `stop`. -/
def Tiles : (start : Nat) → List Field → (stop : Nat) → Prop
  | start, [], stop => start = stop
  | start, f :: fs, stop => f.start = start ∧ f.start ≤ f.stop ∧ Tiles f.stop fs stop

/-- Where the last of the fields ends. -/
def reached (fields : List Field) : Nat := (fields.getLast?.map Field.stop).getD 0

namespace Trace

variable {base : FieldPath} {start : Nat} {t : Trace} {f : Field}

theorem tiles_fields (base : FieldPath) (start : Nat) (t : Trace) :
    Tiles start (t.fields base start) (start + t.width) := by
  induction t generalizing start with
  | nil => exact (Nat.add_zero start).symm
  | cons m t ih =>
    refine ⟨rfl, Nat.le_add_right _ _, ?_⟩
    rw [width_cons, ← Nat.add_assoc]
    exact ih (start + m.width)

theorem reached_fields (base : FieldPath) (t : Trace) : reached (t.fields base 0) = t.width := by
  suffices h : ∀ start, (((t.fields base start).getLast?).map Field.stop).getD start
      = start + t.width by
    rw [reached, h, Nat.zero_add]
  induction t with
  | nil => exact fun start => (Nat.add_zero start).symm
  | cons m t ih =>
    intro start
    have behind := ih (start + m.width)
    rw [fields, List.getLast?_cons, width_cons, ← Nat.add_assoc, ← behind]
    rcases (fields base (start + m.width) t).getLast? with - | f
    · rfl
    · rfl

end Trace

/-- The fields of a written message are those that were written. -/
theorem Encoding.leaf_of_mem_fields {e : Encoding} {f : Field} (h : f ∈ e.fields) :
    ∃ l ∈ e, f.path.segments = l.path ∧ f.value = l.value := by
  rw [fields_eq_trace] at h
  obtain ⟨⟨_, hm, path, value⟩, -⟩ := Trace.mark_of_mem_fields h
  obtain ⟨l, hl, rfl⟩ := List.mem_map.1 hm
  exact ⟨l, hl, path, value⟩

/-! ### Reading a response -/

namespace Response

variable {β : Type} [ResponseBody β] {payload : Bytes} {s : ReadState Unit}

/-- Header and body. -/
def parts : FieldRead (ResponseHeader × β) := do
  let header ← (ResponseHeader.codec (ResponseBody.flexibleHeader β)).read
  let body ← ResponseBody.codec.read
  return (header, body)

theorem codec_read_eq : (codec : Codec (Response β) (Response β)).read =
    FieldRead.scope (root β) (parts >>= fun p => (ending p.1 p.2).read) := by
  rw [codec_eq]
  simp only [parts, bind_assoc, pure_bind]
  rfl

/-- Before the first byte, below the root. -/
def entry (β : Type) [ResponseBody β] (payload : Bytes) : ReadState Unit :=
  { ReadState.start payload () with path := ⟨[root β]⟩ }

theorem entry_after (β : Type) [ResponseBody β] (payload : Bytes) (t : Trace) :
    ((entry β payload).after t).cursor = ⟨t.width, payload.drop t.width⟩ := by
  simp only [entry, ReadState.after, ReadState.past, ReadState.start, Cursor.start, Nat.zero_add]

variable [l : ResponseLayout β]

theorem orderly_parts : Orderly (innerLayout β) [] (parts : FieldRead (ResponseHeader × β)) :=
  Orderly.bind .both Codec.LaidOut.orderly fun header =>
    l.laidOut.orderly.bind_pure fun body => (header, body)

/-- What has been read of a payload is a trace that fits the layout. -/
structure Came (β : Type) [ResponseBody β] [ResponseLayout β] (payload : Bytes)
    (s : ReadState Unit) (t : Trace) : Prop where
  met : (layout β).Met (ReadState.start payload ()) t
  fields : s.fields.toList = t.fields FieldPath.root 0

theorem came_of_met {t : Trace} (met : (innerLayout β).Met (entry β payload) t)
    (fields : s.fields = ((entry β payload).after t).fields) :
    Came β payload s (t.scope (root β)) where
  met := Layout.Met.scope met
  fields := by
    rw [fields, ReadState.after_fields, Trace.fields_scope]
    rfl

/-- A response that was read has been read to the end, unless its body ends early. -/
theorem ok_of_read {r : Response β} (run : read payload = .ok r s) :
    ∃ t, Came β payload s t ∧ s.cursor.offset = t.width ∧
      (ResponseBody.endsEarly r.body = false → t.width = payload.length) := by
  rw [read, codec_read_eq] at run
  obtain ⟨s₁, run₁, rfl⟩ := FieldRead.ok_of_scope run
  obtain ⟨⟨header, body⟩, s₂, front, behind⟩ := ok_of_bind run₁
  have front : parts (entry β payload) = .ok (header, body) s₂ := front
  obtain ⟨t, met, rfl⟩ := orderly_parts.ok _ _ s₂ front
  obtain ⟨rfl, rfl, finished⟩ := ok_of_ending behind
  refine ⟨t.scope (root β), came_of_met met rfl, ?_, fun late => ?_⟩
  · rw [Trace.width_scope, entry_after]
  · -- nothing is left behind the trace, and it takes no more than there is
    have left := finished late
    have fits : t.width ≤ payload.length := met.width
    rw [entry_after, List.drop_eq_nil_iff] at left
    rw [Trace.width_scope]
    exact Nat.le_antisymm fits left

/-- Where reading a response fails: in front of a value, on account of a field, or behind all of
it. -/
theorem error_of_read {e : DecodeError}
    (run : (read payload : EStateM.Result _ _ (Response β)) = .error e s) :
    ∃ t, Came β payload s t ∧
      ((layout β).Refused (ReadState.start payload ()) t e ∨
        (ReadState.start payload ()).Blames t e ∨
        t.width < payload.length ∧ e = ⟨⟨[root β]⟩, t.width, payload.length,
          .invalidLength (.trailingMessage (payload.length - t.width) (root β))⟩) := by
  rw [read, codec_read_eq] at run
  obtain ⟨s₁, run₁, rfl⟩ := FieldRead.error_of_scope run
  rcases error_of_bind run₁ with front | ⟨⟨header, body⟩, s₂, front, behind⟩
  · have front : parts (entry β payload) = .error e s₁ := front
    obtain ⟨t, met, -, fields, cause⟩ := orderly_parts.error _ _ _ front
    refine ⟨t.scope (root β), came_of_met met fields, ?_⟩
    rcases cause with refused | blamed | given
    · exact .inl (Layout.Refused.scope refused)
    · exact .inr (.inl (ReadState.Blames.scope blamed))
    · exact absurd given List.not_mem_nil
  · have front : parts (entry β payload) = .ok (header, body) s₂ := front
    obtain ⟨t, met, rfl⟩ := orderly_parts.ok _ _ s₂ front
    obtain ⟨rfl, some, rfl⟩ := error_of_ending behind
    refine ⟨t.scope (root β), came_of_met met rfl, .inr (.inr ?_)⟩
    have fits : t.width ≤ payload.length := met.width
    rw [entry_after, List.length_drop] at some
    rw [Trace.width_scope, Cursor.stop, entry_after, List.length_drop, Nat.add_sub_cancel' fits]
    exact ⟨Nat.lt_of_sub_pos some, rfl⟩

end Response

/-! ### The early end -/

namespace ApiVersionsResponseBody

variable {payload : Bytes} {s s' : ReadState Unit}

/-- A header without a tag buffer is the four bytes of a correlation id. -/
theorem offset_of_header {header : ResponseHeader}
    (run : (ResponseHeader.codec false).read s = .ok header s') :
    s'.cursor.offset = s.cursor.offset + 4 := by
  obtain ⟨s₁, body, rfl⟩ := FieldRead.ok_of_scope run
  obtain ⟨id, s₂, idRun, done⟩ := ok_of_bind body
  obtain ⟨-, rfl⟩ := EStateM.Result.ok.inj done
  obtain ⟨used, left, -, reads, rfl⟩ := FieldRead.ok_of_field Kind.Plain.int32.isLocal idRun
  have width : used.length = 4 := RawRead.length_of_reads_fixed reads
  simp only [ReadState.past_offset, Trace.width_cons, Trace.width_nil, width]

/-- A body with the one error code is the two bytes of that. -/
theorem offset_of_body {body : ApiVersionsResponseBody}
    (run : (ResponseBody.codec (β := ApiVersionsResponseBody)).read s = .ok body s')
    (early : body.errorCode = ErrorCode.unsupportedVersion.code) :
    s'.cursor.offset = s.cursor.offset + 2 := by
  obtain ⟨s₁, inBody, rfl⟩ := FieldRead.ok_of_scope run
  obtain ⟨code, s₂, codeRun, afterCode⟩ := ok_of_bind inBody
  obtain ⟨used, left, -, reads, rfl⟩ := FieldRead.ok_of_field Kind.Plain.int16.isLocal codeRun
  have width : used.length = 2 := RawRead.length_of_reads_fixed reads
  dsimp only at afterCode
  split at afterCode
  · obtain ⟨-, rfl⟩ := EStateM.Result.ok.inj afterCode
    simp only [ReadState.past_offset, Trace.width_cons, Trace.width_nil, width]
  · next other =>
    -- every other code is the one that the body is given in the end
    obtain ⟨_, _, -, afterKeys⟩ := ok_of_bind afterCode
    obtain ⟨_, _, -, afterTime⟩ := ok_of_bind afterKeys
    obtain ⟨_, _, -, done⟩ := ok_of_bind afterTime
    obtain ⟨rfl, -⟩ := EStateM.Result.ok.inj done
    exact absurd early other

theorem offset_of_early {r : Response ApiVersionsResponseBody}
    (run : Response.read payload = .ok r s)
    (early : r.body.errorCode = ErrorCode.unsupportedVersion.code) : s.cursor.offset = 6 := by
  rw [Response.read, Response.codec_read_eq] at run
  obtain ⟨s₁, run₁, rfl⟩ := FieldRead.ok_of_scope run
  obtain ⟨⟨header, body⟩, s₂, front, behind⟩ := ok_of_bind run₁
  obtain ⟨rfl, rfl, -⟩ := Response.ok_of_ending behind
  obtain ⟨header', s₃, headerRun, rest⟩ := ok_of_bind front
  obtain ⟨body', s₄, bodyRun, done⟩ := ok_of_bind rest
  obtain ⟨same, rfl⟩ := EStateM.Result.ok.inj done
  obtain ⟨rfl, rfl⟩ := Prod.mk.inj same
  show s₄.cursor.offset = 6
  rw [offset_of_body bodyRun early, offset_of_header headerRun]
  rfl

end ApiVersionsResponseBody

/-! ### The place of an error -/

namespace DecodeError

variable {e : DecodeError} {root : String} {payload : Bytes} {fields : List Field}

/-- A read failed behind the fields, at a path of its own below the root.  The error has some bytes
if the read saw any. -/
structure IsFailedRead (e : DecodeError) (root : String) (payload : Bytes) (fields : List Field) :
    Prop where
  below : e.path.isDescendantOf ⟨[root]⟩ = true
  start : e.start = reached fields
  failed : ∃ sight, sight <+: payload.drop e.start ∧ e.FailedAt ⟨e.start, sight⟩ ∧
    (sight ≠ [] → e.start < e.stop)

/-- The error has the place of one of the fields. -/
def IsBlamed (e : DecodeError) (fields : List Field) : Prop :=
  ∃ f ∈ fields, f.path = e.path ∧ f.start = e.start ∧ f.stop = e.stop

/-- The error is that of the bytes behind the fields, which are all there. -/
structure IsTrailing (e : DecodeError) (root : String) (payload : Bytes) (fields : List Field) :
    Prop where
  path : e.path = ⟨[root]⟩
  start : e.start = reached fields
  stop : e.stop = payload.length
  some : reached fields < payload.length
  cause : e.cause = .invalidLength (.trailingMessage (payload.length - reached fields) root)

/-- The error lies within the payload, and is of exactly one kind. -/
structure IsPlaced (e : DecodeError) (root : String) (payload : Bytes) (fields : List Field) :
    Prop where
  forward : e.start ≤ e.stop
  inside : e.stop ≤ payload.length
  kind : e.IsFailedRead root payload fields ∨ e.IsBlamed fields ∨ e.IsTrailing root payload fields
  failedRead_or_blamed : ¬ (e.IsFailedRead root payload fields ∧ e.IsBlamed fields)
  failedRead_or_trailing :
    ¬ (e.IsFailedRead root payload fields ∧ e.IsTrailing root payload fields)
  blamed_or_trailing : ¬ (e.IsBlamed fields ∧ e.IsTrailing root payload fields)

end DecodeError

namespace Response

variable {β : Type} [ResponseBody β] [ResponseLayout β] {payload : Bytes} {s : ReadState Unit}
  {t : Trace} {e : DecodeError}

/-- What is so of the fields that are recorded when a payload is read, up to `stop` if that ends
well, and of the place of the error if it does not. -/
def ReadSoundly (stop : Response β → Nat) (payload : Bytes) : Prop :=
  match (read payload : EStateM.Result DecodeError (ReadState Unit) (Response β)) with
  | .ok r s => Tiles 0 s.fields.toList (stop r)
  | .error e s => Tiles 0 s.fields.toList (reached s.fields.toList) ∧
    e.IsPlaced (root β) payload s.fields.toList

namespace Came

theorem tiles (came : Came β payload s t) : Tiles 0 s.fields.toList t.width := by
  have whole := t.tiles_fields FieldPath.root 0
  rwa [← came.fields, Nat.zero_add] at whole

theorem reached_eq (came : Came β payload s t) : reached s.fields.toList = t.width := by
  rw [came.fields, t.reached_fields]

/-- Every field comes from a mark of the trace. -/
theorem mark (came : Came β payload s t) {f : Field} (hf : f ∈ s.fields.toList) :
    ∃ m ∈ t, f.path.segments = m.path ∧ f.value = m.value := by
  rw [came.fields] at hf
  exact (Trace.mark_of_mem_fields hf).1

end Came

/-- Every path of a response leads below its root. -/
theorem below_root (tidy : (layout β).tidy = true) {path : List String} {type : ValueType}
    (has : (layout β).Has path type) : ∃ s rest, path = root β :: s :: rest := by
  obtain ⟨_, rest, rfl, rfl, has⟩ := has
  obtain ⟨s, rest, rfl, -⟩ := has.head (Layout.segmented_of_tidy tidy)
  exact ⟨s, rest, rfl⟩

omit [ResponseLayout β] in
theorem isDescendantOf_root {p : FieldPath} {s : String} {rest : List String}
    (h : p.segments = root β :: s :: rest) : p.isDescendantOf ⟨[root β]⟩ = true := by
  refine FieldPath.isDescendantOf_iff.2 ⟨?_, ?_⟩
  · rw [h]
    exact List.prefix_append [root β] (s :: rest)
  · rintro rfl
    cases h

/-- A primitive read that was refused behind the trace is a failed read, at a path that no field
has. -/
theorem Came.isFailedRead (tidy : (layout β).tidy = true) (came : Came β payload s t)
    (refused : (layout β).Refused (ReadState.start payload ()) t e) :
    e.IsFailedRead (root β) payload s.fields.toList ∧
      ∀ f ∈ s.fields.toList, Apart f.path.segments e.path.segments := by
  obtain ⟨path, type, place, has, apart⟩ := refused.place
  obtain ⟨sight, inSight, failed⟩ := refused.failed
  have place : e.path.segments = path := place
  have start : e.start = t.width := failed.range.1.trans (Nat.zero_add _)
  obtain ⟨first, rest, below⟩ := below_root tidy has
  constructor
  · refine ⟨isDescendantOf_root (place.trans below), ?_, sight, ?_, ?_, failed.range.2.2.2⟩
    · rw [came.reached_eq, start]
    · rw [start]
      exact inSight
    · rw [start]
      have there : e.FailedAt ⟨0 + t.width, sight⟩ := failed
      rwa [Nat.zero_add] at there
  · intro f hf
    obtain ⟨m, hm, same, -⟩ := came.mark hf
    rw [place, same]
    exact apart tidy m hm

theorem Came.isPlaced_of_refused (tidy : (layout β).tidy = true) (came : Came β payload s t)
    (refused : (layout β).Refused (ReadState.start payload ()) t e) :
    e.IsPlaced (root β) payload s.fields.toList := by
  obtain ⟨failedRead, apart⟩ := came.isFailedRead tidy refused
  obtain ⟨sight, inSight, failed⟩ := refused.failed
  obtain ⟨-, forward, inside, -⟩ := failed.range
  have notBlamed : ¬ e.IsBlamed s.fields.toList := by
    rintro ⟨f, hf, same, -⟩
    exact (apart f hf).ne (congrArg FieldPath.segments same)
  have notTrailing : ¬ e.IsTrailing (root β) payload s.fields.toList := by
    intro trailing
    exact (FieldPath.isDescendantOf_iff.1 failedRead.below).2 trailing.path
  refine ⟨forward, ?_, .inl failedRead, fun h => notBlamed h.2, fun h => notTrailing h.2,
    fun h => notBlamed h.1⟩
  -- what the read saw is ahead of it in the payload
  have seen := inSight.length_le
  have fits : t.width ≤ payload.length := came.met.width
  rw [List.length_drop] at seen
  simp only [Cursor.stop, ReadState.start, Cursor.start] at inside seen
  omega

theorem Came.isBlamed (came : Came β payload s t)
    (blamed : (ReadState.start payload ()).Blames t e) : e.IsBlamed s.fields.toList := by
  obtain ⟨f, hf, same, -⟩ := blamed
  obtain ⟨path, start, stop⟩ := Anchor.mk.inj same
  exact ⟨f, came.fields ▸ hf, path, start, stop⟩

theorem Came.isPlaced_of_blames (came : Came β payload s t)
    (blamed : (ReadState.start payload ()).Blames t e) :
    e.IsPlaced (root β) payload s.fields.toList := by
  have here := came.isBlamed blamed
  obtain ⟨f, hf, same, some⟩ := blamed
  obtain ⟨-, start, stop⟩ := Anchor.mk.inj same
  have inside : f.stop ≤ 0 + t.width := (Trace.mark_of_mem_fields hf).2
  have fits : t.width ≤ payload.length := came.met.width
  -- a field with some bytes begins before the fields end
  have earlier : e.start < reached s.fields.toList := by
    rw [came.reached_eq, ← start]
    omega
  have notFailedRead : ¬ e.IsFailedRead (root β) payload s.fields.toList := fun failedRead =>
    Nat.ne_of_lt earlier failedRead.start
  have notTrailing : ¬ e.IsTrailing (root β) payload s.fields.toList := fun trailing =>
    Nat.ne_of_lt earlier trailing.start
  exact ⟨by omega, by omega, .inr (.inl here), fun h => notFailedRead h.1,
    fun h => notFailedRead h.1, fun h => notTrailing h.2⟩

/-- The error that is raised for bytes behind the trace is that of the bytes behind the fields. -/
theorem Came.isTrailing (came : Came β payload s t) (some : t.width < payload.length) :
    DecodeError.IsTrailing ⟨⟨[root β]⟩, t.width, payload.length,
      .invalidLength (.trailingMessage (payload.length - t.width) (root β))⟩
      (root β) payload s.fields.toList := by
  rw [← came.reached_eq] at some ⊢
  exact ⟨rfl, rfl, rfl, some, rfl⟩

theorem Came.isPlaced_of_trailing (tidy : (layout β).tidy = true) (came : Came β payload s t)
    (trailing : e.IsTrailing (root β) payload s.fields.toList) :
    e.IsPlaced (root β) payload s.fields.toList := by
  have notBelow : ¬ e.path.isDescendantOf ⟨[root β]⟩ = true := fun below =>
    (FieldPath.isDescendantOf_iff.1 below).2 trailing.path
  have notBlamed : ¬ e.IsBlamed s.fields.toList := by
    rintro ⟨f, hf, same, -⟩
    obtain ⟨m, hm, path, -⟩ := came.mark hf
    obtain ⟨first, rest, below⟩ := below_root tidy (came.met.has m hm)
    exact notBelow (same ▸ isDescendantOf_root (path.trans below))
  refine ⟨?_, Nat.le_of_eq trailing.stop, .inr (.inr trailing), fun h => notBelow h.1.below,
    fun h => notBelow h.1.below, fun h => notBlamed h.1⟩
  rw [trailing.start, trailing.stop]
  exact Nat.le_of_lt trailing.some

/-- Every error has its place. -/
theorem isPlaced_of_error (tidy : (layout β).tidy = true)
    (run : (read payload : EStateM.Result _ _ (Response β)) = .error e s) :
    e.IsPlaced (root β) payload s.fields.toList := by
  obtain ⟨t, came, cause⟩ := error_of_read run
  rcases cause with refused | blamed | ⟨some, rfl⟩
  · exact came.isPlaced_of_refused tidy refused
  · exact came.isPlaced_of_blames blamed
  · exact came.isPlaced_of_trailing tidy (came.isTrailing some)

/-- Reading is sound wherever it ends at the right offset when it ends well. -/
theorem readSoundly (tidy : (layout β).tidy = true) {stop : Response β → Nat}
    (finish : ∀ r s, read payload = .ok r s → s.cursor.offset = stop r) :
    ReadSoundly stop payload := by
  unfold ReadSoundly
  split
  · next r s run =>
    obtain ⟨t, came, offset, -⟩ := ok_of_read run
    rw [← finish r s run, offset]
    exact came.tiles
  · next e s run =>
    obtain ⟨t, came, -⟩ := error_of_read run
    refine ⟨?_, isPlaced_of_error tidy run⟩
    rw [came.reached_eq]
    exact came.tiles

end Response

/-- **The fields tile the payload, and every error has its place.**  The fields that are recorded
while a response is read lie end to end from the first byte on, and when reading ends well they
reach the last one, or the end of the error code of a body that ends there.  When it fails, the
error lies within the payload and is of exactly one kind: that of a read that failed where the fields
end, that of one of the fields, or that of all the bytes behind them. -/
theorem responses_readSoundly (payload : Bytes) :
    Response.ReadSoundly (β := ApiVersionsResponseBody)
      (fun r => if r.body.errorCode = ErrorCode.unsupportedVersion.code then 6 else payload.length)
      payload ∧
    Response.ReadSoundly (β := DescribeTopicPartitionsResponseBody)
      (fun _ => payload.length) payload ∧
    Response.ReadSoundly (β := FetchResponseBody) (fun _ => payload.length) payload ∧
    Response.ReadSoundly (β := ProduceResponseBody) (fun _ => payload.length) payload := by
  obtain ⟨apiVersions, describe, fetch, produce⟩ := Response.layout_tidy
  refine ⟨Response.readSoundly apiVersions fun r s run => ?_,
    Response.readSoundly describe fun r s run => ?_,
    Response.readSoundly fetch fun r s run => ?_,
    Response.readSoundly produce fun r s run => ?_⟩
  · split
    · next early => exact ApiVersionsResponseBody.offset_of_early run early
    · next late =>
      obtain ⟨t, -, offset, whole⟩ := Response.ok_of_read run
      rw [offset, whole (decide_eq_false late)]
  all_goals
    obtain ⟨t, -, offset, whole⟩ := Response.ok_of_read run
    rw [offset, whole rfl]

end BrokerExam
