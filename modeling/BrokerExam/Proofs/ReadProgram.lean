/-
BrokerExam/Proofs/ReadProgram.lean

The discipline of programs over the field reader.  A `ReadScript` is put together
from what the messages are read with, and may go by what it has read so far, down
to an attempt whose failure it looks at.  Whatever the script, and wherever it
fails, it leaves path and sight as they were, and has only added to the fields.

`Runs p s bounds s₁ failure s₂` says what is run while `p` is run from `s` on: a
part of it, from `s₁` to `s₂`, between the bounds that are in force there, the
innermost first.  Each part is run within all of them, so that a bound never shows
more than the one around it, however far it claims to reach.  Parts within an
attempt are among them, too, with the failures that are not heard of later.

Main results: `disciplined`, `Runs.within` and `readScripts_disciplined`.
-/
import BrokerExam.Proofs.Batch.Confinement
import BrokerExam.Proofs.Wire.Discipline
import BrokerExam.ReadProgram

namespace BrokerExam

variable {ν α β : Type}

/-! ### Scripts -/

/-- A program whose steps may depend on what was read before. -/
inductive ReadScript (ν : Type) : Type → Type 1
  | pure {α : Type} (a : α) : ReadScript ν α
  | bind {α β : Type} (first : ReadScript ν α) (next : α → ReadScript ν β) : ReadScript ν β
  /-- Looks at all there is: offset, bytes ahead, path, fields and notes. -/
  | look : ReadScript ν (ReadState ν)
  /-- Changes the notes. -/
  | note (change : ν → ν) : ReadScript ν Unit
  | field (name : String) (kind : FieldKind) : ReadScript ν kind.kind.1
  | tagBuffer : ReadScript ν Unit
  | compactInt32Array (name : String) : ReadScript ν (List Int32)
  | compactArray {α : Type} (name : String) (element : ReadScript ν α) : ReadScript ν (List α)
  | array {α : Type} (name : String) (element : ReadScript ν α) : ReadScript ν (List α)
  | record : ReadScript ν Record
  | batch : ReadScript ν RecordBatch
  | batchStream (name : String) : ReadScript ν (List RecordBatch)
  | scope {α : Type} (name : String) (body : ReadScript ν α) : ReadScript ν α
  | bounded {α : Type} (length : Nat) (body : ReadScript ν α) : ReadScript ν α
  /-- Goes on with the failure when the body has failed. -/
  | attempt {α : Type} (body : ReadScript ν α) : ReadScript ν (Except DecodeError α)
  /-- Fails over the bytes not read. -/
  | fail {α : Type} (cause : CodecError) : ReadScript ν α

/-- The error with which a run has failed, if it has. -/
def failure? : EStateM.Result DecodeError (ReadState ν) α → Option DecodeError
  | .ok _ _ => none
  | .error e _ => some e

/-- The body, and its failure as a value. -/
def FieldRead.attempt (body : NotingRead ν α) : NotingRead ν (Except DecodeError α) := fun s =>
  match body s with
  | .ok a s' => .ok (.ok a) s'
  | .error e s' => .ok (.error e) s'

/-- An attempt ends where its body does. -/
theorem FieldRead.finalState_attempt (body : NotingRead ν α) (s : ReadState ν) :
    finalState (attempt body s) = finalState (body s) := by
  rw [attempt]
  split
  · next run => rw [run]; rfl
  · next run => rw [run]; rfl

namespace ReadScript

def read : {α : Type} → ReadScript ν α → NotingRead ν α
  | _, pure a => Pure.pure a
  | _, bind first next => first.read >>= fun a => (next a).read
  | _, look => get
  | _, note change => modify fun s => { s with notes := change s.notes }
  | _, field name kind => FieldRead.field name kind.kind.2
  | _, tagBuffer => FieldRead.tagBuffer
  | _, compactInt32Array name => FieldRead.compactInt32Array name
  | _, compactArray name element => FieldRead.compactArray name element.read
  | _, array name element => FieldRead.array name element.read
  | _, record => FieldRead.noting Record.codec.read
  | _, batch => FieldRead.noting RecordBatch.read
  | _, batchStream name => FieldRead.noting (FieldRead.batchStream name)
  | _, scope name body => FieldRead.scope name body.read
  | _, bounded length body => FieldRead.bounded length body.read
  | _, attempt body => FieldRead.attempt body.read
  | _, fail cause => FieldRead.errorOverRemaining cause >>= throw

end ReadScript

/-! ### Programs as scripts -/

namespace ReadProgram

/-- Notes what comes of a script. -/
def scriptNoting (p : ReadScript (Array Note) α) (note : α → List Note) :
    ReadScript (Array Note) Unit :=
  p.bind fun a => .note fun notes => notes ++ (note a).toArray

/-- The program as a script. -/
def script (input : Bytes) : ReadProgram → ReadScript (Array Note) Unit
  | skip => .pure ()
  | seq first second => (first.script input).bind fun _ => second.script input
  | field name .uint32 => scriptNoting (.field name .uint32) fun v => [.uint32 v]
  | field name kind => scriptNoting (.field name kind) fun _ => []
  | tagBuffer => .tagBuffer
  | compactInt32Array name => scriptNoting (.compactInt32Array name) fun vs => [.int32s vs]
  | compactArray name element =>
    scriptNoting (.compactArray name (element.script input)) fun es => [.count es.length]
  | array name element =>
    scriptNoting (.array name (element.script input)) fun es => [.count es.length]
  | record => scriptNoting .record fun r => [.record r]
  | batch => scriptNoting .batch fun b => [.batch b]
  | batchStream name => scriptNoting (.batchStream name) fun bs => [.batches bs]
  | scope name body => .scope name (body.script input)
  | bounded length body => .bounded length (body.script input)
  | attempt body =>
    (ReadScript.attempt (body.script input)).bind fun ended => ReadScript.look.bind fun s =>
      let failure := match ended with
        | .ok _ => none
        | .error e => some e
      .note fun notes => notes.push
        (.attempted failure s.cursor.offset s.cursor.ahead.length s.path)
  | fail text => .fail (.invalidLength (.stated text))
  | anchor =>
    scriptNoting .look fun s =>
      match s.fields.back? with
      | some f => [.anchor f.anchor]
      | none => [.fault .noFieldDecoded]
  | slice start stop =>
    scriptNoting .look fun s =>
      match Bytes.slice (input.take s.cursor.stop) start stop with
      | .ok bs => [.slice bs]
      | .error f => [.fault f]

/-- A program is read as its script. -/
theorem read_script (input : Bytes) (p : ReadProgram) : (p.script input).read = read input p := by
  induction p with
  | seq first second ihFirst ihSecond =>
    simp only [script, ReadScript.read, read, ihFirst, ihSecond]
  | field name kind => cases kind <;> rfl
  | compactArray name element ih =>
    simp only [script, scriptNoting, ReadScript.read, read, noted, ih]
  | array name element ih => simp only [script, scriptNoting, ReadScript.read, read, noted, ih]
  | scope name body ih => simp only [script, ReadScript.read, read, ih]
  | bounded length body ih => simp only [script, ReadScript.read, read, ih]
  | attempt body ih =>
    funext s
    simp only [script, ReadScript.read, read, ih, catching]
    show EStateM.bind (FieldRead.attempt (read input body)) _ s = _
    simp only [EStateM.bind, FieldRead.attempt]
    cases read input body s with
    | ok a s' => rfl
    | error e s' => rfl
  | _ => rfl

end ReadProgram

/-! ### Scripts are disciplined -/

namespace Disciplined

variable {r : NotingRead ν α}

theorem attempt (hr : Disciplined [] r) : Disciplined [] (FieldRead.attempt r) where
  keeps := by
    intro s
    rw [FieldRead.finalState_attempt]
    exact hr.keeps s
  blames := by
    intro s e s' run
    rw [FieldRead.attempt] at run
    split at run
    · cases run
    · cases run

/-- The failure of a run blames what was in sight. -/
theorem blames_of_failure? (hr : Disciplined [] r) {s : ReadState ν} {e : DecodeError}
    (failed : failure? (r s) = some e) : s.cursor.sight.Holds e.start e.stop := by
  cases run : r s with
  | ok a s' =>
    rw [run] at failed
    cases failed
  | error e' s' =>
    rw [run] at failed
    obtain rfl := Option.some.inj failed
    exact hr.blames_inSight run

theorem keeps_of_ok (hr : Disciplined [] r) {s s' : ReadState ν} {a : α} (run : r s = .ok a s') :
    s.Keeps s' := by
  have keeps := hr.keeps s
  rw [run] at keeps
  exact keeps

/-- What follows a reader leaves the fields that it recorded. -/
theorem prefix_bind {f : α → NotingRead ν β} (hf : ∀ a, Disciplined [] (f a)) (s : ReadState ν) :
    (finalState (r s)).fields.toList <+: (finalState ((r >>= f) s)).fields.toList := by
  cases run : r s with
  | ok a s' =>
    rw [bind_of_ok run]
    exact ((hf a).keeps s').fields_isPrefix
  | error e s' =>
    rw [bind_of_error run]
    exact List.prefix_rfl

/-- The fields of the element at index `i` are there when all the elements have been read. -/
theorem prefix_repeated {f : Nat → NotingRead ν α} (hf : ∀ i, Disciplined [] (f i))
    {count i j : Nat} {as : List α} {s s' : ReadState ν} (here : i < count)
    (before : FieldRead.repeated f i j s = .ok as s') :
    (finalState (f (j + i) s')).fields.toList <+:
      (finalState (FieldRead.repeated f count j s)).fields.toList := by
  obtain ⟨more, rfl⟩ := Nat.exists_eq_add_of_lt here
  clear here
  have rest (a : α) (n j : Nat) : Disciplined []
      (FieldRead.repeated f n j >>= fun as => Pure.pure (a :: as)) :=
    (repeated hf n j).bind fun as => pure (a :: as)
  induction i generalizing j s as with
  | zero =>
    obtain ⟨-, rfl⟩ := EStateM.Result.ok.inj before
    rw [Nat.zero_add, FieldRead.repeated]
    exact prefix_bind (fun a => rest a _ _) s
  | succ i ih =>
    rw [FieldRead.repeated] at before
    obtain ⟨a, s₁, first, others⟩ := ok_of_bind before
    obtain ⟨as, s₂, row, last⟩ := ok_of_bind others
    obtain ⟨-, rfl⟩ := EStateM.Result.ok.inj last
    have inner := ih row
    rw [Nat.add_right_comm i 1, FieldRead.repeated, bind_of_ok first, ← Nat.add_assoc,
      Nat.add_right_comm j i]
    exact inner.trans (prefix_bind (fun as => pure (a :: as)) s₁)

/-- So are those of the element itself, which is read below its index. -/
theorem prefix_element (hr : Disciplined [] r) {name : String} {count i : Nat} {as : List α}
    {s s' : ReadState ν} (here : i < count)
    (before : FieldRead.repeated (fun i => FieldRead.scope (indexed name i) r) i 0 s = .ok as s') :
    (finalState (r { s' with path := s'.path.child (indexed name i) })).fields.toList <+:
      (finalState (FieldRead.repeated (fun i => FieldRead.scope (indexed name i) r) count 0
        s)).fields.toList := by
  have element := prefix_repeated (fun i => hr.scope (indexed name i)) here before
  rwa [FieldRead.finalState_scope, Nat.zero_add] at element

theorem fail (cause : CodecError) :
    Disciplined [] (FieldRead.errorOverRemaining cause >>= MonadExcept.throw : NotingRead ν α) where
  keeps := .refl
  blames := by
    intro s e s' run
    obtain ⟨rfl, -⟩ := EStateM.Result.error.inj run
    exact .inl ⟨Nat.le_refl _, Nat.le_add_right _ _, Nat.le_refl _⟩

end Disciplined

theorem FieldKind.primitive (k : FieldKind) : k.kind.2.Primitive := by
  cases k with
  | string => exact .string
  | rawBytes n => exact .rawBytes n
  | _ => exact .plain (by constructor)

namespace ReadScript

theorem disciplined (p : ReadScript ν α) : Disciplined [] p.read := by
  induction p with
  | pure a => exact .pure a
  | bind first next ihFirst ihNext => exact ihFirst.bind ihNext
  | look => exact .of_stay fun s => ⟨s, s, rfl, rfl, rfl, rfl⟩
  | note change =>
    exact .of_stay fun s => ⟨(), { s with notes := change s.notes }, rfl, rfl, rfl, rfl⟩
  | field name kind => exact .field kind.primitive
  | tagBuffer => exact .tagBuffer
  | compactInt32Array name => exact .compactInt32Array
  | compactArray name element ih => exact .compactArray ih
  | array name element ih => exact .array ih
  | record => exact .noting .record
  | batch => exact .noting .batch
  | batchStream name => exact .noting (.batchStream name)
  | scope name body ih => exact ih.scope name
  | bounded length body ih => exact ih.bounded length
  | attempt body ih => exact ih.attempt
  | fail cause => exact .fail cause

/-! ### What is run -/

/-- While `p` is run from `s` on, a part of it is run from `s₁` to `s₂`, with this failure if it
fails, between these bounds, the innermost first. -/
inductive Runs : {α : Type} → ReadScript ν α → ReadState ν → List Window →
    ReadState ν → Option DecodeError → ReadState ν → Prop
  | whole {α : Type} (p : ReadScript ν α) (s : ReadState ν) :
    Runs p s [] s (failure? (p.read s)) (finalState (p.read s))
  | first {α β : Type} {p : ReadScript ν α} {next : α → ReadScript ν β} {s s₁ s₂ : ReadState ν}
      {bounds : List Window} {failure : Option DecodeError} :
    Runs p s bounds s₁ failure s₂ → Runs (bind p next) s bounds s₁ failure s₂
  | second {α β : Type} {p : ReadScript ν α} {next : α → ReadScript ν β} {a : α}
      {s s' s₁ s₂ : ReadState ν} {bounds : List Window} {failure : Option DecodeError} :
    p.read s = .ok a s' → Runs (next a) s' bounds s₁ failure s₂ →
    Runs (bind p next) s bounds s₁ failure s₂
  /-- The element at index `i`, once those before it have been read. -/
  | compactElement {α : Type} {name : String} {p : ReadScript ν α} {raw : UInt64} {i : Nat}
      {as : List α} {s s' s'' s₁ s₂ : ReadState ν} {bounds : List Window}
      {failure : Option DecodeError} :
    FieldRead.field "Length" Kind.compactArrayLength { s with path := s.path.child name } =
      .ok raw s' →
    i < raw.toNat - 1 →
    FieldRead.repeated (fun i => FieldRead.scope (indexed name i) p.read) i 0 s' = .ok as s'' →
    Runs p { s'' with path := s''.path.child (indexed name i) } bounds s₁ failure s₂ →
    Runs (compactArray name p) s bounds s₁ failure s₂
  | element {α : Type} {name : String} {p : ReadScript ν α} {length : Int32} {anchor : Anchor}
      {i : Nat} {as : List α} {s s' s'' s₁ s₂ : ReadState ν} {bounds : List Window}
      {failure : Option DecodeError} :
    FieldRead.anchored "Length" Kind.int32 { s with path := s.path.child name } =
      .ok (length, anchor) s' →
    ¬ length < -1 → i < length.toInt.toNat →
    FieldRead.repeated (fun i => FieldRead.scope (indexed name i) p.read) i 0 s' = .ok as s'' →
    Runs p { s'' with path := s''.path.child (indexed name i) } bounds s₁ failure s₂ →
    Runs (array name p) s bounds s₁ failure s₂
  /-- The batches of a stream, in front of the end that its size tells. -/
  | batches {name : String} {raw : UInt64} {anchor : Anchor} {s s₁ : ReadState ν}
      {s' : ReadState Unit} :
    FieldRead.anchored "Size" Kind.compactRecordSize
      { s with path := s.path.child name, notes := () } = .ok (raw, anchor) s' →
    ¬ raw ≤ 1 → raw.toNat - 1 ≤ s'.cursor.ahead.length →
    s₁ = { s' with
      cursor := s'.cursor.confine (s'.cursor.offset + (raw.toNat - 1)), notes := s.notes } →
    Runs (batchStream name) s [⟨s'.cursor.offset, s'.cursor.offset + (raw.toNat - 1)⟩] s₁
      (failure? (FieldRead.noting (FieldRead.all name RecordBatch.read) s₁))
      (finalState (FieldRead.noting (FieldRead.all name RecordBatch.read) s₁))
  | scope {α : Type} {name : String} {p : ReadScript ν α} {s s₁ s₂ : ReadState ν}
      {bounds : List Window} {failure : Option DecodeError} :
    Runs p { s with path := s.path.child name } bounds s₁ failure s₂ →
    Runs (scope name p) s bounds s₁ failure s₂
  | bounded {α : Type} {length : Nat} {p : ReadScript ν α} {s s₁ s₂ : ReadState ν}
      {bounds : List Window} {failure : Option DecodeError} :
    Runs p { s with cursor := s.cursor.confine (s.cursor.offset + length) } bounds s₁ failure s₂ →
    Runs (bounded length p) s (bounds ++ [⟨s.cursor.offset, s.cursor.offset + length⟩])
      s₁ failure s₂
  | attempt {α : Type} {p : ReadScript ν α} {s s₁ s₂ : ReadState ν} {bounds : List Window}
      {failure : Option DecodeError} :
    Runs p s bounds s₁ failure s₂ → Runs (attempt p) s bounds s₁ failure s₂

/-! ### Parts within their bounds -/

/-- Where a part is run that is reached from `s`: what was in sight at `s` holds it, and so does
each of the bounds. -/
def Confines (s : ReadState ν) (bounds : List Window) (s₁ : ReadState ν) : Prop :=
  ∀ w ∈ s.cursor.sight :: bounds, w.start ≤ s₁.cursor.offset ∧ s₁.cursor.stop ≤ w.stop

namespace Confines

variable {s s' s₁ : ReadState ν} {bounds : List Window}

theorem refl (s : ReadState ν) : Confines s [] s := by
  intro w hw
  obtain rfl := List.mem_singleton.1 hw
  exact ⟨Nat.le_refl _, Nat.le_refl _⟩

/-- What comes first can only narrow the sight. -/
theorem after (h : Confines s' bounds s₁) (forward : s.cursor.offset ≤ s'.cursor.offset)
    (stop : s'.cursor.stop ≤ s.cursor.stop) : Confines s bounds s₁ := by
  intro w hw
  rcases List.mem_cons.1 hw with rfl | hw
  · have here := h s'.cursor.sight List.mem_cons_self
    exact ⟨Nat.le_trans forward here.1, Nat.le_trans here.2 stop⟩
  · exact h w (List.mem_cons_of_mem _ hw)

theorem follows (h : Confines s' bounds s₁) (follows : s.Follows s') : Confines s bounds s₁ :=
  h.after follows.forward (Nat.le_of_eq follows.stop)

/-- A bound around the others confines what they confine, and the sight stays as it was. -/
theorem bounded {length : Nat}
    (h : Confines { s with cursor := s.cursor.confine (s.cursor.offset + length) } bounds s₁) :
    Confines s (bounds ++ [⟨s.cursor.offset, s.cursor.offset + length⟩]) s₁ := by
  obtain ⟨atBound, inSight⟩ := s.cursor.stop_confine_le length
  have here := h _ List.mem_cons_self
  intro w hw
  rcases List.mem_cons.1 hw with rfl | hw
  · exact ⟨here.1, Nat.le_trans here.2 inSight⟩
  · rcases List.mem_append.1 hw with hw | hw
    · exact h w (List.mem_cons_of_mem _ hw)
    · obtain rfl := List.mem_singleton.1 hw
      exact ⟨here.1, Nat.le_trans here.2 atBound⟩

/-- An element is read in what its length and the elements before it have left of an array. -/
theorem of_element {p : ReadScript ν α} {name : String} {i : Nat} {as : List α}
    {s'' : ReadState ν} {path : FieldPath} (h : Confines { s'' with path := path } bounds s₁)
    (forward : s.cursor.offset ≤ s'.cursor.offset) (stop : s'.cursor.stop = s.cursor.stop)
    (before : FieldRead.repeated (fun i => FieldRead.scope (indexed name i) p.read) i 0 s' =
      .ok as s'') : Confines s bounds s₁ := by
  have others := (Disciplined.repeated (fun i => p.disciplined.scope _) _ 0).keeps_of_ok before
  exact h.after (Nat.le_trans forward others.forward) (Nat.le_of_eq (others.stop.trans stop))

end Confines

variable {p : ReadScript ν α} {s s' s₁ s₂ : ReadState ν} {bounds : List Window}
  {failure : Option DecodeError}

/-- Each part is run within all the bounds that are in force, and keeps to what it sees. -/
theorem Runs.within (run : Runs p s bounds s₁ failure s₂) :
    Confines s bounds s₁ ∧ s₁.Keeps s₂ ∧
      ∀ e, failure = some e → s₁.cursor.sight.Holds e.start e.stop := by
  induction run with
  | whole p s => exact ⟨.refl s, p.disciplined.keeps s, fun e => p.disciplined.blames_of_failure?⟩
  | first _ ih => exact ih
  | @second _ _ p _ _ _ _ _ _ _ _ before _ ih =>
    exact ih.imp_left fun h => h.follows (p.disciplined.keeps_of_ok before).toFollows
  | @compactElement _ _ p _ _ _ s s' s'' _ _ _ _ length _ before _ ih =>
    have first := (Disciplined.field (.plain .compactArrayLength)).keeps_of_ok length
    exact ih.imp_left fun h => h.of_element first.forward first.stop before
  | @element _ _ p _ _ _ _ s s' s'' _ _ _ _ length _ _ before _ ih =>
    have first := (Disciplined.anchored (.plain .int32)).keeps_of_ok length
    exact ih.imp_left fun h => h.of_element first.forward first.stop before
  | @batches name raw _ s s₁ s' size _ _ same =>
    subst same
    have first := (Disciplined.anchored (.plain .compactRecordSize)).keeps_of_ok size
    have batches : Disciplined (ν := ν) []
        (FieldRead.noting (FieldRead.all name RecordBatch.read)) := .noting (.batches name)
    refine ⟨?_, batches.keeps _, fun e => batches.blames_of_failure?⟩
    have inside : Confines { s' with notes := s.notes }
        ([] ++ [⟨s'.cursor.offset, s'.cursor.offset + (raw.toNat - 1)⟩]) _ :=
      .bounded (.refl _)
    exact inside.after first.forward (Nat.le_of_eq first.stop)
  | scope _ ih => exact ih.imp_left fun h => h.after (Nat.le_refl _) (Nat.le_refl _)
  | bounded _ ih => exact ih.imp_left .bounded
  | attempt _ ih => exact ih

/-- What a part has recorded is still there in the end, whatever comes after it. -/
theorem Runs.recorded (run : Runs p s bounds s₁ failure s₂) :
    s₂.fields.toList <+: (finalState (p.read s)).fields.toList := by
  induction run with
  | whole p s => exact List.prefix_rfl
  | @first _ _ p next _ _ _ _ _ _ ih =>
    exact ih.trans (Disciplined.prefix_bind (fun a => (next a).disciplined) _)
  | second before _ ih =>
    rw [read, bind_of_ok before]
    exact ih
  | @compactElement _ name p _ i _ s s' s'' _ _ _ _ length here before _ ih =>
    rw [read, FieldRead.compactArray, FieldRead.finalState_scope, bind_of_ok length]
    exact ih.trans (p.disciplined.prefix_element here before)
  | @element _ name p _ _ i _ s s' s'' _ _ _ _ length counts here before _ ih =>
    rw [read, FieldRead.array, FieldRead.finalState_scope, bind_of_ok length]
    simp only [if_neg counts]
    exact ih.trans (p.disciplined.prefix_element here before)
  | @batches name raw anchor s s₁ s' size some enough same =>
    subst same
    rw [read]
    simp only [FieldRead.finalState_noting]
    rw [FieldRead.batchStream, FieldRead.finalState_scope, bind_of_ok size]
    simp only [if_neg some, batchesIn_eq_bounded name _ anchor enough,
      FieldRead.finalState_bounded, List.prefix_rfl]
  | scope _ ih =>
    rw [read, FieldRead.finalState_scope]
    exact ih
  | bounded _ ih =>
    rw [read, FieldRead.finalState_bounded]
    exact ih
  | attempt _ ih =>
    rw [read, FieldRead.finalState_attempt]
    exact ih

/-- **The discipline of the field reader.**  A script may fail wherever it likes: afterwards path
and sight are those before, the fields from before are still the first, and the offset has moved
forward within what is in sight.  What a part of it has recorded is among the fields in the end;
all of it, and what a failure of the part blames, lies in each bound that is in force there.
Programs are read as scripts. -/
theorem readScripts_disciplined :
    (∀ {ν α : Type} (p : ReadScript ν α) (s : ReadState ν),
      (finalState (p.read s)).path = s.path ∧
      (finalState (p.read s)).cursor.stop = s.cursor.stop ∧
      s.fields.toList <+: (finalState (p.read s)).fields.toList ∧
      s.cursor.offset ≤ (finalState (p.read s)).cursor.offset ∧
      (finalState (p.read s)).cursor.offset ≤ s.cursor.stop ∧
      ∀ bounds s₁ failure s₂, p.Runs s bounds s₁ failure s₂ →
        ∃ new, s₂.fields.toList = s₁.fields.toList ++ new ∧
          s₂.fields.toList <+: (finalState (p.read s)).fields.toList ∧
          ∀ w ∈ bounds, (∀ f ∈ new, w.Holds f.start f.stop) ∧
            ∀ e, failure = some e → w.Holds e.start e.stop) ∧
    ∀ (input : Bytes) (q : ReadProgram), (q.script input).read = q.read input := by
  refine ⟨fun p s => ?_, ReadProgram.read_script⟩
  have keeps := p.disciplined.keeps s
  have last : (finalState (p.read s)).cursor.offset ≤ s.cursor.stop :=
    Nat.le_trans (Nat.le_add_right _ _) (Nat.le_of_eq keeps.stop)
  refine ⟨keeps.path, keeps.stop, keeps.fields_isPrefix, keeps.forward, last, ?_⟩
  intro bounds s₁ failure s₂ run
  obtain ⟨confined, part, blames⟩ := run.within
  obtain ⟨new, same, inSight⟩ := part.fields
  refine ⟨new, same, run.recorded, fun w hw => ?_⟩
  obtain ⟨first, last⟩ := confined w (List.mem_cons_of_mem _ hw)
  exact ⟨fun f hf => (inSight f hf).widen first last, fun e he => (blames e he).widen first last⟩

/-- A bound of nine bytes within one of three: the number behind it fails at the end of the three,
though a later number is read as if nothing had happened. -/
theorem readScripts_disciplined_nested :
    let start : ReadState Unit := ReadState.start [0, 0, 0, 7, 1, 2, 3, 4, 5] ()
    let number : ReadScript Unit Int32 := .field "Number" .int32
    let p : ReadScript Unit Int8 :=
      .bounded 3 ((attempt (.bounded 9 number)).bind fun _ => .field "Flag" .int8)
    ∃ s₁ e s₂, p.Runs start [⟨0, 9⟩, ⟨0, 3⟩] s₁ (some e) s₂ ∧ e.stop = 3 ∧
      Window.Holds ⟨0, 3⟩ e.start e.stop := by
  intro start number p
  have part : p.Runs start [⟨0, 9⟩, ⟨0, 3⟩] _ _ _ :=
    .bounded (.first (.attempt (.bounded (.whole number _))))
  obtain ⟨-, -, -, -, -, parts⟩ := readScripts_disciplined.1 p start
  obtain ⟨new, -, -, within⟩ := parts _ _ _ _ part
  exact ⟨_, _, _, part, rfl, (within ⟨0, 3⟩ (by decide)).2 _ rfl⟩

end ReadScript
end BrokerExam
