/-
BrokerExam/Proofs/LogDirectory/Recording.lean

Computations whose written files are kept on record.  Making a log directory is
written over any storage; over one that records, it does what it does without
the record, and the record is the list of all files that were written, in order.

    Plays x y a as

says that `y`, and `x` with the record, add `as` to the files and end with `a`,
or fail before all is added.
-/
import BrokerExam.Failure
import BrokerExam.Proofs.Files.Additions
import BrokerExam.Rehearsal.World

namespace BrokerExam.Rehearsal

open Files

/-- A computation in a made-up world that keeps a record of the files written, whether or not that
succeeds. -/
abbrev Recording := StateT (List String) InWorld

instance : Storage Recording where
  pathExists path := StateT.lift (Storage.pathExists path)
  removeDirectory path := StateT.lift (Storage.removeDirectory path)
  createPath path := StateT.lift (Storage.createPath path)
  removeFile path := StateT.lift (Storage.removeFile path)
  writeFile path contents := fun written => do
    let result ← Storage.writeFile path contents
    return (result, written ++ [path])
  readFile path := StateT.lift (Storage.readFile path)
  listDirectory path := StateT.lift (Storage.listDirectory path)

instance : Journal Recording where
  record e := StateT.lift (Journal.record e)
  within span x := fun written => Journal.within span (x written)

instance : Clock Recording where
  now := StateT.lift Clock.now
  sleep n := StateT.lift (Clock.sleep n)

/-! ### What is done, and its record -/

/-- How an attempt ends, as the system answers. -/
def attempted {α : Type} (what : Attempt) (r : Except SystemError α) : Except Failure α :=
  r.mapError fun e => .trouble ⟨[what], .system e⟩

section Running

variable {α β : Type} {x : Tried Recording α} {f : α → Tried Recording β} {a : α}
  {failure : Failure} {w w' : World}
  {record record' : List String}

theorem recorded_bind (h : x.run record w = .ok (.ok a, record') w') :
    (x >>= f).run record w = (f a).run record' w' := bind_of_ok h

theorem recorded_bind_error (h : x.run record w = .ok (.error failure, record') w') :
    (x >>= f).run record w = .ok (.error failure, record') w' := bind_of_ok h

variable {r : Except SystemError α} {e : SystemError} {files : Tree}
  {c : Tree → Except SystemError Tree}

theorem run_attempt {op : InWorld (Except SystemError α)} (what : Attempt) (h : op w = .ok r w') :
    (attempt what op).run w = .ok (attempted what r) w' := bind_of_ok h

theorem recorded_attempt {op : Recording (Except SystemError α)} (what : Attempt)
    (h : op record w = .ok (r, record') w') :
    (attempt what op).run record w = .ok (attempted what r, record') w' :=
  bind_of_ok (f := fun p : Except SystemError α × List String =>
    Pure.pure (attempted what p.1, p.2)) h

theorem change_ok (h : c w.files = .ok files) :
    World.change c w = .ok (.ok ()) { w with files } := by
  simp only [World.change, modifyGet, MonadStateOf.modifyGet]
  delta EStateM.modifyGet
  dsimp only
  rw [h]

theorem change_error (h : c w.files = .error e) : World.change c w = .ok (.error e) w := by
  simp only [World.change, modifyGet, MonadStateOf.modifyGet]
  delta EStateM.modifyGet
  dsimp only
  rw [h]

/-- What is removed is not put on record. -/
theorem recorded_removeDirectory {r : Except SystemError Unit} {path : String}
    (record : List String) (h : World.change (·.removeDirectory path) w = .ok r w') :
    (Storage.removeDirectory path : Recording _) record w = .ok (r, record) w' :=
  bind_of_ok (f := fun r => Pure.pure (r, record)) h

end Running

/-- How a change of the files ended, of which `outcome` tells what comes of it: with the files
written, or, if nothing comes of it, with a failure after some of them. -/
inductive Played {α : Type} (a : α) (files : List String) (outcome : Except SystemError Tree)
    (after : Tree) : Except Failure α → List String → Prop
  | whole (all : outcome = .ok after) : Played a files outcome after (.ok a) files
  | failed (failure : Failure) {written : List String} {e : SystemError}
      (stopped : outcome = .error e) (some : written <+: files) :
    Played a files outcome after (.error failure) written

/-- Both computations add `as`, which may depend on the time, and end with `a`, or they fail on the
way; one of them keeps the record. -/
def Plays {α : Type} (x : Tried Recording α) (y : Tried InWorld α) (a : α)
    (as : Nat → List Addition) : Prop :=
  ∀ (w : World) (record : List String), ∃ v w' written,
    y.run w = .ok v w' ∧ x.run record w = .ok (v, record ++ written) w' ∧ w'.time = w.time ∧
      Played a (Addition.files (as w.time)) (w.files.extend (as w.time)) w'.files v written

namespace Plays

variable {α β : Type} {x : Tried Recording α} {y : Tried InWorld α} {a : α} {b : β}
  {f : α → Tried Recording β} {g : α → Tried InWorld β} {as bs : Nat → List Addition}

theorem pure (a : α) : Plays (Pure.pure a) (Pure.pure a) a fun _ => [] := by
  intro w record
  exact ⟨.ok a, w, [], rfl, by rw [List.append_nil]; rfl, rfl, .whole rfl⟩

theorem bind (hx : Plays x y a as) (hf : Plays (f a) (g a) b bs) :
    Plays (x >>= f) (y >>= g) b fun time => as time ++ bs time := by
  intro w record
  obtain ⟨v, w₁, written, plain, recorded, time, played⟩ := hx w record
  cases played with
  | whole all =>
    obtain ⟨v', w₂, written', plain', recorded', time', played'⟩ :=
      hf w₁ (record ++ Addition.files (as w.time))
    refine ⟨v', w₂, Addition.files (as w.time) ++ written', (run_bind_of_ok plain).trans plain',
      ?_, time'.trans time, ?_⟩
    · rw [← List.append_assoc]
      exact (recorded_bind recorded).trans recorded'
    · -- no time has passed, so the second list is that of the start
      rw [time] at played'
      cases played' with
      | whole all' =>
        rw [← Addition.files_append]
        apply Played.whole
        rw [Tree.extend_append, all]
        exact all'
      | failed failure stopped some =>
        apply Played.failed
        · rw [Tree.extend_append, all]
          exact stopped
        · rw [Addition.files_append]
          exact (List.prefix_append_right_inj _).2 some
  | failed failure stopped some =>
    refine ⟨.error failure, w₁, written, run_bind_of_error plain, recorded_bind_error recorded,
      time, ?_⟩
    apply Played.failed
    · rw [Tree.extend_append, stopped]
      rfl
    · rw [Addition.files_append]
      exact some.trans (List.prefix_append _ _)

theorem andThen {x : Tried Recording Unit} {y : Tried InWorld Unit} {x' : Tried Recording β}
    {y' : Tried InWorld β} (hx : Plays x y () as) (h : Plays x' y' b bs) :
    Plays (x >>= fun _ => x') (y >>= fun _ => y') b fun time => as time ++ bs time :=
  hx.bind (f := fun _ => x') (g := fun _ => y') h

/-- One after the other for all elements of a list. -/
theorem mapM {f : α → Tried Recording β} {g : α → Tried InWorld β} {h : α → β}
    {as : α → List Addition} {l : List α} (each : ∀ a ∈ l, Plays (f a) (g a) (h a) fun _ => as a) :
    Plays (l.mapM f) (l.mapM g) (l.map h) fun _ => l.flatMap as := by
  induction l with
  | nil => exact pure []
  | cons a l ih =>
    rw [List.mapM_cons, List.mapM_cons, List.map_cons, List.flatMap_cons]
    have rest := ih fun b hb => each b (List.mem_cons_of_mem a hb)
    have last := (rest.bind (f := fun bs => Pure.pure (h a :: bs))
      (g := fun bs => Pure.pure (h a :: bs)) (pure (h a :: l.map h)))
    simp only [List.append_nil] at last
    exact (each a List.mem_cons_self).bind last

theorem now {f : Int → Tried Recording β} {g : Int → Tried InWorld β} {bs : Int → List Addition}
    (h : ∀ time : Int, Plays (f time) (g time) b fun _ => bs time) :
    Plays (Clock.now >>= f) (Clock.now >>= g) b fun time => bs time := by
  intro w record
  obtain ⟨v, w', written, plain, recorded, time, played⟩ := h w.time w record
  exact ⟨v, w', written, plain, recorded, time, played⟩

theorem tell (e : Entry) : Plays (Journal.record e) (Journal.record e) () fun _ => [] := by
  intro w record
  exact ⟨.ok (), _, [], rfl, by rw [List.append_nil]; rfl, rfl, .whole rfl⟩

/-- An operation of the system that adds to the files, and succeeds if that does. -/
theorem attempt {x : Recording (Except SystemError Unit)} {y : InWorld (Except SystemError Unit)}
    {a : Addition} (what : Attempt)
    (h : ∀ w record, ∃ r w', y w = .ok r w' ∧
      x record w = .ok (r, record ++ Addition.files [a]) w' ∧ w'.time = w.time ∧
      a.apply w.files = r.map fun _ => w'.files) :
    Plays (BrokerExam.attempt what x) (BrokerExam.attempt what y) () fun _ => [a] := by
  intro w record
  obtain ⟨r, w', plain, recorded, time, added⟩ := h w record
  refine ⟨_, w', Addition.files [a], run_attempt what plain, recorded_attempt what recorded, time,
    ?_⟩
  cases r with
  | error e =>
    have stopped : w.files.extend [a] = .error e := by
      show a.apply w.files >>= Pure.pure = .error e
      rw [added]
      rfl
    exact .failed _ stopped (List.prefix_refl _)
  | ok u =>
    apply Played.whole
    show a.apply w.files >>= Pure.pure = .ok w'.files
    rw [added]
    rfl

theorem createPath (what : Attempt) (path : String) :
    Plays (BrokerExam.attempt what (Storage.createPath path))
      (BrokerExam.attempt what (Storage.createPath path)) () fun _ => [.directory path] := by
  apply attempt
  intro w record
  let made := w.files.createPath path
  have nothing : record ++ Addition.files [.directory path] = record := List.append_nil record
  exact ⟨made.2, { w with files := made.1 }, rfl, by rw [nothing]; rfl, rfl, rfl⟩

theorem writeFile (what : Attempt) (path : String) (contents : Bytes) :
    Plays (BrokerExam.attempt what (Storage.writeFile path contents))
      (BrokerExam.attempt what (Storage.writeFile path contents)) ()
      fun _ => [.file path contents] := by
  apply attempt
  intro w record
  have recorded {r : Except SystemError Unit} {w' : World}
      (h : World.change (·.write path contents) w = .ok r w') :
      (Storage.writeFile path contents : Recording _) record w = .ok (r, record ++ [path]) w' :=
    bind_of_ok (f := fun r => Pure.pure (r, record ++ [path])) h
  cases done : w.files.write path contents with
  | error e =>
    have changed := change_error (c := (·.write path contents)) done
    exact ⟨_, _, changed, recorded changed, rfl, done⟩
  | ok files =>
    have changed := change_ok (c := (·.write path contents)) done
    exact ⟨_, _, changed, recorded changed, rfl, done⟩

end Plays

end BrokerExam.Rehearsal
