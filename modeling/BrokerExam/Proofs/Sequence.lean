/-
BrokerExam/Proofs/Sequence.lean

How computations end that run one after the other: with what the second makes
of what the first gave, or as the first of them that fails.
-/
namespace BrokerExam

/-! ### Computations with a state -/

section Sequence

variable {ε σ α β : Type} {x : EStateM ε σ α} {f : α → EStateM ε σ β} {s s₁ s₂ : σ} {a : α} {b : β}

theorem bind_of_ok (h : x s = .ok a s₁) : (x >>= f) s = f a s₁ := by
  show EStateM.bind x f s = f a s₁
  rw [EStateM.bind, h]

theorem map_of_ok {g : α → β} (h : x s = .ok a s₁) : (g <$> x) s = .ok (g a) s₁ := by
  show EStateM.map g x s = .ok (g a) s₁
  rw [EStateM.map, h]

theorem bind_of_error {e : ε} (h : x s = .error e s₁) : (x >>= f) s = .error e s₁ := by
  show EStateM.bind x f s = .error e s₁
  rw [EStateM.bind, h]

theorem map_of_error {g : α → β} {e : ε} (h : x s = .error e s₁) :
    (g <$> x) s = .error e s₁ := by
  show EStateM.map g x s = .error e s₁
  rw [EStateM.map, h]

/-- What a successful sequence did first, and then. -/
theorem ok_of_bind (h : (x >>= f) s = .ok b s₂) : ∃ a s₁, x s = .ok a s₁ ∧ f a s₁ = .ok b s₂ := by
  change EStateM.bind x f s = .ok b s₂ at h
  rcases hx : x s with ⟨a, s₁⟩ | ⟨e, s₁⟩
  · rw [EStateM.bind, hx] at h
    exact ⟨a, s₁, rfl, h⟩
  · rw [EStateM.bind, hx] at h
    cases h

theorem ok_of_map {g : α → β} (h : (g <$> x) s = .ok b s₂) : ∃ a, x s = .ok a s₂ ∧ g a = b := by
  change EStateM.map g x s = .ok b s₂ at h
  rcases hx : x s with ⟨a, s₁⟩ | ⟨e, s₁⟩
  · rw [EStateM.map, hx] at h
    obtain ⟨rfl, rfl⟩ := EStateM.Result.ok.inj h
    exact ⟨a, rfl, rfl⟩
  · rw [EStateM.map, hx] at h
    cases h

/-- Where a sequence failed: in what it did first, or then. -/
theorem error_of_bind {e : ε} (h : (x >>= f) s = .error e s₂) :
    x s = .error e s₂ ∨ ∃ a s₁, x s = .ok a s₁ ∧ f a s₁ = .error e s₂ := by
  change EStateM.bind x f s = .error e s₂ at h
  rcases hx : x s with ⟨a, s₁⟩ | ⟨e', s₁⟩
  · rw [EStateM.bind, hx] at h
    exact .inr ⟨a, s₁, rfl, h⟩
  · rw [EStateM.bind, hx] at h
    obtain ⟨rfl, rfl⟩ := EStateM.Result.error.inj h
    exact .inl rfl

theorem error_of_map {g : α → β} {e : ε} (h : (g <$> x) s = .error e s₂) : x s = .error e s₂ := by
  change EStateM.map g x s = .error e s₂ at h
  rcases hx : x s with ⟨a, s₁⟩ | ⟨e', s₁⟩
  · rw [EStateM.map, hx] at h
    cases h
  · rw [EStateM.map, hx] at h
    obtain ⟨rfl, rfl⟩ := EStateM.Result.error.inj h
    rfl

end Sequence

/-! ### Computations with a state that can fail -/

section Failing

variable {ε η σ α β : Type} {x : ExceptT η (EStateM ε σ) α} {f : α → ExceptT η (EStateM ε σ) β}
  {s s' : σ} {a : α}

theorem run_bind_of_ok (h : x.run s = .ok (.ok a) s') : (x >>= f).run s = (f a).run s' :=
  bind_of_ok h

theorem run_bind_of_error {e : η} (h : x.run s = .ok (.error e) s') :
    (x >>= f).run s = .ok (.error e) s' := bind_of_ok h

/-- What a successful sequence did first, and then. -/
theorem ok_of_run_bind {b : β} (h : (x >>= f).run s = .ok (.ok b) s') :
    ∃ a s₁, x.run s = .ok (.ok a) s₁ ∧ (f a).run s₁ = .ok (.ok b) s' := by
  obtain ⟨r, s₁, first, rest⟩ := ok_of_bind h
  cases r with
  | error e => cases rest
  | ok a => exact ⟨a, s₁, first, rest⟩

theorem run_lift_of_ok {y : EStateM ε σ α} (h : y s = .ok a s') :
    (ExceptT.lift y : ExceptT η (EStateM ε σ) α).run s = .ok (.ok a) s' := map_of_ok h

/-- A computation over a list leaves the state alone if it does for each member. -/
theorem run_mapM {g : α → Except η β} {xs : List α} (each : ∀ x ∈ xs, (f x).run s = .ok (g x) s) :
    (xs.mapM f).run s = .ok (xs.mapM g) s := by
  induction xs with
  | nil => rfl
  | cons x xs ih =>
    have first := each x List.mem_cons_self
    have others := ih fun y hy => each y (List.mem_cons_of_mem x hy)
    rw [List.mapM_cons, List.mapM_cons]
    cases told : g x with
    | error e =>
      rw [told] at first
      exact run_bind_of_error first
    | ok b =>
      rw [told] at first
      rw [run_bind_of_ok first]
      cases rest : xs.mapM g with
      | error e =>
        rw [rest] at others
        exact run_bind_of_error others
      | ok bs =>
        rw [rest] at others
        exact run_bind_of_ok others

theorem run_mapM_of_ok {g : α → β} {xs : List α}
    (each : ∀ x ∈ xs, (f x).run s = .ok (.ok (g x)) s) :
    (xs.mapM f).run s = .ok (.ok (xs.map g)) s := by
  rw [run_mapM each]
  exact congrArg (EStateM.Result.ok · s) List.mapM_pure

end Failing

/-! ### Computations and their ends -/

section Ends

variable {ε η σ α β : Type} {w w' : σ} {x : ExceptT η (EStateM ε σ) α}
  {f : α → ExceptT η (EStateM ε σ) β} {a : α} {P : α → σ → Prop} {Q : Except η β → σ → Prop}

/-- From the state the computation ends with an outcome and a state that are as `Q` says. -/
def Ends (w : σ) (x : ExceptT η (EStateM ε σ) α) (Q : Except η α → σ → Prop) : Prop :=
  ∃ v w', x.run w = .ok v w' ∧ Q v w'

/-- From the state the computation succeeds, with a result and a state that are as `P` says. -/
abbrev Succeeds (w : σ) (x : ExceptT η (EStateM ε σ) α) (P : α → σ → Prop) : Prop :=
  Ends w x fun v w' => ∃ a, v = .ok a ∧ P a w'

theorem Succeeds.pure (h : P a w) : Succeeds w (Pure.pure a : ExceptT η (EStateM ε σ) α) P :=
  ⟨.ok a, w, rfl, a, rfl, h⟩

theorem Ends.mono {R R' : Except η α → σ → Prop} (hx : Ends w x R)
    (weaker : ∀ v w', R v w' → R' v w') : Ends w x R' := by
  obtain ⟨v, w', run, h⟩ := hx
  exact ⟨v, w', run, weaker v w' h⟩

theorem Ends.step (run : x.run w = .ok (.ok a) w') (next : Ends w' (f a) Q) :
    Ends w (x >>= f) Q := by
  obtain ⟨v, w₂, run', h⟩ := next
  exact ⟨v, w₂, (run_bind_of_ok run).trans run', h⟩

theorem Ends.bind {R : Except η α → σ → Prop} (hx : Ends w x R)
    (stop : ∀ e w', R (.error e) w' → Q (.error e) w')
    (next : ∀ a w', R (.ok a) w' → Ends w' (f a) Q) : Ends w (x >>= f) Q := by
  obtain ⟨e | a, w₁, run, h⟩ := hx
  · exact ⟨.error e, w₁, run_bind_of_error run, stop e w₁ h⟩
  · exact Ends.step run (next a w₁ h)

theorem Succeeds.bind (hx : Succeeds w x P) (next : ∀ a w', P a w' → Ends w' (f a) Q) :
    Ends w (x >>= f) Q := by
  refine Ends.bind hx (fun e w₁ h => ?_) fun a w₁ h => ?_
  · obtain ⟨_, same, -⟩ := h
    cases same
  · obtain ⟨_, same, h⟩ := h
    cases same
    exact next a w₁ h

end Ends

/-! ### Results -/

section Results

variable {ε ε' α β : Type} {x : Except ε α} {f : α → Except ε β} {b : β}

theorem Except.bind_eq_ok_iff : (x >>= f) = .ok b ↔ ∃ a, x = .ok a ∧ f a = .ok b := by
  cases x with
  | error e =>
    constructor
    · intro h
      cases h
    · rintro ⟨a, h, -⟩
      cases h
  | ok a =>
    constructor
    · exact fun h => ⟨a, rfl, h⟩
    · rintro ⟨a', h, h'⟩
      obtain rfl := Except.ok.inj h
      exact h'

theorem Except.mapError_eq_ok_iff {g : ε → ε'} {a : α} : x.mapError g = .ok a ↔ x = .ok a := by
  cases x with
  | error e =>
    constructor
    · intro h
      cases h
    · intro h
      cases h
  | ok a' => exact ⟨fun h => congrArg _ (Except.ok.inj h), fun h => congrArg _ (Except.ok.inj h)⟩

/-- A computation over a list succeeds if it does for each member. -/
theorem forM_ok_iff {xs : List α} {f : α → Except ε Unit} :
    forM xs f = .ok () ↔ ∀ x ∈ xs, f x = .ok () := by
  induction xs with
  | nil => exact ⟨nofun, fun _ => rfl⟩
  | cons x xs ih =>
    rw [List.forM_cons, Except.bind_eq_ok_iff, List.forall_mem_cons, ih]
    exact ⟨fun ⟨_, first, others⟩ => ⟨first, others⟩, fun ⟨first, others⟩ => ⟨(), first, others⟩⟩

/-- A computation over a list fails as it does for the first member for which it fails. -/
theorem forM_error_iff {xs : List α} {f : α → Except ε Unit} {e : ε} :
    forM xs f = .error e ↔ ∃ before x after, xs = before ++ x :: after ∧
      (∀ b ∈ before, f b = .ok ()) ∧ f x = .error e := by
  induction xs with
  | nil =>
    constructor
    · nofun
    · rintro ⟨before, x, after, split, -⟩
      cases before <;> cases split
  | cons y ys ih =>
    rw [List.forM_cons]
    cases first : f y with
    | error e' =>
      constructor
      · intro failed
        exact ⟨[], y, ys, rfl, nofun, first.trans failed⟩
      · rintro ⟨before, x, after, split, fine, failed⟩
        cases before with
        | nil =>
          cases split
          exact first.symm.trans failed
        | cons b before =>
          cases split
          cases first.symm.trans (fine y List.mem_cons_self)
    | ok u =>
      refine Iff.trans ih ?_
      constructor
      · rintro ⟨before, x, after, rfl, fine, failed⟩
        exact ⟨y :: before, x, after, rfl, List.forall_mem_cons.2 ⟨first, fine⟩, failed⟩
      · rintro ⟨before, x, after, split, fine, failed⟩
        cases before with
        | nil =>
          cases split
          cases first.symm.trans failed
        | cons b before =>
          cases split
          exact ⟨before, x, after, rfl, (List.forall_mem_cons.1 fine).2, failed⟩

theorem Except.map_eq_error_iff {g : α → β} {e : ε} : x.map g = .error e ↔ x = .error e := by
  cases x with
  | error e' =>
    exact ⟨fun h => congrArg _ (Except.error.inj h), fun h => congrArg _ (Except.error.inj h)⟩
  | ok a => exact ⟨nofun, nofun⟩

theorem Except.exists_map_eq_ok_iff {g : α → β} :
    (∃ b, x.map g = .ok b) ↔ ∃ a, x = .ok a := by
  cases x with
  | error e => exact ⟨nofun, nofun⟩
  | ok a => exact ⟨fun _ => ⟨a, rfl⟩, fun _ => ⟨g a, rfl⟩⟩

/-- Whether a computation succeeds, and how it fails otherwise. -/
def success (x : Except ε α) : Except ε Unit := x.map fun _ => ()

theorem success_eq_ok_iff : success x = .ok () ↔ ∃ a, x = .ok a :=
  Iff.trans ⟨fun h => ⟨(), h⟩, fun ⟨_, h⟩ => h⟩ Except.exists_map_eq_ok_iff

theorem success_eq_error_iff {e : ε} : success x = .error e ↔ x = .error e :=
  Except.map_eq_error_iff

theorem success_mapM (xs : List α) (f : α → Except ε β) :
    success (xs.mapM f) = forM xs fun x => success (f x) := by
  induction xs with
  | nil => rfl
  | cons x xs ih =>
    rw [List.mapM_cons, List.forM_cons, ← ih]
    cases f x with
    | error e => rfl
    | ok b => cases xs.mapM f <;> rfl

theorem mapM_ok_iff {xs : List α} {f : α → Except ε β} :
    (∃ bs, xs.mapM f = .ok bs) ↔ ∀ x ∈ xs, ∃ b, f x = .ok b := by
  rw [← success_eq_ok_iff, success_mapM, forM_ok_iff]
  simp only [success_eq_ok_iff]

theorem mapM_error_iff {xs : List α} {f : α → Except ε β} {e : ε} :
    xs.mapM f = .error e ↔ ∃ before x after, xs = before ++ x :: after ∧
      (∀ y ∈ before, ∃ b, f y = .ok b) ∧ f x = .error e := by
  rw [← success_eq_error_iff, success_mapM, forM_error_iff]
  simp only [success_eq_ok_iff, success_eq_error_iff]

end Results

end BrokerExam
