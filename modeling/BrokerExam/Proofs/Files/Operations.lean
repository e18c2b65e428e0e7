/-
BrokerExam/Proofs/Files/Operations.lean

What the operations on a tree of files do to it.  Writing a file and making
directories change the tree at places that can be told beforehand, and nowhere
else (`Extends`); so a file is read back for as long as nothing is written in its
place (`Extends.read`), and what is sound stays sound.
-/
import BrokerExam.Proofs.Files.Tree
import BrokerExam.Proofs.Sequence

namespace BrokerExam.Files.Tree

variable {t t' t'' : Tree} {path : String} {l place : Location} {name : String}
  {names : List String}

/-! ### Walks -/

theorem step_eq_ok_iff : t.step place name = .ok l ↔
    t.node? place = some .directory ∧
      (name = ".." ∧ l = place.dropLast ∨
        name ≠ ".." ∧ name.utf8ByteSize ≤ maxNameBytes ∧ l = place ++ [name]) := by
  rw [step]
  split
  · next none => simp [none]
  · next file => simp [file]
  · next directory =>
    rw [directory]
    split
    · next back => simp [back, eq_comm]
    · next onward =>
      split
      · next long => simp [onward]; omega
      · next short => simp [onward, eq_comm]; omega

theorem walk_cons : t.walk place (name :: names) = t.step place name >>= (t.walk · names) := rfl

theorem walk_append (front back : List String) :
    t.walk place (front ++ back) = t.walk place front >>= (t.walk · back) := by
  induction front generalizing place with
  | nil => rfl
  | cons name front ih =>
    rw [List.cons_append, walk_cons, walk_cons]
    cases t.step place name with
    | error e => rfl
    | ok l => exact ih

theorem walk_eq (h : t.walk place names = .ok l) : l = follow place names := by
  induction names generalizing place with
  | nil => exact (Except.ok.inj h).symm
  | cons name names ih =>
    obtain ⟨next, first, rest⟩ := Except.bind_eq_ok_iff.1 (walk_cons ▸ h)
    have behind := ih rest
    obtain ⟨-, ⟨rfl, rfl⟩ | ⟨onward, -, rfl⟩⟩ := step_eq_ok_iff.1 first
    · exact behind
    · rw [← List.singleton_append, follow_append, follow_singleton onward]
      exact behind

/-- The last step of a walk starts from a directory. -/
theorem walk_concat (h : t.walk place (names ++ [name]) = .ok l) :
    t.walk place names = .ok (follow place names) ∧
      t.step (follow place names) name = .ok l := by
  rw [walk_append] at h
  obtain ⟨before, front, rest⟩ := Except.bind_eq_ok_iff.1 h
  obtain ⟨l', last, done⟩ := Except.bind_eq_ok_iff.1 (walk_cons ▸ rest)
  obtain rfl := Except.ok.inj done
  obtain rfl := walk_eq front
  exact ⟨front, last⟩

/-- Through directories that stay a walk leads where it led. -/
theorem walk_kept (kept : ∀ l, t.node? l = some .directory → t'.node? l = some .directory)
    (h : t.walk place names = .ok l) : t'.walk place names = .ok l := by
  induction names generalizing place with
  | nil => exact h
  | cons name names ih =>
    obtain ⟨next, first, rest⟩ := Except.bind_eq_ok_iff.1 (walk_cons ▸ h)
    obtain ⟨directory, way⟩ := step_eq_ok_iff.1 first
    have again : t'.step place name = .ok next := step_eq_ok_iff.2 ⟨kept _ directory, way⟩
    rw [walk_cons, again]
    exact ih rest

/-- Where nothing leads back, directories all along are a way, if no name is too long. -/
theorem walk_onward (onward : ".." ∉ names)
    (short : ∀ name ∈ names, name.utf8ByteSize ≤ maxNameBytes)
    (directories : ∀ l, place <+: l → Below l (place ++ names) → t.node? l = some .directory) :
    t.walk place names = .ok (place ++ names) := by
  induction names generalizing place with
  | nil => rw [List.append_nil, walk]
  | cons name names ih =>
    rw [List.mem_cons, not_or] at onward
    rw [List.forall_mem_cons] at short
    have here : Below place (place ++ name :: names) :=
      ⟨List.prefix_append _ _, fun same => by simp at same⟩
    have first : t.step place name = .ok (place ++ [name]) := step_eq_ok_iff.2
      ⟨directories place (List.prefix_refl _) here, .inr ⟨Ne.symm onward.1, short.1, rfl⟩⟩
    have whole : place ++ name :: names = place ++ [name] ++ names := by simp
    rw [walk_cons, first, whole]
    apply ih onward.2 short.2
    intro l above below
    exact directories l ((List.prefix_append _ _).trans above) (whole ▸ below)

/-- In a sound tree, a walk that does not end at a directory takes a step down at its end. -/
theorem parent_of_walk (sound : t.Sound) (h : t.walk place (names ++ [name]) = .ok l)
    (other : t.node? l ≠ some .directory) :
    l ≠ [] ∧ t.node? l.dropLast = some .directory := by
  obtain ⟨-, last⟩ := walk_concat h
  obtain ⟨directory, ⟨rfl, rfl⟩ | ⟨-, -, rfl⟩⟩ := step_eq_ok_iff.1 last
  · -- what a directory stands in is a directory itself
    exfalso
    apply other
    by_cases root : follow place names = []
    · rw [root]
      rfl
    · exact sound.above _ root (by rw [directory]; exact fun none => by cases none)
  · rw [List.dropLast_concat]
    exact ⟨List.append_ne_nil_of_right_ne_nil _ (List.cons_ne_nil _ _), directory⟩

/-! ### Paths -/

/-- A path that does not say that a directory is meant has a last component. -/
theorem components_ne_nil (h : endsAsDirectory path = false) : components path ≠ [] := by
  intro none
  rw [endsAsDirectory, endsInSelf, Bool.or_eq_false_iff] at h
  have some : pieces path ≠ [] := fun none =>
    Text.split_ne_nil '/' path.toList (List.map_eq_nil_iff.1 none)
  rw [decide_eq_false_iff_not, decide_eq_false_iff_not, List.getLast?_eq_some_getLast some,
    Option.some.injEq, Option.some.injEq] at h
  have last : leads ((pieces path).getLast some) := by simp [leads, h.1, h.2]
  have mem := List.mem_filter.2 ⟨List.getLast_mem some, last⟩
  rw [components] at none
  exact List.not_mem_nil (none ▸ mem)

/-- The text of the path is one that the system takes. -/
structure Acceptable (path : String) : Prop where
  some : path ≠ ""
  zero : '\x00' ∉ path.toList
  short : path.utf8ByteSize ≤ maxPathBytes

theorem locate_eq_ok_iff : t.locate path = .ok l ↔
    Acceptable path ∧ t.walk (t.start path) (components path) = .ok l := by
  rw [locate]
  split
  · next empty => exact iff_of_false (fun h => by cases h) fun h => h.1.some empty
  · next some =>
    split
    · next zero =>
      exact iff_of_false (fun h => by cases h) fun h => h.1.zero (List.contains_iff_mem.1 zero)
    · next zero =>
      split
      · next long => exact iff_of_false (fun h => by cases h) fun h => by have := h.1.short; omega
      · next short =>
        have fine : Acceptable path :=
          ⟨some, fun mem => zero (List.contains_iff_mem.2 mem), by omega⟩
        exact (and_iff_right fine).symm

theorem destination_of_locate (h : t.locate path = .ok l) : l = t.destination path :=
  walk_eq (locate_eq_ok_iff.1 h).2

theorem acceptable_of_join {dir : String} (plain : Plain name) (some : dir ≠ "")
    (h : Acceptable (join dir name)) : Acceptable dir where
  some := some
  zero := by
    obtain ⟨rest, joined⟩ := exists_join_eq plain.relative dir
    intro mem
    apply h.zero
    rw [joined, String.toList_append]
    exact List.mem_append_left _ mem
  short := by
    obtain ⟨rest, joined⟩ := exists_join_eq plain.relative dir
    have short := h.short
    rw [joined, String.utf8ByteSize_append] at short
    omega

/-- What leads to a name in a directory leads to the directory. -/
theorem locate_of_join {dir : String} (plain : Plain name) (some : dir ≠ "")
    (h : t.locate (join dir name) = .ok l) :
    t.locate dir = .ok (t.destination dir) ∧
      t.node? (t.destination dir) = Option.some .directory := by
  obtain ⟨fine, walk⟩ := locate_eq_ok_iff.1 h
  rw [start_join plain.relative, components_join plain.relative, plain.components_eq] at walk
  obtain ⟨front, last⟩ := walk_concat walk
  exact ⟨locate_eq_ok_iff.2 ⟨acceptable_of_join plain some fine, front⟩,
    (step_eq_ok_iff.1 last).1⟩

/-! ### One operation -/

variable {bs : Bytes}

theorem find_directory (h : t.locate path = .ok l) (there : t.node? l = some .directory) :
    t.find path = .ok (l, .directory) := by
  rw [find, h]
  refine (pure_bind l _).trans ?_
  rw [there]
  rfl

theorem read_eq_ok_iff : t.read path = .ok bs ↔
    t.locate path = .ok (t.destination path) ∧
      t.node? (t.destination path) = some (.file bs) ∧ endsAsDirectory path = false := by
  rw [read, find]
  cases located : t.locate path with
  | error e => exact iff_of_false (fun h => by cases h) fun h => by cases h.1
  | ok l =>
    obtain rfl := destination_of_locate located
    rw [and_iff_right rfl]
    rw [show ∀ f, (Except.ok (t.destination path) >>= f) = f (t.destination path) from pure_bind _]
    rcases t.node? (t.destination path) with _ | contents | _
    · exact iff_of_false (fun h => by cases h) fun h => by cases h.1
    · dsimp only
      split
      · next ending => exact iff_of_false (fun h => by cases h) fun h => by simp [ending] at h
      · next ending =>
        have file : endsAsDirectory path = false := Bool.eq_false_iff.2 ending
        rw [and_iff_left file]
        exact ⟨fun h => congrArg _ (congrArg _ (Except.ok.inj h)),
          fun h => congrArg _ (Node.file.inj (Option.some.inj h))⟩
    · exact iff_of_false (fun h => by cases h) fun h => by cases h.1

theorem ok_of_write (h : t.write path bs = .ok t') :
    t.locate path = .ok (t.destination path) ∧
      t.node? (t.destination path) ≠ some .directory ∧ endsAsDirectory path = false ∧
      t' = t.put (t.destination path) (.file bs) := by
  obtain ⟨l, located, rest⟩ := Except.bind_eq_ok_iff.1 h
  obtain rfl := destination_of_locate located
  have written (missing : SystemError)
      (h : write.unlessDirectory t path bs (t.destination path) missing = .ok t') :
      endsAsDirectory path = false ∧ t' = t.put (t.destination path) (.file bs) := by
    rw [write.unlessDirectory] at h
    split at h
    · cases h
    · split at h
      · cases h
      · next file => exact ⟨Bool.eq_false_iff.2 file, (Except.ok.inj h).symm⟩
  refine ⟨located, ?_⟩
  split at rest
  · cases rest
  · next file => exact ⟨by simp [file], written _ rest⟩
  · next none => exact ⟨by simp [none], written _ rest⟩

theorem ok_of_find {n : Node} (h : t.find path = .ok (l, n)) :
    t.locate path = .ok (t.destination path) ∧ l = t.destination path ∧ t.node? l = some n := by
  obtain ⟨l', located, there⟩ := Except.bind_eq_ok_iff.1 h
  obtain rfl := destination_of_locate located
  refine ⟨located, ?_⟩
  split at there
  · cases there
  · next directory =>
    obtain ⟨rfl, rfl⟩ := Prod.mk.inj (Except.ok.inj there)
    exact ⟨rfl, directory⟩
  · next file =>
    split at there
    · cases there
    · obtain ⟨rfl, rfl⟩ := Prod.mk.inj (Except.ok.inj there)
      exact ⟨rfl, file⟩

theorem ok_of_removeDirectory (h : t.removeDirectory path = .ok t') :
    t' = t.cut (t.destination path) := by
  obtain ⟨⟨l, n⟩, found, rest⟩ := Except.bind_eq_ok_iff.1 h
  obtain ⟨-, rfl, -⟩ := ok_of_find found
  cases n with
  | file contents => cases rest
  | directory =>
    dsimp only at rest
    split at rest
    · cases rest
    · exact (Except.ok.inj rest).symm

theorem ok_of_createDirectory {start : Location} (h : t.createDirectory start names = .ok t') :
    t.walk start names = .ok (follow start names) ∧ t.node? (follow start names) = none ∧
      t' = t.put (follow start names) .directory := by
  obtain ⟨l, walked, rest⟩ := Except.bind_eq_ok_iff.1 h
  obtain rfl := walk_eq walked
  split at rest
  · cases rest
  · next none => exact ⟨walked, none, (Except.ok.inj rest).symm⟩

/-! ### What is added -/

/-- The second tree is the first one, with directories where nothing was, and with files instead of
other files or of nothing. -/
structure Extends (made written : Location → Prop) (t t' : Tree) : Prop where
  current : t'.current = t.current
  node : ∀ l, t'.node? l = t.node? l ∨
    made l ∧ t.node? l = none ∧ t'.node? l = some .directory ∨
    written l ∧ t.node? l ≠ some .directory ∧ ∃ bs, t'.node? l = some (.file bs)
  sound : t.Sound → t'.Sound

namespace Extends

variable {made written made' written' : Location → Prop}

theorem refl (t : Tree) : Extends made written t t := ⟨rfl, fun _ => .inl rfl, id⟩

theorem directory (h : Extends made written t t') (there : t.node? l = some .directory) :
    t'.node? l = some .directory := by
  rcases h.node l with same | ⟨-, none, -⟩ | ⟨-, other, -⟩
  · rw [same, there]
  · rw [there] at none
    cases none
  · exact absurd there other

theorem mono (h : Extends made written t t') (hm : ∀ l, made l → made' l)
    (hw : ∀ l, written l → written' l) : Extends made' written' t t' where
  current := h.current
  node := fun l => (h.node l).imp_right fun changed =>
    changed.imp (fun m => ⟨hm l m.1, m.2⟩) fun w => ⟨hw l w.1, w.2⟩
  sound := h.sound

theorem trans (h : Extends made written t t') (h' : Extends made written t' t'') :
    Extends made written t t'' where
  current := h'.current.trans h.current
  node := by
    intro l
    rcases h'.node l with same | ⟨m, none, directory⟩ | ⟨w, other, file⟩
    · rw [same]
      exact h.node l
    · rcases h.node l with same | ⟨-, -, directory'⟩ | ⟨-, -, bs, file'⟩
      · exact .inr (.inl ⟨m, same ▸ none, directory⟩)
      · rw [none] at directory'
        cases directory'
      · rw [none] at file'
        cases file'
    · -- a directory before would be one still
      exact .inr (.inr ⟨w, fun before => other (h.directory before), file⟩)
  sound := h'.sound ∘ h.sound

/-- A file is read back for as long as nothing is written in its place. -/
theorem read (h : Extends made written t t') (free : ¬ written (t.destination path))
    (r : t.read path = .ok bs) : t'.read path = .ok bs := by
  obtain ⟨located, file, ending⟩ := read_eq_ok_iff.1 r
  rw [read_eq_ok_iff, destination_congr h.current]
  obtain ⟨fine, walked⟩ := locate_eq_ok_iff.1 located
  refine ⟨locate_eq_ok_iff.2 ⟨fine, ?_⟩, ?_, ending⟩
  · rw [start, h.current]
    exact walk_kept (fun _ there => h.directory there) walked
  · rcases h.node (t.destination path) with same | ⟨-, none, -⟩ | ⟨w, -⟩
    · rw [same, file]
    · rw [file] at none
      cases none
    · exact absurd w free

end Extends

section Additions

variable {made written : Location → Prop}

theorem extends_write (h : t.write path bs = .ok t') :
    Extends made (· = t.destination path) t t' := by
  obtain ⟨located, other, ending, rfl⟩ := ok_of_write h
  have walked := (locate_eq_ok_iff.1 located).2
  have way := (List.dropLast_concat_getLast (components_ne_nil ending)).symm
  constructor
  · rw [put]
    split <;> rfl
  · intro l
    rw [node?_put]
    split
    · next here => exact .inr (.inr ⟨here.1, here.1 ▸ other, bs, rfl⟩)
    · exact .inl rfl
  · -- the file stands in the directory that the last step started from
    intro sound
    rw [way] at walked
    obtain ⟨inside, parent⟩ := parent_of_walk sound walked other
    exact sound.put inside parent fun directory => absurd directory other

theorem extends_createDirectory {start : Location} (some : names ≠ [])
    (h : t.createDirectory start names = .ok t') :
    Extends (· = follow start names) written t t' := by
  obtain ⟨walked, none, rfl⟩ := ok_of_createDirectory h
  have way := (List.dropLast_concat_getLast some).symm
  constructor
  · rw [put]
    split <;> rfl
  · intro l
    rw [node?_put]
    split
    · next here => exact .inr (.inl ⟨here.1, here.1 ▸ none, rfl⟩)
    · exact .inl rfl
  · intro sound
    rw [way] at walked
    rw [way] at none
    obtain ⟨inside, parent⟩ := parent_of_walk sound walked (by rw [none]; exact fun h => by cases h)
    rw [way]
    exact sound.put inside parent fun _ => rfl

/-- Each directory that is made is on the way, also where not all of them can be made. -/
theorem extends_createDirectories (start : Location) (back : List String) (t : Tree) :
    Extends (OnWay start back.reverse) written t (createDirectories start back t).1 := by
  induction back generalizing t with
  | nil => exact .refl t
  | cons name before ih =>
    have some : (name :: before).reverse ≠ [] := by simp
    have longer : before.reverse <+: (name :: before).reverse := by
      rw [List.reverse_cons]
      exact List.prefix_append _ _
    unfold createDirectories
    extract_lets names settle
    -- at the end of the way the directory is made, or is there already
    have settled (t : Tree) : Extends (OnWay start names) written t (settle t).1 := by
      dsimp only [settle]
      split
      · next t' made =>
        apply (extends_createDirectory some made).mono _ fun _ => id
        exact fun l here => ⟨names, List.prefix_refl _, here⟩
      · split
        · exact .refl t
        · exact .refl t
    split
    · -- what is missing on the way is made first
      have earlier : Extends (OnWay start names) written t (createDirectories start before t).1 :=
        (ih t).mono (fun l h => h.longer longer) fun _ => id
      split
      · next t' made =>
        rw [made] at earlier
        exact earlier.trans (settled t')
      · exact earlier
    · exact settled t

theorem extends_createPath (t : Tree) (path : String) :
    Extends (t.Passes path) written t (t.createPath path).1 := by
  unfold createPath
  extract_lets start
  split
  · exact .refl t
  split
  · exact .refl t
  split
  · -- what ends in the name that a directory has for itself
    have made : Extends (OnWay start (components path).dropLast.reverse.reverse) written t _ :=
      extends_createDirectories start (components path).dropLast.reverse t
    rw [List.reverse_reverse] at made
    have whole : Extends (t.Passes path) written t
        (createDirectories start (components path).dropLast.reverse t).1 :=
      made.mono (fun l h => h.longer (List.dropLast_prefix _)) fun _ => id
    split
    · next t' ok =>
      rw [ok] at whole
      exact whole
    · exact whole
  · have made : Extends (OnWay start (components path).reverse.reverse) written t _ :=
      extends_createDirectories start (components path).reverse t
    rw [List.reverse_reverse] at made
    exact made

end Additions

end BrokerExam.Files.Tree
