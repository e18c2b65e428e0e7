/-
BrokerExam/Proofs/Files/Path.lean

What a path goes through, for a path that is put together from others: behind a
directory come the components of the name (`components_join`), and the path of
what holds the last component goes the same way as far as that
(`components_parent`).
-/
import BrokerExam.Files.Path
import BrokerExam.Proofs.Text.Split

namespace BrokerExam

namespace Files

/-- The piece is a component: it leads somewhere. -/
def leads (piece : String) : Bool := piece ≠ "" && piece ≠ "."

/-- A name as it can stand in a directory. -/
structure Plain (name : String) : Prop where
  separator : '/' ∉ name.toList
  leads : leads name
  onward : name ≠ ".."

/-! ### Paths below others -/

theorem pieces_append (front back : String) :
    pieces (front ++ "/" ++ back) = pieces front ++ pieces back := by
  have chars : (front ++ "/" ++ back).toList = front.toList ++ '/' :: back.toList := by
    rw [String.toList_append, String.toList_append, List.append_assoc]
    rfl
  rw [pieces, chars, Text.split_append, List.map_append]
  rfl

theorem components_append (front back : String) :
    components (front ++ "/" ++ back) = components front ++ components back := by
  rw [components, pieces_append, List.filter_append]
  rfl

theorem components_empty : components "" = [] := rfl

/-- A name that is relative stands behind the directory, whatever the directory is. -/
theorem join_cases {name : String} (relative : isAbsolute name = false) (dir : String) :
    (dir = "" ∧ join dir name = name) ∨
    (∃ front, dir = front ++ "/" ++ "" ∧ join dir name = front ++ "/" ++ name) ∨
    (dir ≠ "" ∧ join dir name = dir ++ "/" ++ name) := by
  rw [join, relative, Bool.false_or]
  by_cases empty : dir = ""
  · subst empty
    exact .inl ⟨rfl, rfl⟩
  · rw [if_neg (fun h => empty (String.isEmpty_iff.1 h))]
    split
    · next last =>
      obtain ⟨front, chars⟩ := List.getLast?_eq_some_iff.1 last
      have eq : dir = String.ofList front ++ "/" := by
        rw [← String.toList_inj, String.toList_append, String.toList_ofList, chars]
        rfl
      refine .inr (.inl ⟨String.ofList front, ?_, ?_⟩)
      · rw [eq, String.append_empty]
      · rw [eq]
    · exact .inr (.inr ⟨empty, rfl⟩)

/-- **Behind a directory comes what the name goes through.** -/
theorem components_join {name : String} (relative : isAbsolute name = false) (dir : String) :
    components (join dir name) = components dir ++ components name := by
  obtain ⟨rfl, joined⟩ | ⟨front, rfl, joined⟩ | ⟨-, joined⟩ := join_cases relative dir
  · rw [joined, components_empty, List.nil_append]
  · rw [joined, components_append, components_append, components_empty, List.append_nil]
  · rw [joined, components_append]

theorem exists_join_eq {name : String} (relative : isAbsolute name = false) (dir : String) :
    ∃ rest, join dir name = dir ++ rest := by
  obtain ⟨rfl, joined⟩ | ⟨front, rfl, joined⟩ | ⟨-, joined⟩ := join_cases relative dir
  · exact ⟨name, joined.trans String.empty_append.symm⟩
  · exact ⟨name, by rw [joined, String.append_empty]⟩
  · exact ⟨"/" ++ name, joined.trans String.append_assoc⟩

theorem isAbsolute_join {name : String} (relative : isAbsolute name = false) (dir : String) :
    isAbsolute (join dir name) = isAbsolute dir := by
  by_cases empty : dir = ""
  · subst empty
    have joined : join "" name = name := by
      rw [join, relative]
      rfl
    rw [joined, relative]
    rfl
  · obtain ⟨rest, joined⟩ := exists_join_eq relative dir
    obtain ⟨c, cs, chars⟩ := List.exists_cons_of_ne_nil fun none =>
      empty (String.toList_eq_nil_iff.1 none)
    rw [joined, isAbsolute, isAbsolute, String.toList_append, chars]
    rfl

/-! ### Plain names -/

namespace Plain

variable {name : String}

theorem relative (h : Plain name) : isAbsolute name = false := by
  apply decide_eq_false
  intro head
  exact h.separator (List.mem_of_head? head)

theorem components_eq (h : Plain name) : components name = [name] := by
  rw [components, pieces, Text.split_eq_singleton h.separator, List.map_singleton,
    String.ofList_toList]
  exact List.filter_cons_of_pos h.leads

theorem join_ne_empty (h : Plain name) (dir : String) : join dir name ≠ "" := by
  intro empty
  have way := components_join h.relative dir
  rw [empty, components_empty, h.components_eq] at way
  exact List.append_ne_nil_of_right_ne_nil _ (List.cons_ne_nil _ _) way.symm

end Plain

/-! ### What holds the last component -/

/-- A path is absolute if its first piece is empty, and not all that there is. -/
theorem isAbsolute_iff {path : String} :
    isAbsolute path = true ↔ (pieces path).head? = some "" ∧ pieces path ≠ [""] := by
  rw [isAbsolute, decide_eq_true_eq, pieces]
  cases path.toList with
  | nil => exact iff_of_false (fun h => by cases h) fun h => h.2 rfl
  | cons c cs =>
    rw [Text.split, List.head?_cons, Option.some.injEq]
    split
    · next slash =>
      refine iff_of_true slash ⟨rfl, fun same => ?_⟩
      exact Text.split_ne_nil '/' cs (List.map_eq_nil_iff.1 (List.cons.inj same).2)
    · next other =>
      -- the first piece has at least the first character
      refine iff_of_false other ?_
      rintro ⟨empty, -⟩
      have some (chars : List Char) : String.ofList (c :: chars) ≠ "" := by
        intro none
        cases String.toList_ofList.symm.trans (congrArg String.toList none)
      split at empty
      · exact some _ (Option.some.inj empty)
      · exact some _ (Option.some.inj empty)

theorem pieces_intercalate {parts : List String} (some : parts ≠ [])
    (h : ∀ part ∈ parts, '/' ∉ part.toList) : pieces ("/".intercalate parts) = parts := by
  have apart : ∀ part ∈ parts.map String.toList, '/' ∉ part := by
    intro part hp
    obtain ⟨p, mem, rfl⟩ := List.mem_map.1 hp
    exact h p mem
  rw [pieces, String.toList_intercalate]
  show ((Text.split '/' (['/'].intercalate (parts.map String.toList))).map String.ofList) = parts
  rw [Text.split_intercalate (fun none => some (List.map_eq_nil_iff.1 none)) apart, List.map_map]
  exact (List.map_congr_left fun p _ => String.ofList_toList).trans parts.map_id

theorem separator_of_mem_pieces {path piece : String} (h : piece ∈ pieces path) :
    '/' ∉ piece.toList := by
  obtain ⟨part, mem, rfl⟩ := List.mem_map.1 h
  rw [String.toList_ofList]
  exact Text.not_mem_of_mem_split mem

theorem trimmed_suffix (back : List String) : trimmed back <:+ back := by
  fun_induction trimmed back with
  | case1 => exact List.suffix_refl _
  | case2 => exact List.suffix_refl _
  | case3 last rest _ _ ih => exact ih.trans (List.suffix_cons _ _)
  | case4 => exact List.suffix_refl _

theorem trimmed_eq_nil {back : List String} (h : trimmed back = []) : back = [] := by
  fun_induction trimmed back with
  | case1 => rfl
  | case2 => cases h
  | case3 last rest some _ ih => exact absurd (ih h) some
  | case4 => cases h

/-- What is trimmed leads nowhere. -/
theorem filter_trimmed (back : List String) : (trimmed back).filter leads = back.filter leads := by
  fun_induction trimmed back with
  | case1 => rfl
  | case2 => rfl
  | case3 last rest _ nowhere ih =>
    rw [ih, List.filter_cons_of_neg]
    rw [Bool.or_eq_true] at nowhere
    rcases nowhere with empty | self
    · simp [leads, of_decide_eq_true empty]
    · simp [leads, of_decide_eq_true self]
  | case4 => rfl

/-- The last piece leads somewhere, unless it is the only one. -/
theorem leads_of_trimmed {back : List String} {last next : String} {rest : List String}
    (h : trimmed back = last :: next :: rest) : leads last := by
  fun_induction trimmed back with
  | case1 => cases h
  | case2 => cases h
  | case3 last rest _ _ ih => exact ih h
  | case4 last rest _ somewhere =>
    obtain ⟨rfl, -⟩ := List.cons.inj h
    simpa [leads] using somewhere

theorem getLast?_trimmed (back : List String) : (trimmed back).getLast? = back.getLast? := by
  fun_induction trimmed back with
  | case1 => rfl
  | case2 => rfl
  | case3 last rest some _ ih => rw [ih, List.getLast?_cons_of_ne_nil some]
  | case4 => rfl

theorem components_eq_trimmed (path : String) :
    components path = ((trimmed (pieces path).reverse).filter leads).reverse := by
  rw [filter_trimmed, ← List.filter_reverse, List.reverse_reverse]
  rfl

/-- The first piece is never trimmed. -/
theorem getLast?_trimmed_pieces (path : String) :
    (trimmed (pieces path).reverse).getLast? = (pieces path).head? := by
  rw [getLast?_trimmed, List.getLast?_reverse]

theorem separator_of_mem_trimmed {path piece : String}
    (h : piece ∈ trimmed (pieces path).reverse) : '/' ∉ piece.toList :=
  separator_of_mem_pieces (List.mem_reverse.1 ((trimmed_suffix _).mem h))

/-- **The path of what holds the last component** goes the same way, up to that component. -/
theorem components_parent {path parent : String} (h : parent? path = some parent) :
    components parent = (components path).dropLast ∧ isAbsolute parent = isAbsolute path := by
  have parts := components_eq_trimmed path
  have first := getLast?_trimmed_pieces path
  rw [parent?] at h
  split at h
  · cases h
  · next only trim =>
    split at h
    · cases h
    · next some =>
      obtain rfl := Option.some.inj h
      rw [trim] at parts first
      constructor
      · rw [parts, components_empty, List.filter_cons]
        split <;> rfl
      · -- an absolute path starts with an empty piece
        rw [Bool.eq_iff_iff, isAbsolute_iff, isAbsolute_iff, ← first]
        exact iff_of_false (fun h => h.2 rfl) fun h => some (Option.some.inj h.1)
  · next last rest more trim =>
    -- what is left of the pieces in front of the last one is joined again
    obtain ⟨next, rest, rfl⟩ := List.exists_cons_of_ne_nil more
    have before := leads_of_trimmed trim
    rw [trim] at parts first
    have front : (components path).dropLast = ((trimmed (next :: rest)).filter leads).reverse := by
      rw [parts, List.filter_cons_of_pos before, List.reverse_cons, List.dropLast_concat,
        filter_trimmed]
    have start : (trimmed (next :: rest)).getLast? = (pieces path).head? := by
      rw [getLast?_trimmed, ← first, List.getLast?_cons_cons]
    have several : pieces path ≠ [""] := by
      intro single
      rw [single] at trim
      cases trim
    rw [front, Bool.eq_iff_iff, isAbsolute_iff, isAbsolute_iff, ← start]
    split at h
    · next root =>
      obtain rfl := Option.some.inj h
      rw [root]
      exact ⟨rfl, iff_of_true (by decide) ⟨rfl, several⟩⟩
    · next other =>
      obtain rfl := Option.some.inj h
      have apart : ∀ piece ∈ (trimmed (next :: rest)).reverse, '/' ∉ piece.toList := by
        intro piece hp
        have kept := (trimmed_suffix _).mem (List.mem_reverse.1 hp)
        exact separator_of_mem_trimmed (trim ▸ List.mem_cons_of_mem last kept)
      have some : (trimmed (next :: rest)).reverse ≠ [] := fun none =>
        List.cons_ne_nil _ _ (trimmed_eq_nil (List.reverse_eq_nil_iff.1 none))
      have below := pieces_intercalate some apart
      constructor
      · rw [components, below, List.filter_reverse]
        rfl
      · rw [below, List.head?_reverse]
        refine and_congr_right fun _ => iff_of_true (fun single => ?_) several
        exact other (List.reverse_eq_iff.1 single)

end Files
end BrokerExam
