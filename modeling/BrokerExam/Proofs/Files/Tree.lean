/-
BrokerExam/Proofs/Files/Tree.lean

Where the paths of a tree lead, and which trees are sound: those in which each
location is listed once and has a directory above it, and so nothing but
directories all the way up (`Sound.directory_of_below`).
-/
import Mathlib.Data.List.Induction
import Mathlib.Data.List.Nodup
import BrokerExam.Files.Tree
import BrokerExam.Proofs.Files.Path

namespace BrokerExam.Files

/-! ### Places -/

/-- Where names lead from a location, if there is a directory at each step. -/
def follow (place : Location) (names : List String) : Location :=
  names.foldl (fun l name => if name = ".." then l.dropLast else l ++ [name]) place

theorem follow_append (place : Location) (front back : List String) :
    follow place (front ++ back) = follow (follow place front) back := List.foldl_append

theorem follow_singleton {name : String} (onward : name ≠ "..") (place : Location) :
    follow place [name] = place ++ [name] := if_neg onward

/-- Names that do not lead back are gone through one below the other. -/
theorem follow_onward {names : List String} (onward : ".." ∉ names) (place : Location) :
    follow place names = place ++ names := by
  induction names generalizing place with
  | nil => exact (List.append_nil place).symm
  | cons name names ih =>
    rw [List.mem_cons, not_or] at onward
    rw [← List.singleton_append, follow_append, follow_singleton (Ne.symm onward.1), ih onward.2,
      List.append_assoc]

/-- The way of the names from a location goes through another one, or ends there. -/
def OnWay (start : Location) (names : List String) (l : Location) : Prop :=
  ∃ front, front <+: names ∧ l = follow start front

theorem OnWay.longer {start l : Location} {front names : List String} (h : OnWay start front l)
    (longer : front <+: names) : OnWay start names l := by
  obtain ⟨way, above, here⟩ := h
  exact ⟨way, above.trans longer, here⟩

/-- The location is below another one. -/
def Below (place l : Location) : Prop := place <+: l ∧ l ≠ place

instance (place l : Location) : Decidable (Below place l) :=
  inferInstanceAs (Decidable (place <+: l ∧ l ≠ place))

theorem below_concat (place : Location) (name : String) : Below place (place ++ [name]) :=
  ⟨List.prefix_append _ _, fun same => by simp at same⟩

namespace Tree

variable {t t' : Tree} {path : String} {l place : Location}

/-- Where the way of a path starts. -/
def start (t : Tree) (path : String) : Location := if isAbsolute path then [] else t.current

/-- Where a path leads, if there is a directory at each step. -/
def destination (t : Tree) (path : String) : Location := follow (t.start path) (components path)

/-- The way of the path goes through the location, or ends there. -/
def Passes (t : Tree) (path : String) : Location → Prop := OnWay (t.start path) (components path)

theorem start_join {name : String} (relative : isAbsolute name = false) (dir : String) :
    t.start (join dir name) = t.start dir := by
  rw [start, start, isAbsolute_join relative]

theorem destination_join {name : String} (plain : Plain name) (dir : String) :
    t.destination (join dir name) = t.destination dir ++ [name] := by
  rw [destination, start_join plain.relative, components_join plain.relative, plain.components_eq,
    follow_append, follow_singleton plain.onward]
  rfl

/-- The way to a name in a directory is that to the directory, and the name. -/
theorem passes_join {name : String} (plain : Plain name) {dir : String}
    (h : t.Passes (join dir name) l) : t.Passes dir l ∨ l = t.destination dir ++ [name] := by
  obtain ⟨front, above, rfl⟩ := h
  rw [components_join plain.relative, plain.components_eq, List.prefix_concat_iff] at above
  rw [start_join plain.relative]
  rcases above with rfl | earlier
  · rw [follow_append, follow_singleton plain.onward]
    exact .inr rfl
  · exact .inl ⟨front, earlier, rfl⟩

theorem passes_parent {parent : String} (h : parent? path = some parent)
    (passes : t.Passes parent l) : t.Passes path l := by
  obtain ⟨way, same⟩ := components_parent h
  rw [Passes, start, same, way] at passes
  exact passes.longer (List.dropLast_prefix _)

theorem destination_congr (current : t'.current = t.current) (path : String) :
    t'.destination path = t.destination path := by
  rw [destination, destination, start, start, current]

/-! ### Nodes -/

section Nodes

theorem lookup_replace (nodes : List (Location × Node)) (place l : Location) (n : Node) :
    (nodes.map fun (k, old) => (k, if k = place then n else old)).lookup l =
      if l = place then (nodes.lookup l).map fun _ => n else nodes.lookup l := by
  induction nodes with
  | nil => exact (ite_self _).symm
  | cons first nodes ih =>
    obtain ⟨k, old⟩ := first
    rw [List.map_cons, List.lookup_cons, List.lookup_cons]
    by_cases here : l = k
    · subst here
      rw [beq_self_eq_true l]
      exact apply_ite some (l = place) n old
    · have other : (l == k) = false := beq_eq_false_iff_ne.2 here
      rw [other]
      exact ih

theorem lookup_filter (nodes : List (Location × Node)) (keep : Location → Bool) (l : Location) :
    (nodes.filter fun e => keep e.1).lookup l = if keep l then nodes.lookup l else none := by
  induction nodes with
  | nil => exact (ite_self _).symm
  | cons first nodes ih =>
    obtain ⟨k, n⟩ := first
    rw [List.filter_cons]
    by_cases here : l = k
    · subst here
      split
      · rw [List.lookup_cons_self, List.lookup_cons_self]
      · next dropped => rw [ih, if_neg dropped]
    · have other : (l == k) = false := beq_eq_false_iff_ne.2 here
      rw [List.lookup_cons, other]
      split
      · rw [List.lookup_cons, other]
        exact ih
      · exact ih

theorem node?_put (t : Tree) (place : Location) (n : Node) (l : Location) :
    (t.put place n).node? l = if l = place ∧ l ≠ [] then some n else t.node? l := by
  by_cases root : l = []
  · rw [node?, node?, if_pos root, if_pos root, if_neg fun h => h.2 root]
  rw [node?, node?, if_neg root, if_neg root]
  simp only [root, ne_eq, not_false_eq_true, and_true]
  rw [put]
  split
  · next there =>
    -- the first node of the place is replaced, which is the one that is looked up
    rw [lookup_replace]
    split
    · next here =>
      obtain ⟨old, found⟩ := Option.isSome_iff_exists.1 there
      rw [here, found]
      rfl
    · rfl
  · next missing =>
    rw [List.lookup_append]
    by_cases here : l = place
    · subst here
      rw [if_pos rfl, Option.not_isSome_iff_eq_none.1 missing, List.lookup_cons_self]
      rfl
    · rw [if_neg here, List.lookup_cons, beq_eq_false_iff_ne.2 here]
      exact Option.or_none

theorem node?_cut (t : Tree) (place l : Location) :
    (t.cut place).node? l = if place <+: l ∧ l ≠ [] then none else t.node? l := by
  by_cases root : l = []
  · rw [node?, node?, if_pos root, if_pos root, if_neg fun h => h.2 root]
  have kept := lookup_filter t.nodes (!place.isPrefixOf ·) l
  rw [node?, node?, if_neg root, if_neg root]
  refine kept.trans ?_
  by_cases below : place <+: l
  · have dropped : ¬ (!place.isPrefixOf l) = true := by
      rw [List.isPrefixOf_iff_prefix.2 below]
      exact fun h => by cases h
    have inside : place <+: l ∧ l ≠ [] := ⟨below, root⟩
    rw [if_neg dropped, if_pos inside]
  · have outside : (!place.isPrefixOf l) = true := by
      rw [Bool.eq_false_iff.2 fun h => below (List.isPrefixOf_iff_prefix.1 h)]
      rfl
    have apart : ¬ (place <+: l ∧ l ≠ []) := fun h => below h.1
    rw [if_pos outside, if_neg apart]

end Nodes

/-! ### Sound trees -/

/-- Every location is listed once, and stands in a directory. -/
structure Sound (t : Tree) : Prop where
  nodup : (t.nodes.map Prod.fst).Nodup
  above : ∀ l, l ≠ [] → t.node? l ≠ none → t.node? l.dropLast = some .directory

namespace Sound

/-- What something stands below is a directory. -/
theorem directory_of_below (h : t.Sound) (below : Below place l) (there : t.node? l ≠ none) :
    t.node? place = some .directory := by
  obtain ⟨⟨names, rfl⟩, ne⟩ := below
  induction names using List.reverseRecOn with
  | nil => exact absurd (List.append_nil place) ne
  | append_singleton names name ih =>
    have parent := h.above _ (by simp) there
    rw [← List.append_assoc, List.dropLast_concat] at parent
    by_cases first : names = []
    · rwa [first, List.append_nil] at parent
    · -- what it stands in stands below the place too
      apply ih (by rw [parent]; exact fun none => by cases none)
      exact fun same => first (List.append_right_eq_self.1 same)

theorem put {n : Node} (h : t.Sound) (inside : place ≠ [])
    (parent : t.node? place.dropLast = some .directory)
    (fine : t.node? place = some .directory → n = .directory) : (t.put place n).Sound where
  nodup := by
    rw [Tree.put]
    split
    · rw [List.map_map]
      exact h.nodup
    · next missing =>
      rw [List.map_append, List.nodup_append]
      refine ⟨h.nodup, List.nodup_singleton _, ?_⟩
      rintro l listed _ last rfl
      obtain rfl := List.mem_singleton.1 last
      obtain ⟨e, mem, here⟩ := List.mem_map.1 listed
      rw [Option.not_isSome_iff_eq_none, List.lookup_eq_none_iff] at missing
      exact bne_iff_ne.1 (missing e mem) here.symm
  above := by
    intro l ne there
    rw [node?_put] at there ⊢
    by_cases here : l = place
    · subst here
      have shorter : l.dropLast ≠ l := by
        intro same
        have length := congrArg List.length same
        have some := List.length_pos_iff.2 ne
        rw [List.length_dropLast] at length
        omega
      rwa [if_neg fun h => shorter h.1]
    · rw [if_neg fun h => here h.1] at there
      have held := h.above l ne there
      split
      · next put => rw [fine (put.1 ▸ held)]
      · exact held

theorem cut (h : t.Sound) (place : Location) : (t.cut place).Sound where
  nodup := h.nodup.sublist (List.filter_sublist.map _)
  above := by
    intro l ne there
    rw [node?_cut] at there ⊢
    split at there
    · exact absurd rfl there
    · next outside =>
      rw [if_neg fun inside => outside ⟨inside.1.trans (List.dropLast_prefix l), ne⟩]
      exact h.above l ne there

end Sound

theorem sound_emptyDirectory : emptyDirectory.Sound where
  nodup := by decide
  above := by
    intro l ne there
    rw [node?, if_neg ne] at there
    -- there are but two locations to look at
    have listed : l = ["tmp"] ∨ l = ["tmp", "work"] := by
      by_contra other
      rw [not_or] at other
      apply there
      simp [emptyDirectory, List.lookup_cons, beq_eq_false_iff_ne.2 other.1,
        beq_eq_false_iff_ne.2 other.2]
    rcases listed with rfl | rfl
    · rfl
    · rfl

theorem mem_nodes_iff (h : t.Sound) {n : Node} : (l, n) ∈ t.nodes ↔ t.nodes.lookup l = some n := by
  have nodup := h.nodup
  generalize t.nodes = nodes at nodup
  induction nodes with
  | nil => exact iff_of_false List.not_mem_nil fun h => by cases h
  | cons first nodes ih =>
    rw [List.map_cons, List.nodup_cons] at nodup
    obtain ⟨k, old⟩ := first
    have rest : (l, n) ∈ nodes ↔ nodes.lookup l = some n := ih nodup.2
    rw [List.mem_cons, Prod.mk.injEq, rest, List.lookup_cons]
    by_cases here : l = k
    · subst here
      rw [beq_self_eq_true l]
      -- it is not listed again
      have once : nodes.lookup l = none := by
        rw [List.lookup_eq_none_iff]
        intro e mem
        exact bne_iff_ne.2 fun same => nodup.1 (List.mem_map.2 ⟨e, mem, same.symm⟩)
      rw [once]
      simp [eq_comm]
    · rw [beq_eq_false_iff_ne.2 here]
      simp [here]

/-- What is listed in a directory is what is there. -/
theorem mem_entries (h : t.Sound) {name : String} {n : Node} :
    (name, n) ∈ t.entries place ↔ t.node? (place ++ [name]) = some n := by
  have inside : place ++ [name] ≠ [] := List.append_ne_nil_of_right_ne_nil _ (List.cons_ne_nil _ _)
  rw [node?, if_neg inside, ← mem_nodes_iff h, entries, List.mem_filterMap]
  constructor
  · rintro ⟨⟨l, n'⟩, mem, found⟩
    dsimp only at found
    cases last : l.getLast? with
    | none =>
      rw [last] at found
      cases found
    | some name' =>
      rw [last] at found
      obtain ⟨front, rfl⟩ := List.getLast?_eq_some_iff.1 last
      rw [List.dropLast_concat] at found
      dsimp only at found
      split at found
      · next here =>
        obtain ⟨rfl, rfl⟩ := Prod.mk.inj (Option.some.inj found)
        rwa [here] at mem
      · cases found
  · intro mem
    refine ⟨_, mem, ?_⟩
    dsimp only
    rw [List.getLast?_concat, List.dropLast_concat]
    exact if_pos rfl

end Tree
end BrokerExam.Files
