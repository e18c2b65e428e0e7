/-
BrokerExam/Proofs/Files/Additions.lean

Directories and files added one after the other.  Whatever is added, the tree
changes on the ways of the directories and at the places of the files
(`extends_of_extend`); and if the files have places of their own, each of them is
read back at the end (`read_of_extend`).
-/
import BrokerExam.Proofs.Files.Operations

namespace BrokerExam.Files

/-- Something to add to a tree. -/
inductive Addition
  | directory (path : String)
  | file (path : String) (contents : Bytes)

namespace Addition

/-- Makes a directory with those on the way to it, or writes a file. -/
def apply (t : Tree) : Addition → Except SystemError Tree
  | directory path => (t.createPath path).2.map fun _ => (t.createPath path).1
  | file path contents => t.write path contents

/-- The path of the file that is written. -/
def file? : Addition → Option String
  | directory _ => none
  | file path _ => some path

/-- The paths of the files that are written. -/
def files (as : List Addition) : List String := as.filterMap file?

theorem files_append (as bs : List Addition) : files (as ++ bs) = files as ++ files bs :=
  List.filterMap_append

theorem mem_files {as : List Addition} {path : String} :
    path ∈ files as ↔ ∃ contents, file path contents ∈ as := by
  rw [files, List.mem_filterMap]
  constructor
  · rintro ⟨a, mem, same⟩
    cases a with
    | directory => cases same
    | file p contents =>
      obtain rfl := Option.some.inj same
      exact ⟨contents, mem⟩
  · rintro ⟨contents, mem⟩
    exact ⟨_, mem, rfl⟩

end Addition

namespace Tree

variable {t t' : Tree} {as bs : List Addition} {path : String} {l : Location}

/-- The tree with all of the additions. -/
def extend (t : Tree) (as : List Addition) : Except SystemError Tree := as.foldlM Addition.apply t

/-- The location is on the way of one of the directories. -/
def MadeBy (t : Tree) (as : List Addition) (l : Location) : Prop :=
  ∃ path, Addition.directory path ∈ as ∧ t.Passes path l

/-- The location is the place of one of the files. -/
def WrittenBy (t : Tree) (as : List Addition) (l : Location) : Prop :=
  ∃ path ∈ Addition.files as, l = t.destination path

theorem extend_append : t.extend (as ++ bs) = t.extend as >>= (·.extend bs) := List.foldlM_append

theorem MadeBy.subset (h : t.MadeBy as l) (sub : as ⊆ bs) : t.MadeBy bs l := by
  obtain ⟨path, mem, passes⟩ := h
  exact ⟨path, sub mem, passes⟩

theorem WrittenBy.subset (h : t.WrittenBy as l) (sub : as ⊆ bs) : t.WrittenBy bs l := by
  obtain ⟨path, mem, here⟩ := h
  obtain ⟨contents, mem⟩ := Addition.mem_files.1 mem
  exact ⟨path, Addition.mem_files.2 ⟨contents, sub mem⟩, here⟩

/-- Paths lead where they lead, however much is added to the tree. -/
theorem madeBy_congr (current : t'.current = t.current) : t'.MadeBy as = t.MadeBy as := by
  funext l
  simp only [MadeBy, Passes, start, current]

theorem writtenBy_congr (current : t'.current = t.current) : t'.WrittenBy as = t.WrittenBy as := by
  funext l
  simp only [WrittenBy, destination_congr current]

theorem extends_of_apply {a : Addition} (h : a.apply t = .ok t') :
    Extends (t.MadeBy [a]) (t.WrittenBy [a]) t t' := by
  cases a with
  | directory path =>
    rw [Addition.apply] at h
    cases done : (t.createPath path).2 with
    | error e =>
      rw [done] at h
      cases h
    | ok u =>
      rw [done] at h
      obtain rfl := Except.ok.inj h
      exact (extends_createPath t path).mono
        (fun l passes => ⟨path, List.mem_singleton_self _, passes⟩) fun _ => id
  | file path contents =>
    apply (extends_write h).mono fun _ => id
    exact fun l here => ⟨path, List.mem_singleton_self _, here⟩

/-- **What is added changes the tree where it is added**, and nowhere else. -/
theorem extends_of_extend (h : t.extend as = .ok t') :
    Extends (t.MadeBy as) (t.WrittenBy as) t t' := by
  induction as generalizing t with
  | nil =>
    obtain rfl := Except.ok.inj h
    exact .refl t
  | cons a as ih =>
    obtain ⟨t₁, first, rest⟩ := Except.bind_eq_ok_iff.1 h
    have one := extends_of_apply first
    have others := ih rest
    -- the way of a path depends on the current directory alone, which stays
    rw [madeBy_congr one.current, writtenBy_congr one.current] at others
    have head : [a] ⊆ a :: as := List.cons_subset.2 ⟨List.mem_cons_self, List.nil_subset _⟩
    have tail : as ⊆ a :: as := List.subset_cons_self a as
    exact (one.mono (fun _ m => m.subset head) fun _ w => w.subset head).trans
      (others.mono (fun _ m => m.subset tail) fun _ w => w.subset tail)

theorem read_of_write {contents : Bytes} (h : t.write path contents = .ok t') :
    t'.read path = .ok contents := by
  have ext : Extends (fun _ => False) (· = t.destination path) t t' := extends_write h
  obtain ⟨located, other, ending, rfl⟩ := ok_of_write h
  obtain ⟨fine, walked⟩ := locate_eq_ok_iff.1 located
  have inside : t.destination path ≠ [] := by
    intro root
    rw [root] at other
    exact other rfl
  rw [read_eq_ok_iff, destination_congr ext.current]
  refine ⟨locate_eq_ok_iff.2 ⟨fine, ?_⟩, ?_, ending⟩
  · rw [start, ext.current]
    exact walk_kept (fun _ there => ext.directory there) walked
  · rw [node?_put]
    exact if_pos ⟨rfl, inside⟩

/-- **Files with places of their own are read back** when all is added. -/
theorem read_of_extend (h : t.extend as = .ok t')
    (apart : (Addition.files as).Pairwise fun p q => t.destination p ≠ t.destination q)
    {contents : Bytes} (mem : .file path contents ∈ as) : t'.read path = .ok contents := by
  obtain ⟨before, after, rfl⟩ := List.append_of_mem mem
  rw [extend_append] at h
  obtain ⟨t₁, front, rest⟩ := Except.bind_eq_ok_iff.1 h
  obtain ⟨t₂, written, back⟩ := Except.bind_eq_ok_iff.1 rest
  have current : t₂.current = t.current :=
    (extends_of_apply written).current.trans (extends_of_extend front).current
  -- the file has just been written, and what comes later goes elsewhere
  apply (extends_of_extend back).read ?_ (read_of_write written)
  rw [writtenBy_congr current, destination_congr current]
  rintro ⟨other, later, same⟩
  have place : Addition.files (before ++ .file path contents :: after) =
      Addition.files before ++ path :: Addition.files after := Addition.files_append _ _
  rw [place, List.pairwise_append, List.pairwise_cons] at apart
  exact apart.2.1.1 other later same

end Tree
end BrokerExam.Files
