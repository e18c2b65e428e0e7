/-
BrokerExam/Proofs/LogDirectory/Inside.lean

What is in the root of a log directory that was made: the directories of the
partitions and that of the cluster metadata, and no other directory
(`directory_iff`), whatever was there before.  For that the root has to be cleared,
which its path must make possible (`Tree.Clearable`), and nothing else may be put
there.
-/
import Mathlib.Data.List.Infix
import BrokerExam.Proofs.LogDirectory.Places

namespace BrokerExam

open Files LogDirectory LogDirectoryPlan

/-! ### Clearing -/

namespace Files.Tree

variable {t t' t₀ : Tree} {root path : String} {l place : Location} {names : List String}

/-- The way of the path does not go below the location. -/
def Avoids (t : Tree) (path : String) (place : Location) : Prop :=
  ∀ l, t.Passes path l → ¬ Below place l

theorem avoids_iff : t.Avoids path place ↔
    ∀ front ∈ (components path).inits, ¬ Below place (follow (t.start path) front) := by
  constructor
  · intro avoids front mem
    exact avoids _ ⟨front, (List.mem_inits _ _).1 mem, rfl⟩
  · rintro avoids _ ⟨front, above, rfl⟩
    exact avoids front ((List.mem_inits _ _).2 above)

instance (t : Tree) (path : String) (place : Location) : Decidable (t.Avoids path place) :=
  decidable_of_iff _ avoids_iff.symm

/-- The path is that of a directory that can be removed with all that is in it.  Every path is,
unless it is empty or leads back (`clearable_of_onward`).  A path that leads back through a directory
below its end makes that directory anew, and one that leads back through a missing directory does not
show what there is at its end, so that there must be nothing. -/
structure Clearable (t : Tree) (root : String) : Prop where
  some : root ≠ ""
  back : ".." ∈ components root → t.Avoids root (t.destination root) ∧
    ((∃ l, t.locate root = .ok l) ∨ ∀ l, Below (t.destination root) l → t.node? l = none)

theorem clearable_of_onward (some : root ≠ "") (onward : ".." ∉ components root) :
    t.Clearable root :=
  ⟨some, fun back => absurd back onward⟩

theorem short_of_walk (h : t.walk place names = .ok l) {name : String} (mem : name ∈ names) :
    name.utf8ByteSize ≤ maxNameBytes := by
  induction names generalizing place with
  | nil => cases mem
  | cons first names ih =>
    obtain ⟨next, step, rest⟩ := Except.bind_eq_ok_iff.1 (walk_cons ▸ h)
    rcases List.mem_cons.1 mem with rfl | later
    · obtain ⟨-, ⟨rfl, -⟩ | ⟨-, short, -⟩⟩ := step_eq_ok_iff.1 step
      · decide
      · exact short
    · exact ih rest later

/-- The way of a clearable root does not go below it. -/
theorem Clearable.avoids (h : t.Clearable root) : t.Avoids root (t.destination root) := by
  by_cases back : ".." ∈ components root
  · exact (h.back back).1
  · rintro l ⟨front, above, rfl⟩ ⟨below, ne⟩
    have onward : ".." ∉ front := fun mem => back (above.subset mem)
    apply ne
    rw [destination, follow_onward back, follow_onward onward] at below
    rw [destination, follow_onward back, follow_onward onward]
    have longer := (List.prefix_append_right_inj _).1 below
    rw [above.eq_of_length (Nat.le_antisymm above.length_le longer.length_le)]

/-- A directory below which something stands is found by a clearable path, if the path is
acceptable. -/
theorem exists_of_below (sound : t.Sound) (h : t.Clearable root) (fine : Acceptable root)
    (short : ∀ name ∈ components root, name.utf8ByteSize ≤ maxNameBytes)
    (below : Below (t.destination root) l) (there : t.node? l ≠ none) : t.exists root = true := by
  have directory := sound.directory_of_below below there
  have located : t.locate root = .ok (t.destination root) := by
    by_cases back : ".." ∈ components root
    · rcases (h.back back).2 with ⟨l', located⟩ | nothing
      · rw [located, destination_of_locate located]
      · exact absurd (nothing l below) there
    · have end_eq : t.destination root = t.start root ++ components root := follow_onward back _
      rw [locate_eq_ok_iff, end_eq]
      refine ⟨fine, walk_onward back short fun l' _ above => ?_⟩
      apply sound.directory_of_below above
      rw [← end_eq, directory]
      exact fun none => by cases none
  rw [«exists», find_directory located directory]
  rfl

/-- **Below a root that is cleared there is nothing.** -/
theorem nothing_below_cleared (sound : t.Sound) (h : t.Clearable root) (fine : Acceptable root)
    (short : ∀ name ∈ components root, name.utf8ByteSize ≤ maxNameBytes)
    (done : cleared t root = .ok t₀) (below : Below (t.destination root) l) :
    t₀.node? l = none := by
  rw [cleared] at done
  split at done
  · obtain rfl := ok_of_removeDirectory done
    have inside : l ≠ [] := by
      rintro rfl
      exact below.2 (List.prefix_nil.1 below.1).symm
    rw [node?_cut, if_pos ⟨below.1, inside⟩]
  · next missing =>
    obtain rfl := Except.ok.inj done
    by_contra there
    exact missing (exists_of_below sound h fine short below there)

theorem sound_cleared (sound : t.Sound) (done : cleared t root = .ok t₀) : t₀.Sound := by
  rw [cleared] at done
  split at done
  · obtain rfl := ok_of_removeDirectory done
    exact sound.cut _
  · obtain rfl := Except.ok.inj done
    exact sound

theorem current_cleared (done : cleared t root = .ok t₀) : t₀.current = t.current := by
  rw [cleared] at done
  split at done
  · obtain rfl := ok_of_removeDirectory done
    rfl
  · obtain rfl := Except.ok.inj done
    rfl

end Files.Tree

/-! ### Filling -/

namespace LogDirectoryPlan

variable {plan : LogDirectoryPlan} {t t₀ after : Tree} {madeAt : Int} {name : String}

/-- The root can be followed, and is a directory, since a file was written below it. -/
theorem locate_root (some : plan.root ≠ "")
    (filled : t₀.extend (plan.additions madeAt) = .ok after) :
    after.locate plan.root = .ok (after.destination plan.root) ∧
      after.node? (after.destination plan.root) = Option.some .directory := by
  have located := (Tree.read_eq_ok_iff.1 (read_metadataLog plan filled)).1
  have above := Tree.locate_of_join plain_logFile (plain_metadataDirectory.join_ne_empty _) located
  exact Tree.locate_of_join plain_metadataDirectory some above.1

/-- Which directories are made. -/
theorem mem_additions {path : String} (mem : .directory path ∈ plan.additions madeAt) :
    path = plan.root ∨ parent? plan.serverPropertiesPath = some path ∨
      ∃ name, (name ∈ plan.partitionNames ∨ name = metadataDirectoryName) ∧
        path = join plan.root name := by
  rw [additions, List.mem_append, List.mem_cons] at mem
  rcases mem with (first | server) | below
  · exact .inl (Addition.directory.inj first)
  · right
    left
    simpa [serverAdditions] using server
  · right
    right
    rw [belowRoot, List.mem_append, List.mem_append, List.mem_flatMap] at below
    rcases below with (inRoot | ⟨t, ht, inTopic⟩) | metadata
    · simp at inRoot
    · obtain ⟨p, hp, inPartition⟩ := List.mem_flatMap.1 inTopic
      obtain rfl : path = plan.partitionDirectory t.name p.partitionId := by
        simpa [partitionAdditions] using inPartition
      exact ⟨_, .inl (mem_partitionNames.2 ⟨t, ht, p, hp, rfl⟩), rfl⟩
    · exact ⟨_, .inr rfl, by simpa [metadataAdditions] using metadata⟩

/-- A log that can be read stands in a directory. -/
theorem directory_of_log {bs : Bytes} (plain : Plain name)
    (read : after.read (join (join plan.root name) logFileName) = .ok bs) :
    after.node? (after.destination plan.root ++ [name]) = some .directory := by
  have located := (Tree.read_eq_ok_iff.1 read).1
  have above := Tree.locate_of_join plain_logFile (plain.join_ne_empty _) located
  rw [← Tree.destination_join plain]
  exact above.2

/-- **The directories in the root** are those of the partitions and that of the cluster metadata. -/
theorem directory_iff (valid : plan.Valid) (separate : plan.Separate) (sound : t.Sound)
    (clearable : t.Clearable plan.root)
    (outside : t.Avoids plan.serverPropertiesPath (t.destination plan.root))
    (all : remade plan madeAt t = .ok after) :
    after.node? (t.destination plan.root ++ [name]) = some .directory ↔
      name ∈ plan.partitionNames ∨ name = metadataDirectoryName := by
  obtain ⟨t₀, clear, filled⟩ := Except.bind_eq_ok_iff.1 all
  have current : t₀.current = t.current := Tree.current_cleared clear
  have grown := Tree.extends_of_extend filled
  have last : after.current = t.current := grown.current.trans current
  constructor
  · intro there
    obtain ⟨fine, walked⟩ := Tree.locate_eq_ok_iff.1 (locate_root clearable.some filled).1
    have clean : t₀.node? (t.destination plan.root ++ [name]) = none :=
      Tree.nothing_below_cleared sound clearable fine
        (fun _ mem => Tree.short_of_walk walked mem) clear (below_concat _ _)
    rcases grown.node (t.destination plan.root ++ [name]) with same | ⟨made, -⟩ | ⟨-, -, bs, file⟩
    · rw [there, clean] at same
      cases same
    · -- of the ways that are made, only those to these directories go below the root
      obtain ⟨path, mem, passes⟩ := made
      rw [Tree.Passes, Tree.start, current] at passes
      rcases mem_additions mem with rfl | parent | ⟨name', known, rfl⟩
      · exact absurd (below_concat _ _) (clearable.avoids _ passes)
      · exact absurd (below_concat _ _) (outside _ (Tree.passes_parent parent passes))
      · have plain : Plain name' := known.elim (plain_of_mem valid separate) fun same =>
          same ▸ plain_metadataDirectory
        rcases Tree.passes_join plain passes with early | here
        · exact absurd (below_concat _ _) (clearable.avoids _ early)
        · obtain rfl : name = name' := List.singleton_inj.1 (List.append_cancel_left here)
          exact known
    · rw [there] at file
      cases file
  · rw [← Tree.destination_congr last]
    rintro (mem | rfl)
    · have plain := plain_of_mem valid separate mem
      obtain ⟨topic, ht, p, hp, rfl⟩ := mem_partitionNames.1 mem
      exact directory_of_log plain (read_log valid separate filled ht hp)
    · exact directory_of_log plain_metadataDirectory (read_metadataLog plan filled)

end LogDirectoryPlan
end BrokerExam
