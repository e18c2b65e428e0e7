/-
BrokerExam/Proofs/Verdict/Coverage.lean

Whether rules judge every value that a layout provides for.  A path is matched
segment by segment: what is left of a pattern behind a segment is a pattern again
(`Rest.behind`), and it is the same for all elements of an array.  So one walk
through the layout, with what is left of all rules, finds out which rule judges
each value, and whether it asks for one of its type (`covers`).

Main results: `covers_sound`, and `Rule.judge_ok`, that rules which cover a
layout judge its values without a fault.
-/
import BrokerExam.Proofs.Text.Split
import BrokerExam.Proofs.Wire.Layout
import BrokerExam.Verdict.Rule

namespace BrokerExam

/-! ### Segments without dots -/

section Dots

/-- A text spells one path without dots in its segments. -/
theorem FieldPath.text_eq_iff {path : FieldPath} (some : path.segments ≠ [])
    (h : ∀ s ∈ path.segments, '.' ∉ s.toList) (dotted : String) :
    path.text = dotted ↔
      path.segments = (Text.split '.' dotted.toList).map String.ofList := by
  have back (segments : List String) :
      (segments.map String.toList).map String.ofList = segments := by
    rw [List.map_map, show String.ofList ∘ String.toList = id from funext fun s => by simp,
      List.map_id]
  constructor
  · rintro rfl
    rw [text, String.toList_ofList, Text.split_intercalate, back]
    · exact fun none => some (List.map_eq_nil_iff.1 none)
    · intro part hp
      obtain ⟨s, hs, rfl⟩ := List.mem_map.1 hp
      exact h s hs
  · intro same
    have chars : path.segments.map String.toList = Text.split '.' dotted.toList := by
      rw [same, List.map_map, show String.toList ∘ String.ofList = id from funext fun l => by simp,
        List.map_id]
    rw [text, chars, Text.intercalate_split, String.ofList_toList]

end Dots

/-! ### What is left of a pattern -/

/-- What is left of a pattern behind some segments. -/
inductive Rest
  | exactly (segments : List String)
  | like (wanted : List String)
  | anything

namespace Rest

def accepts : Rest → List String → Bool
  | exactly segments, path => path = segments
  | like wanted, path => Pattern.matchesSegments wanted path
  | anything, _ => true

end Rest

namespace Slot

/-- Whether the segments of the slot are `w`, if the answer is the same for all. -/
def is : Slot → String → Option Bool
  | only s, w => some (s = w)
  | elements _ _, w => if '[' ∈ w.toList then none else some false

/-- Whether the segments of the slot match `w`, if the answer is the same for all. -/
def fits : Slot → String → Option Bool
  | only s, w => some (Pattern.matchesSegment w s)
  | elements name _, w =>
    if w = name ++ "[*]" then some true else if '[' ∈ w.toList then none else some false

variable {slot : Slot} {s w : String} {b : Bool}

theorem is_sound (h : slot.is w = some b) (holds : slot.Holds s) : decide (s = w) = b := by
  cases slot with
  | only t =>
    obtain rfl : s = t := holds
    exact Option.some.inj h
  | elements name first =>
    obtain ⟨i, -, rfl⟩ := holds
    rw [is] at h
    split at h
    · cases h
    · next plain =>
      obtain rfl := Option.some.inj h
      exact decide_eq_false (ne_indexed plain name i).symm

/-- The element of an array is an element of it. -/
theorem isElement_indexed (name : String) (i : Nat) :
    Pattern.isElement name.toList (indexed name i).toList = true := by
  have digits : (Nat.toDigits 10 i).all Char.isDigit = true :=
    List.all_eq_true.2 fun c hc => Nat.isDigit_of_mem_toDigits (b := 10) (by decide) (by decide) hc
  have some : Nat.toDigits 10 i ≠ [] := Nat.toDigits_ne_nil
  have above : name.toList.isPrefixOf (name.toList ++ '[' :: (Nat.toDigits 10 i ++ [']'])) = true :=
    List.isPrefixOf_iff_prefix.2 (List.prefix_append _ _)
  rw [toList_indexed, Pattern.isElement, above, List.drop_left]
  simp only [List.getLast?_concat, List.dropLast_concat, digits, some, ne_eq, not_false_eq_true,
    decide_true, Bool.and_true]

theorem matchesSegment_indexed (name : String) (i : Nat) :
    Pattern.matchesSegment (name ++ "[*]") (indexed name i) = true := by
  have chars : (name ++ "[*]").toList = name.toList ++ ['[', '*', ']'] := String.toList_append
  have any : ['[', '*', ']'].isSuffixOf (name.toList ++ ['[', '*', ']']) = true :=
    List.isSuffixOf_iff_suffix.2 (List.suffix_append _ _)
  have length : (name ++ "[*]").length - 3 = name.toList.length := by
    rw [← String.length_toList, chars, List.length_append]
    rfl
  simp only [Pattern.matchesSegment, chars, any, if_true, List.length_cons, List.length_nil]
  rw [length, List.take_left]
  exact isElement_indexed name i

/-- A plain segment is no element. -/
theorem matchesSegment_plain {name w : String} {i : Nat} (plain : '[' ∉ w.toList) :
    Pattern.matchesSegment w (indexed name i) = false := by
  have none : ['[', '*', ']'].isSuffixOf w.toList = false := by
    rw [← Bool.not_eq_true, List.isSuffixOf_iff_suffix]
    exact fun suffix => plain (suffix.subset List.mem_cons_self)
  simp only [Pattern.matchesSegment, none, Bool.false_eq_true, if_false]
  exact decide_eq_false (ne_indexed plain name i).symm

theorem fits_sound (h : slot.fits w = some b) (holds : slot.Holds s) :
    Pattern.matchesSegment w s = b := by
  cases slot with
  | only t =>
    obtain rfl : s = t := holds
    exact Option.some.inj h
  | elements name first =>
    obtain ⟨i, -, rfl⟩ := holds
    rw [fits] at h
    split at h
    · next any =>
      obtain rfl := Option.some.inj h
      rw [any]
      exact matchesSegment_indexed name i
    · split at h
      · cases h
      · next plain =>
        obtain rfl := Option.some.inj h
        exact matchesSegment_plain plain

end Slot

/-! ### Walking behind segments -/

namespace Rest

/-- What is left of a pattern behind the segments of a slot, or `some none` if it matches none of
them.  There is no answer if that depends on the segment. -/
def behind (slot : Slot) : Rest → Option (Option Rest)
  | exactly [] => some none
  | exactly (w :: ws) => (slot.is w).map fun same => if same then some (exactly ws) else none
  | like [] => some none
  | like ("**" :: _) => some (some anything)
  | like (w :: ws) => (slot.fits w).map fun fits => if fits then some (like ws) else none
  | anything => some (some anything)

theorem behind_sound {rest : Rest} {slot : Slot} {left : Option Rest} {s : String}
    {path : List String} (h : rest.behind slot = some left) (holds : slot.Holds s) :
    rest.accepts (s :: path) = left.elim false (·.accepts path) := by
  unfold behind at h
  split at h
  · -- an exact pattern that is used up
    obtain rfl := Option.some.inj h
    rfl
  · next w ws =>
    obtain ⟨same, seen, rfl⟩ := Option.map_eq_some_iff.1 h
    have here := Slot.is_sound seen holds
    cases same with
    | false =>
      rw [decide_eq_false_iff_not] at here
      exact decide_eq_false fun whole => here (List.cons.inj whole).1
    | true =>
      obtain rfl := of_decide_eq_true here
      simp [accepts]
  · -- a pattern with wildcards that is used up
    obtain rfl := Option.some.inj h
    rfl
  · -- one that matches whatever is to come
    obtain rfl := Option.some.inj h
    rfl
  · next w ws other =>
    obtain ⟨fits, seen, rfl⟩ := Option.map_eq_some_iff.1 h
    have here := Slot.fits_sound seen holds
    rw [accepts, Pattern.matchesSegments, here]
    · cases fits with
      | false => rfl
      | true => rfl
    · exact other
  · obtain rfl := Option.some.inj h
    rfl

end Rest

/-- What rules ask behind some segments: what is left of each pattern, and what the rule asks of the
values there. -/
abbrev Asks (α : Type) := List (Rest × α)

namespace Asks

variable {α : Type}

/-- What the first rule asks that applies at the path. -/
def first (asks : Asks α) (path : List String) : Option α :=
  (asks.find? fun ask => ask.1.accepts path).map Prod.snd

def behind (slot : Slot) : Asks α → Option (Asks α)
  | [] => some []
  | (rest, ask) :: asks => do
    let left ← rest.behind slot
    let others ← behind slot asks
    return match left with
      | none => others
      | some rest => (rest, ask) :: others

theorem first_behind {asks left : Asks α} {slot : Slot} {s : String} {path : List String}
    (h : asks.behind slot = some left) (holds : slot.Holds s) :
    asks.first (s :: path) = left.first path := by
  induction asks generalizing left with
  | nil =>
    obtain rfl := Option.some.inj h
    rfl
  | cons ask asks ih =>
    obtain ⟨rest, type⟩ := ask
    obtain ⟨restLeft, here, h⟩ := Option.bind_eq_some_iff.1 h
    obtain ⟨others, there, h⟩ := Option.bind_eq_some_iff.1 h
    obtain rfl := Option.some.inj h
    have same : rest.accepts (s :: path) = restLeft.elim false (·.accepts path) :=
      Rest.behind_sound here holds
    have behind := ih there
    rw [first] at behind ⊢
    cases restLeft with
    | none =>
      rw [List.find?_cons_of_neg (by rw [same]; exact Bool.false_ne_true)]
      exact behind
    | some rest' =>
      have same : rest.accepts (s :: path) = rest'.accepts path := same
      simp only [first, List.find?_cons, same]
      cases rest'.accepts path with
      | true => rfl
      | false => exact behind

theorem first_only {asks left : Asks α} {s : String} {path : List String}
    (h : asks.behind (.only s) = some left) : asks.first (s :: path) = left.first path :=
  first_behind h rfl

theorem first_element {asks left : Asks α} {name : String} {i : Nat} {path : List String}
    (h : asks.behind (.elements name 0) = some left) :
    asks.first (indexed name i :: path) = left.first path :=
  first_behind h ⟨i, Nat.zero_le i, rfl⟩

/-- Every value of the layout is judged by a rule, which asks for its type if for any.  Tag buffers
are left aside. -/
def covers : Asks (Option ValueType) → Layout → Bool
  | _, .nothing => true
  | asks, .value type => (asks.first []).any fun asked => asked.all (· = type)
  | asks, .under slot inner =>
    (slot = .only tagBufferSegment && inner.isValue) ||
      (asks.behind slot).any fun left => left.covers inner
  | asks, .both l l' => asks.covers l && asks.covers l'

theorem covers_sound {asks : Asks (Option ValueType)} {l : Layout} {path : List String}
    {type : ValueType}
    (h : asks.covers l = true) (has : l.Has path type)
    (other : path.getLast? ≠ some tagBufferSegment) :
    ∃ asked, asks.first path = some asked ∧ asked.all (· = type) = true := by
  induction l generalizing asks path with
  | nothing => exact has.elim
  | value t =>
    obtain ⟨rfl, rfl⟩ := has
    exact (Option.any_eq_true _ _).1 h
  | under slot inner ih =>
    obtain ⟨s, rest, holds, rfl, has⟩ := has
    rw [covers, Bool.or_eq_true, Bool.and_eq_true, decide_eq_true_eq] at h
    rcases h with ⟨rfl, isValue⟩ | h
    · -- a tag buffer is the last segment
      obtain rfl : s = tagBufferSegment := holds
      cases inner with
      | value t =>
        obtain ⟨rfl, -⟩ := has
        exact absurd rfl other
      | nothing => cases isValue
      | under slot inner => cases isValue
      | both l l' => cases isValue
    · obtain ⟨left, walked, covered⟩ := (Option.any_eq_true _ _).1 h
      have otherRest : rest.getLast? ≠ some tagBufferSegment := by
        cases rest with
        | nil =>
          intro none
          cases none
        | cons r rest => rwa [List.getLast?_cons_cons] at other
      obtain ⟨asked, first, suits⟩ := ih covered has otherRest
      exact ⟨asked, (first_behind walked holds).trans first, suits⟩
  | both l l' ih ih' =>
    rw [covers, Bool.and_eq_true] at h
    rcases has with has | has
    · exact ih h.1 has other
    · exact ih' h.2 has other

end Asks

/-! ### Rules -/

/-- The type of value that is asked for, if any is. -/
def Demand.type? : Demand → Option ValueType
  | anything => none
  | int8 _ => some .int8
  | int16 _ => some .int16
  | int32 _ => some .int32
  | elements _ => none

/-- A demand judges every value of its type. -/
theorem Demand.judge_ok {f : Field} (named : ∃ segment, f.path.lastSegment = .ok segment)
    (d : Demand) (suits : d.type?.all (· = f.value.type) = true) :
    ∃ complaint, d.judge f = .ok complaint := by
  obtain ⟨segment, named⟩ := named
  have compared (expected : Value) : ∃ complaint, unequal f expected = .ok complaint := by
    rw [unequal, complaint, named]
    split
    · exact ⟨none, rfl⟩
    · exact ⟨some _, rfl⟩
  have number (expected : Value) (type : expected.type = f.value.type) :
      ∃ complaint, unequalOfType f expected = .ok complaint := by
    rw [unequalOfType_of_type type.symm]
    exact compared expected
  cases d with
  | anything => exact ⟨none, rfl⟩
  | elements n => exact compared _
  | _ v => exact number _ (of_decide_eq_true suits)

/-- All of a pattern. -/
def Pattern.rest : Pattern → Rest
  | exactly dotted => .exactly ((Text.split '.' dotted.toList).map String.ofList)
  | like dotted => .like ((Text.split '.' dotted.toList).map String.ofList)

theorem Pattern.matchesPath_eq {path : FieldPath} (some : path.segments ≠ [])
    (dotless : ∀ s ∈ path.segments, '.' ∉ s.toList) (pattern : Pattern) :
    pattern.matchesPath path = pattern.rest.accepts path.segments := by
  cases pattern with
  | exactly dotted => exact decide_eq_decide.2 (FieldPath.text_eq_iff some dotless dotted)
  | like dotted => rfl

namespace Rule

variable {rules : List Rule} {f : Field}

/-- What the rules demand. -/
def demands (rules : List Rule) : Asks Demand := rules.map fun r => (r.pattern.rest, r.demand)

/-- For which types the rules ask. -/
def asks (rules : List Rule) : Asks (Option ValueType) :=
  rules.map fun r => (r.pattern.rest, r.demand.type?)

theorem first_asks (rules : List Rule) (path : List String) :
    (asks rules).first path = ((demands rules).first path).map Demand.type? := by
  induction rules with
  | nil => rfl
  | cons r rules ih =>
    simp only [asks, demands, Asks.first, List.map_cons, List.find?_cons] at ih ⊢
    cases r.pattern.rest.accepts path with
    | true => rfl
    | false => exact ih

/-- A value is judged by the first demand at its path. -/
theorem judge_eq {d : Demand} (some : f.path.segments ≠ [])
    (dotless : ∀ s ∈ f.path.segments, '.' ∉ s.toList)
    (first : (demands rules).first f.path.segments = .some d) : judge f rules = d.judge f := by
  induction rules with
  | nil => cases first
  | cons r rules ih =>
    rw [judge, Pattern.matchesPath_eq some dotless r.pattern]
    rw [demands, List.map_cons, Asks.first, List.find?_cons] at first
    cases accepted : r.pattern.rest.accepts f.path.segments with
    | true =>
      rw [accepted] at first
      obtain rfl := Option.some.inj first
      rw [if_pos rfl]
    | false =>
      rw [accepted] at first
      rw [if_neg Bool.false_ne_true]
      exact ih first

/-- **Rules judge** the value at a path at which they ask for one of its type. -/
theorem judge_ok {asked : Option ValueType} (some : f.path.segments ≠ [])
    (dotless : ∀ s ∈ f.path.segments, '.' ∉ s.toList)
    (named : ∃ segment, f.path.lastSegment = .ok segment)
    (first : (asks rules).first f.path.segments = .some asked)
    (suits : asked.all (· = f.value.type) = true) :
    ∃ complaint, judge f rules = .ok complaint := by
  rw [first_asks] at first
  obtain ⟨d, demanded, rfl⟩ := Option.map_eq_some_iff.1 first
  rw [judge_eq some dotless demanded]
  exact d.judge_ok named suits

end Rule

/-! ### Layouts without dots -/

namespace Layout

/-- No segment has a dot. -/
def dotless : Layout → Bool
  | nothing => true
  | value _ => true
  | under (.only s) inner => !s.toList.contains '.' && inner.dotless
  | under (.elements name _) inner => !name.toList.contains '.' && inner.dotless
  | both l l' => l.dotless && l'.dotless

theorem dot_not_mem_indexed {name : String} (h : '.' ∉ name.toList) (i : Nat) :
    '.' ∉ (indexed name i).toList := by
  rw [toList_indexed, List.mem_append, List.mem_cons, List.mem_append, List.mem_singleton]
  rintro (inName | bracket | digit | bracket)
  · exact h inName
  · cases bracket
  · have isDigit : '.'.isDigit = true :=
      Nat.isDigit_of_mem_toDigits (b := 10) (by decide) (by decide) digit
    cases isDigit
  · cases bracket

theorem Has.dotless {l : Layout} {path : List String} {type : ValueType} (has : l.Has path type)
    (h : l.dotless = true) : ∀ s ∈ path, '.' ∉ s.toList := by
  induction l generalizing path with
  | nothing => exact has.elim
  | value t =>
    obtain ⟨rfl, -⟩ := has
    exact fun s hs => absurd hs List.not_mem_nil
  | under slot inner ih =>
    obtain ⟨s, rest, holds, rfl, has⟩ := has
    cases slot with
    | only name =>
      obtain rfl : s = name := holds
      rw [Layout.dotless, Bool.and_eq_true, Bool.not_eq_true', List.contains_eq_mem,
        decide_eq_false_iff_not] at h
      exact List.forall_mem_cons.2 ⟨h.1, ih has h.2⟩
    | elements name first =>
      obtain ⟨i, -, rfl⟩ := holds
      rw [Layout.dotless, Bool.and_eq_true, Bool.not_eq_true', List.contains_eq_mem,
        decide_eq_false_iff_not] at h
      exact List.forall_mem_cons.2 ⟨dot_not_mem_indexed h.1 i, ih has h.2⟩
  | both l l' ih ih' =>
    rw [Layout.dotless, Bool.and_eq_true] at h
    rcases has with has | has
    · exact ih has h.1
    · exact ih' has h.2

end Layout
end BrokerExam
