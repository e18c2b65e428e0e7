/-
BrokerExam/Proofs/Wire/Arrays.lean

Arrays read back.  An array is written as its items one after the other, each
below its index, and is read by as many reads of an element, the index in the
path going up with each.  All that an array of either kind adds is the length in
front of it.

Elements that are read until nothing is left (`FieldRead.all`) are told apart
from the end by taking at least one byte each.

Main results: `ReadsBack.compactArray`, `ReadsBack.array`, `readsBefore_all` and
the locality of the same readers; `FieldRead.ok_of_all`, which finds in bytes
that were read to the end the piece of each element.
-/
import BrokerExam.Proofs.Wire.Reads

namespace BrokerExam

variable {ν α β : Type}

/-- `r` reads what `e` writes as `a`, whatever follows. -/
def ReadsBack (r : NotingRead ν α) (e : Encoding) (a : α) : Prop := Reads r e.bytes e.trace a

/-! ### Encodings in sequence -/

namespace ReadsBack

variable {e e' : Encoding} {a : α} {b : β} {r : NotingRead ν α}

theorem pure (a : α) : ReadsBack (Pure.pure a : NotingRead ν α) [] a :=
  fun _ => ReadsBefore.pure a

theorem bind {f : α → NotingRead ν β} (hr : ReadsBack r e a) (hf : ReadsBack (f a) e' b) :
    ReadsBack (r >>= f) (e ++ e') b := by
  intro rest
  rw [Encoding.bytes_append, Encoding.trace_append]
  exact (hr _).bind (hf rest)

theorem map (hr : ReadsBack r e a) (g : α → β) : ReadsBack (g <$> r) e (g a) :=
  fun rest => (hr rest).map g

theorem bind_pure (hr : ReadsBack r e a) (g : α → β) :
    ReadsBack (r >>= fun a => Pure.pure (g a)) e (g a) := fun rest => (hr rest).bind_pure g

theorem scope (segment : String) (hr : ReadsBack r e a) :
    ReadsBack (FieldRead.scope segment r) (Encoding.scope segment e) a := by
  intro rest
  rw [Encoding.bytes_scope, Encoding.trace_scope]
  exact (hr rest).scope segment

theorem anchored_bind (segment : String) {kind : Kind α} {k : α × Anchor → NotingRead ν β}
    (h : kind.Takes a) (hk : ∀ anchor, ReadsBack (k (a, anchor)) e b) :
    ReadsBack (FieldRead.anchored segment kind >>= k)
      (Encoding.leaf segment (kind.value a) ++ e) b := by
  intro rest
  rw [Encoding.bytes_append, Encoding.bytes_leaf]
  exact ReadsBefore.anchored_bind segment h fun anchor => hk anchor rest

theorem field (segment : String) {kind : Kind α} (h : kind.Takes a) :
    ReadsBack (FieldRead.field segment kind : NotingRead ν α)
      (Encoding.leaf segment (kind.value a)) a := by
  intro rest
  rw [Encoding.bytes_leaf]
  exact ReadsBefore.field segment h

theorem tagBuffer :
    ReadsBack (FieldRead.tagBuffer : NotingRead ν Unit) Encoding.emptyTagBuffer () := by
  have count : Kind.tagBuffer.Takes 0 := RawRead.reads_tagBuffer
  exact (field tagBufferSegment count).map fun _ => ()

end ReadsBack

/-! ### Items -/

/-- The traces one after the other, each below its index, counted from `i` on. -/
def Trace.itemsFrom (name : String) : Nat → List Trace → Trace
  | _, [] => []
  | i, t :: ts => t.scope (indexed name i) ++ itemsFrom name (i + 1) ts

namespace Encoding

/-- The items one after the other, each below its index, counted from `i` on. -/
def itemsFrom (name : String) : Nat → List Encoding → Encoding
  | _, [] => []
  | i, e :: es => scope (indexed name i) e ++ itemsFrom name (i + 1) es

theorem items_eq_itemsFrom (name : String) (es : List Encoding) :
    items name es = itemsFrom name 0 es := by
  suffices h : ∀ i, (es.mapIdx fun j e => scope (indexed name (i + j)) e).flatten
      = itemsFrom name i es by
    have h₀ := h 0
    simp only [Nat.zero_add] at h₀
    exact h₀
  induction es with
  | nil => exact fun _ => rfl
  | cons e es ih =>
    intro i
    -- behind the first item the count begins one later
    rw [List.mapIdx_cons, List.flatten_cons, itemsFrom, ← ih (i + 1)]
    simp only [Nat.add_zero, Nat.add_assoc, Nat.add_comm 1]

theorem bytes_itemsFrom (name : String) (i : Nat) (es : List Encoding) :
    bytes (itemsFrom name i es) = es.flatMap bytes := by
  induction es generalizing i with
  | nil => rfl
  | cons e es ih => rw [itemsFrom, bytes_append, bytes_scope, ih, List.flatMap_cons]

theorem trace_itemsFrom (name : String) (i : Nat) (es : List Encoding) :
    trace (itemsFrom name i es) = Trace.itemsFrom name i (es.map trace) := by
  induction es generalizing i with
  | nil => rfl
  | cons e es ih =>
    rw [itemsFrom, trace_append, trace_scope, ih, List.map_cons, Trace.itemsFrom]

theorem bytes_items (name : String) (es : List Encoding) :
    bytes (items name es) = es.flatMap bytes := by
  rw [items_eq_itemsFrom, bytes_itemsFrom]

/-- Numbers recorded at their index are items that consist of nothing but a value. -/
theorem compactInt32Array_eq (name : String) (vs : List Int32) :
    compactInt32Array name vs = compactArray name (vs.map fun v => [⟨[], .int32 v⟩]) := by
  have same : (vs.mapIdx fun i v => leaf (indexed name i) (.int32 v))
      = (vs.map fun v => [⟨[], .int32 v⟩]).mapIdx fun i e => scope (indexed name i) e := by
    rw [List.mapIdx_eq_iff]
    intro i
    rw [List.getElem?_mapIdx, List.getElem?_map, Option.map_map]
    rfl
  rw [compactInt32Array, compactArray, items, same, List.length_map]

end Encoding

section Items

variable {name : String} {ps : List (β × Encoding)}

/-- Items are read back by as many reads of an element. -/
theorem ReadsBack.repeated {element : Nat → NotingRead ν β}
    (h : ∀ p ∈ ps, ∀ i, ReadsBack (element i) (Encoding.scope (indexed name i) p.2) p.1) (i : Nat) :
    ReadsBack (FieldRead.repeated element ps.length i)
      (Encoding.itemsFrom name i (ps.map Prod.snd)) (ps.map Prod.fst) := by
  induction ps generalizing i with
  | nil => exact pure []
  | cons p ps ih =>
    have first := h p List.mem_cons_self i
    have others := ih (fun q hq => h q (List.mem_cons_of_mem p hq)) (i + 1)
    refine ReadsBack.bind (f := fun a => do
      let as ← FieldRead.repeated element ps.length (i + 1)
      Pure.pure (a :: as)) first ?_
    exact others.bind_pure (p.1 :: ·)

theorem ReadsBack.repeated_scope {element : NotingRead ν β}
    (h : ∀ p ∈ ps, ReadsBack element p.2 p.1) :
    ReadsBack (FieldRead.repeated (fun i => FieldRead.scope (indexed name i) element) ps.length 0)
      (Encoding.items name (ps.map Prod.snd)) (ps.map Prod.fst) := by
  rw [Encoding.items_eq_itemsFrom]
  exact ReadsBack.repeated (fun p hp i => (h p hp).scope _) 0

end Items

/-! ### Elements until the end -/

/-- Some bytes, and what is read from them. -/
structure Piece (β : Type) where
  bytes : Bytes
  trace : Trace
  value : β

/-- The element reads the piece, whatever follows. -/
def Piece.ReadBy (p : Piece β) (element : NotingRead ν β) : Prop :=
  Reads element p.bytes p.trace p.value

section ToEnd

variable {name : String} {element : NotingRead ν β}

theorem untilEnd_stop {s : ReadState ν} (ahead : s.cursor.ahead = []) (fuel i : Nat) :
    FieldRead.untilEnd name element fuel i s = .ok [] s := by
  cases fuel with
  | zero => rfl
  | succ fuel =>
    show (if s.cursor.ahead.isEmpty then Pure.pure [] else _ : NotingRead ν (List β)) s = _
    rw [ahead]
    rfl

theorem untilEnd_step {s : ReadState ν} (ahead : s.cursor.ahead ≠ []) (fuel i : Nat) :
    FieldRead.untilEnd name element (fuel + 1) i s =
      (do
        let a ← FieldRead.scope (indexed name i) element
        let as ← FieldRead.untilEnd name element fuel (i + 1)
        Pure.pure (a :: as) : NotingRead ν (List β)) s := by
  have more : s.cursor.ahead.isEmpty = false := List.isEmpty_eq_false_iff.2 ahead
  show (if s.cursor.ahead.isEmpty then Pure.pure [] else _ : NotingRead ν (List β)) s = _
  rw [more]
  rfl

/-- What takes some bytes for each element has no more elements than bytes. -/
theorem length_le_flatMap {f : α → Bytes} {as : List α} (some : ∀ a ∈ as, 0 < (f a).length) :
    as.length ≤ (as.flatMap f).length := by
  induction as with
  | nil => exact Nat.le_refl 0
  | cons a as ih =>
    have first := some a List.mem_cons_self
    have others := ih fun b hb => some b (List.mem_cons_of_mem a hb)
    rw [List.length_cons, List.flatMap_cons, List.length_append]
    omega

theorem readsBefore_untilEnd_nil (fuel i : Nat) :
    ReadsBefore [] (FieldRead.untilEnd name element fuel i) [] [] [] where
  width := rfl
  run := by
    intro s ahead
    rw [untilEnd_stop ahead]
    exact (ReadsBefore.pure []).run s ahead

/-- An element that takes some byte is not the end. -/
theorem readsBefore_untilEnd_cons {used used' : Bytes} {t t' : Trace} {b : β} {bs : List β}
    {fuel i : Nat} (some : 0 < used.length)
    (first : Reads (FieldRead.scope (indexed name i) element) used t b)
    (others : ReadsBefore [] (FieldRead.untilEnd name element fuel (i + 1)) used' t' bs) :
    ReadsBefore [] (FieldRead.untilEnd name element (fuel + 1) i) (used ++ used') (t ++ t')
      (b :: bs) := by
  have whole : ReadsBefore [] (do
      let a ← FieldRead.scope (indexed name i) element
      let as ← FieldRead.untilEnd name element fuel (i + 1)
      Pure.pure (a :: as)) (used ++ used') (t ++ t') (b :: bs) :=
    (first _).bind (others.bind_pure (b :: ·))
  refine ⟨whole.width, fun s ahead => ?_⟩
  have more : s.cursor.ahead ≠ [] := by
    rw [ahead, ← List.length_pos_iff]
    simp only [List.length_append]
    omega
  rw [untilEnd_step more]
  exact whole.run s ahead

/-- Reading to the end meets all pieces, each of which is some byte at least. -/
theorem readsBefore_untilEnd {ps : List (Piece β)} (h : ∀ p ∈ ps, p.ReadBy element)
    (some : ∀ p ∈ ps, 0 < p.bytes.length) {fuel : Nat} (enough : ps.length ≤ fuel) (i : Nat) :
    ReadsBefore [] (FieldRead.untilEnd name element fuel i) (ps.flatMap Piece.bytes)
      (Trace.itemsFrom name i (ps.map Piece.trace)) (ps.map Piece.value) := by
  induction ps generalizing fuel i with
  | nil => exact readsBefore_untilEnd_nil fuel i
  | cons p ps ih =>
    -- one unit of fuel for each piece
    obtain ⟨fuel, rfl⟩ : ∃ k, fuel = k + 1 := Nat.exists_eq_succ_of_ne_zero
      (Nat.ne_of_gt (Nat.lt_of_lt_of_le (Nat.succ_pos _) enough))
    have first : Reads (FieldRead.scope (indexed name i) element) p.bytes _ p.value :=
      fun rest => (h p List.mem_cons_self rest).scope _
    have others := ih (fun q hq => h q (List.mem_cons_of_mem p hq))
      (fun q hq => some q (List.mem_cons_of_mem p hq)) (Nat.le_of_succ_le_succ enough) (i + 1)
    rw [List.flatMap_cons]
    exact readsBefore_untilEnd_cons (some p List.mem_cons_self) first others

/-- Elements in pieces of at least one byte each are all read by reading until no byte is left. -/
theorem readsBefore_all_pieces {ps : List (Piece β)} (h : ∀ p ∈ ps, p.ReadBy element)
    (some : ∀ p ∈ ps, 0 < p.bytes.length) :
    ReadsBefore [] (FieldRead.all name element) (ps.flatMap Piece.bytes)
      (Trace.itemsFrom name 0 (ps.map Piece.trace)) (ps.map Piece.value) := by
  have enough : ps.length ≤ (ps.flatMap Piece.bytes).length := length_le_flatMap some
  have whole : ReadsBefore [] (FieldRead.untilEnd name element _ 0) _ _ _ :=
    readsBefore_untilEnd h some enough 0
  refine ⟨whole.width, fun s ahead => ?_⟩
  show FieldRead.untilEnd name element s.cursor.ahead.length 0 s = _
  rw [ahead, List.append_nil]
  exact whole.run s ahead

/-- **Elements until the end**: items of at least one byte each are all read back by reading
elements until no byte is left. -/
theorem readsBefore_all {ps : List (β × Encoding)} (h : ∀ p ∈ ps, ReadsBack element p.2 p.1)
    (some : ∀ p ∈ ps, 0 < p.2.bytes.length) :
    ReadsBefore [] (FieldRead.all name element) (Encoding.items name (ps.map Prod.snd)).bytes
      (Encoding.items name (ps.map Prod.snd)).trace (ps.map Prod.fst) := by
  let pieces := ps.map fun p => (⟨p.2.bytes, p.2.trace, p.1⟩ : Piece β)
  have whole : ReadsBefore [] (FieldRead.all name element) (pieces.flatMap Piece.bytes)
      (Trace.itemsFrom name 0 (pieces.map Piece.trace)) (pieces.map Piece.value) := by
    apply readsBefore_all_pieces
    · intro q hq
      obtain ⟨p, hp, rfl⟩ := List.mem_map.1 hq
      exact h p hp
    · intro q hq
      obtain ⟨p, hp, rfl⟩ := List.mem_map.1 hq
      exact some p hp
  rw [Encoding.bytes_items, Encoding.items_eq_itemsFrom, Encoding.trace_itemsFrom]
  simp only [pieces, List.flatMap_map, List.map_map] at whole ⊢
  exact whole

end ToEnd

/-! ### Arrays with a length in front -/

section Counted

variable {name : String} {ps : List (β × Encoding)} {element : NotingRead ν β}

/-- The length in front of a compact array counts its items. -/
theorem readsBack_counted {element : Nat → NotingRead ν β} {n : Nat} {e : Encoding} {bs : List β}
    (count : n < 0x8000000000000000) (h : ReadsBack (FieldRead.repeated element n 0) e bs) :
    ReadsBack (do
        let raw ← FieldRead.field "Length" Kind.compactArrayLength
        FieldRead.repeated element (raw.toNat - 1) 0)
      (Encoding.compactLength n ++ e) bs := by
  refine ReadsBack.bind (ReadsBack.field "Length" (RawRead.reads_unsignedVarint _)) ?_
  rw [(RawRead.compactLength_counts count).2]
  exact h

theorem ReadsBack.compactArray (h : ∀ p ∈ ps, ReadsBack element p.2 p.1)
    (count : ps.length < 0x8000000000000000) :
    ReadsBack (FieldRead.compactArray name element)
      (Encoding.compactArray name (ps.map Prod.snd)) (ps.map Prod.fst) := by
  rw [Encoding.compactArray, List.length_map]
  exact ReadsBack.scope name (readsBack_counted count (ReadsBack.repeated_scope h))

theorem ReadsBack.compactInt32Array {vs : List Int32} (count : vs.length < 0x8000000000000000) :
    ReadsBack (FieldRead.compactInt32Array name : NotingRead ν (List Int32))
      (Encoding.compactInt32Array name vs) vs := by
  let ps := vs.map fun v => (v, ([⟨[], .int32 v⟩] : Encoding))
  have items : ReadsBack (FieldRead.repeated
      (fun i => FieldRead.field (indexed name i) Kind.int32 : Nat → NotingRead ν Int32) ps.length 0)
      (Encoding.itemsFrom name 0 (ps.map Prod.snd)) (ps.map Prod.fst) := by
    apply ReadsBack.repeated
    intro p hp i
    obtain ⟨v, -, rfl⟩ := List.mem_map.1 hp
    exact ReadsBack.field (indexed name i) (RawRead.reads_int32 v)
  have fst : ps.map Prod.fst = vs := by
    rw [List.map_map]
    exact List.map_id vs
  have snd : ps.map Prod.snd = vs.map fun v => [⟨[], .int32 v⟩] := List.map_map ..
  rw [fst, snd, List.length_map, ← Encoding.items_eq_itemsFrom] at items
  rw [Encoding.compactInt32Array_eq, Encoding.compactArray, List.length_map]
  exact ReadsBack.scope name (readsBack_counted count items)

theorem int32Length_counts {n : Nat} (h : n < 0x80000000) :
    ¬ Int32.ofNat n < -1 ∧ (Int32.ofNat n).toInt = n := by
  have counts : (Int32.ofNat n).toInt = n := Int32.toInt_ofNat_of_lt h
  refine ⟨fun below => ?_, counts⟩
  rw [Int32.lt_iff_toInt_lt, counts, show (-1 : Int32).toInt = -1 from rfl] at below
  omega

/-- The length in front of an array is signed, and counts its items if there are not too many. -/
theorem ReadsBack.array (h : ∀ p ∈ ps, ReadsBack element p.2 p.1) (count : ps.length < 0x80000000) :
    ReadsBack (FieldRead.array name element)
      (Encoding.array name (ps.map Prod.snd)) (ps.map Prod.fst) := by
  obtain ⟨notBelow, counts⟩ := int32Length_counts count
  rw [Encoding.array, List.length_map]
  refine ReadsBack.scope name (ReadsBack.anchored_bind "Length" (RawRead.reads_int32 _) ?_)
  intro anchor
  show ReadsBack (if Int32.ofNat ps.length < -1 then _ else _) _ _
  rw [if_neg notBelow, counts]
  exact ReadsBack.repeated_scope h

end Counted

/-! ### Locality -/

namespace FieldRead

variable {element : NotingRead ν α}

theorem Local.repeated {element : Nat → NotingRead ν α} (h : ∀ i, Local (element i))
    (count i : Nat) : Local (repeated element count i) := by
  induction count generalizing i with
  | zero => exact Local.pure []
  | succ count ih => exact (h i).bind fun a => (ih (i + 1)).bind fun as => Local.pure (a :: as)

theorem Local.compactArray (name : String) (h : Local element) :
    Local (compactArray name element) := by
  refine Local.scope name (Local.bind (Local.field "Length" RawRead.unsignedVarint_isLocal) ?_)
  intro raw
  exact Local.repeated (fun i => h.scope _) _ 0

theorem Local.compactInt32Array (name : String) :
    Local (compactInt32Array name : NotingRead ν (List Int32)) := by
  refine Local.scope name (Local.bind (Local.field "Length" RawRead.unsignedVarint_isLocal) ?_)
  intro raw
  exact Local.repeated (fun i => Local.field _ Kind.Plain.int32.isLocal) _ 0

theorem Local.array (name : String) (h : Local element) : Local (array name element) := by
  refine Local.scope name (Local.anchored_bind "Length" Kind.Plain.int32.isLocal ?_)
  intro length
  show LocalFamily fun anchor : Anchor => if length < -1 then _ else _
  split
  · exact LocalFamily.throw _
  · exact (Local.repeated (fun i => h.scope _) _ 0).family

/-! ### Pieces -/

/-- Each successful run moves the cursor. -/
def Eats (r : NotingRead ν α) : Prop :=
  ∀ s a s', r s = .ok a s' → s.cursor.offset < s'.cursor.offset

theorem Eats.bind_left {r : NotingRead ν α} {f : α → NotingRead ν β} (hr : Eats r)
    (hf : ∀ a, Local (f a)) : Eats (r >>= f) := by
  intro s b s' run
  obtain ⟨a, s₁, run₁, run₂⟩ := ok_of_bind run
  obtain ⟨used, left, t, ahead, hused⟩ := hf a s₁ b s' run₂
  obtain ⟨-, rfl⟩ := (hused left).eq_past ahead run₂
  exact Nat.lt_of_lt_of_le (hr s a s₁ run₁) (Nat.le_add_right _ _)

/-- A read of one element takes a piece of what is in sight. -/
theorem piece_of_scope {segment : String} (h : Local element) (eats : Eats element)
    {s s' : ReadState ν} {a : α} (run : scope segment element s = .ok a s') :
    ∃ p : Piece α, p.value = a ∧ s.cursor.ahead = p.bytes ++ s'.cursor.ahead ∧
      p.ReadBy element ∧ 0 < p.bytes.length := by
  obtain ⟨s₁, body, rfl⟩ := ok_of_scope run
  obtain ⟨used, left, t, split, hused⟩ := h _ a s₁ body
  obtain ⟨-, rfl⟩ := (hused left).eq_past split body
  have moved := eats _ a _ body
  rw [ReadState.past_offset, (hused left).width] at moved
  exact ⟨⟨used, t, a⟩, rfl, split, hused, Nat.lt_add_right_iff_pos.1 moved⟩

/-- Reading elements that take some byte each, as many as there are bytes, cuts what is in sight
into pieces, one for each. -/
theorem pieces_of_untilEnd {name : String} (h : Local element) (eats : Eats element) {fuel i : Nat}
    {s s' : ReadState ν} {as : List α} (enough : s.cursor.ahead.length ≤ fuel)
    (run : untilEnd name element fuel i s = .ok as s') :
    ∃ ps : List (Piece α), s.cursor.ahead = ps.flatMap Piece.bytes ∧ as = ps.map Piece.value ∧
      ∀ p ∈ ps, p.ReadBy element ∧ 0 < p.bytes.length := by
  have nothing : ∀ p ∈ ([] : List (Piece α)), p.ReadBy element ∧ 0 < p.bytes.length :=
    fun p hp => absurd hp List.not_mem_nil
  -- the fuel bounds the bytes in sight, so that it lasts to the end
  induction fuel generalizing i s as with
  | zero =>
    have ahead : s.cursor.ahead = [] := List.eq_nil_of_length_eq_zero (Nat.le_zero.1 enough)
    obtain ⟨rfl, rfl⟩ := EStateM.Result.ok.inj run
    exact ⟨[], ahead, rfl, nothing⟩
  | succ fuel ih =>
    by_cases ahead : s.cursor.ahead = []
    · rw [untilEnd_stop ahead] at run
      obtain ⟨rfl, rfl⟩ := EStateM.Result.ok.inj run
      exact ⟨[], ahead, rfl, nothing⟩
    · rw [untilEnd_step ahead] at run
      obtain ⟨a, s₁, run₁, run⟩ := ok_of_bind run
      obtain ⟨bs, s₂, run₂, run⟩ := ok_of_bind run
      obtain ⟨rfl, rfl⟩ := EStateM.Result.ok.inj run
      obtain ⟨p, rfl, split, first, some⟩ := piece_of_scope h eats run₁
      -- the element took some byte, so that one unit of fuel less is still enough
      have fewer : s₁.cursor.ahead.length ≤ fuel := by
        rw [split, List.length_append] at enough
        omega
      obtain ⟨ps, cut, rfl, each⟩ := ih fewer run₂
      refine ⟨p :: ps, ?_, rfl, ?_⟩
      · rw [split, cut, List.flatMap_cons]
      · rintro q hq
        rcases List.mem_cons.1 hq with rfl | hq
        · exact ⟨first, some⟩
        · exact each q hq

/-- Bytes that were read to the end are cut into pieces that are read one by one. -/
theorem ok_of_all {name : String} (h : Local element) (eats : Eats element)
    {s s' : ReadState ν} {as : List α} (run : all name element s = .ok as s') :
    ∃ ps : List (Piece α), s.cursor.ahead = ps.flatMap Piece.bytes ∧ as = ps.map Piece.value ∧
      ∀ p ∈ ps, p.ReadBy element ∧ 0 < p.bytes.length :=
  pieces_of_untilEnd h eats (Nat.le_refl _) run

end FieldRead
end BrokerExam
