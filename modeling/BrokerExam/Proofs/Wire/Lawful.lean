/-
BrokerExam/Proofs/Wire/Lawful.lean

Lawful codecs: what is written is read back, whatever follows it, and what is
read depends on nothing behind it.  The value read back is the one that `write`
returns, which for most codecs is the value written.

Lawfulness follows the way a codec is put together.  For codecs that write every
value it is a class, so that a message made of such codecs is lawful by
instances alone; the few that do not write every value say for which they do
(`LawfulOn`).

An array needs its elements to take some byte each (`Solid`): only then can
there be no more of them than its length can count.
-/
import BrokerExam.Proofs.Wire.Arrays
import BrokerExam.Wire.Codec

namespace BrokerExam

/-- No text is too long for its length prefix. -/
def Encoding.Short (e : Encoding) : Prop := ∀ l ∈ e, l.value.overlong? = none

namespace Codec

variable {α β γ : Type}

/-- What is written for a value with `ok` is read back; no byte string has more than `2 ^ 63`
bytes. -/
structure LawfulOn (c : Codec α β) (ok : α → Prop) : Prop where
  reads : ∀ a, ok a → (c.write a).2.bytes.length < 0x8000000000000000 →
    ReadsBack c.read (c.write a).2 (c.write a).1
  short : ∀ a, ok a → (c.write a).2.Short
  isLocal : FieldRead.Local c.read

/-- What is written for any value is read back. -/
class Lawful (c : Codec α β) : Prop where
  on_all : c.LawfulOn fun _ => True

/-- Something is written for every value. -/
class Solid (c : Codec α β) : Prop where
  length_pos : ∀ a, 0 < (c.write a).2.bytes.length

end Codec

/-! ### Short encodings -/

namespace Encoding

theorem Short.render {e : Encoding} (h : e.Short) : e.render = .ok e.bytes := by
  have none : e.findSome? (fun l => l.value.overlong?) = none := List.findSome?_eq_none_iff.2 h
  rw [Encoding.render, none]

/-- What is rendered are the bytes. -/
theorem eq_of_render {e : Encoding} {bs : Bytes} (h : e.render = .ok bs) : bs = e.bytes := by
  rw [Encoding.render] at h
  split at h
  · cases h
  · exact (Except.ok.inj h).symm

theorem Short.nil : Short [] := fun _ hl => absurd hl List.not_mem_nil

theorem Short.append {e e' : Encoding} (h : e.Short) (h' : e'.Short) : (e ++ e').Short :=
  fun l hl => (List.mem_append.1 hl).elim (h l) (h' l)

theorem Short.leaf (segment : String) {v : Value} (h : v.overlong? = none) :
    (leaf segment v).Short := by
  intro l hl
  rw [List.mem_singleton.1 hl]
  exact h

theorem Short.scope (segment : String) {e : Encoding} (h : e.Short) : (scope segment e).Short := by
  intro l hl
  obtain ⟨m, hm, rfl⟩ := List.mem_map.1 hl
  exact h m hm

theorem Short.itemsFrom {es : List Encoding} (h : ∀ e ∈ es, e.Short) (name : String) (i : Nat) :
    (itemsFrom name i es).Short := by
  induction es generalizing i with
  | nil => exact Short.nil
  | cons e es ih =>
    exact (Short.scope _ (h e List.mem_cons_self)).append
      (ih (fun f hf => h f (List.mem_cons_of_mem e hf)) (i + 1))

theorem Short.items {es : List Encoding} (h : ∀ e ∈ es, e.Short) (name : String) :
    (items name es).Short := by
  rw [items_eq_itemsFrom]
  exact Short.itemsFrom h name 0

theorem Short.compactArray {es : List Encoding} (h : ∀ e ∈ es, e.Short) (name : String) :
    (compactArray name es).Short :=
  Short.scope name ((Short.leaf "Length" rfl).append (Short.items h name))

end Encoding

namespace Codec

variable {α β γ : Type}

/-! ### Sequences -/

theorem length_bytes_bind (c : Codec α β) (f : β → Codec α γ) (a : α) :
    ((c >>= f).write a).2.bytes.length =
      (c.write a).2.bytes.length + ((f (c.write a).1).write a).2.bytes.length := by
  show (Encoding.bytes ((c.write a).2 ++ ((f (c.write a).1).write a).2)).length = _
  rw [Encoding.bytes_append, List.length_append]

namespace LawfulOn

variable {c : Codec α β} {ok ok' : α → Prop}

theorem of [h : c.Lawful] : c.LawfulOn ok where
  reads a _ := h.on_all.reads a trivial
  short a _ := h.on_all.short a trivial
  isLocal := h.on_all.isLocal

theorem mono (h : c.LawfulOn ok) (weaker : ∀ a, ok' a → ok a) : c.LawfulOn ok' where
  reads a ha := h.reads a (weaker a ha)
  short a ha := h.short a (weaker a ha)
  isLocal := h.isLocal

theorem on {part : γ → α} {okWhole : γ → Prop} (h : c.LawfulOn ok)
    (weaker : ∀ g, okWhole g → ok (part g)) : (c.on part).LawfulOn okWhole where
  reads g hg := h.reads (part g) (weaker g hg)
  short g hg := h.short (part g) (weaker g hg)
  isLocal := h.isLocal

theorem scope (segment : String) (h : c.LawfulOn ok) : (c.scope segment).LawfulOn ok where
  reads a ha fits := by
    have fits' : (c.write a).2.bytes.length < 0x8000000000000000 := by
      rw [← Encoding.bytes_scope segment]
      exact fits
    exact ReadsBack.scope segment (h.reads a ha fits')
  short a ha := Encoding.Short.scope segment (h.short a ha)
  isLocal := FieldRead.Local.scope segment h.isLocal

/-- What comes second knows what was written first. -/
theorem bind_written {f : β → Codec α γ} (hc : c.LawfulOn ok)
    (hf : ∀ b, (f b).LawfulOn fun a => ok a ∧ (c.write a).1 = b) : (c >>= f).LawfulOn ok where
  reads a ha fits := by
    rw [length_bytes_bind] at fits
    exact (hc.reads a ha (by omega)).bind ((hf _).reads a ⟨ha, rfl⟩ (by omega))
  short a ha := (hc.short a ha).append ((hf _).short a ⟨ha, rfl⟩)
  isLocal := hc.isLocal.bind fun b => (hf b).isLocal

theorem bind {f : β → Codec α γ} (hc : c.LawfulOn ok) (hf : ∀ b, (f b).LawfulOn ok) :
    (c >>= f).LawfulOn ok :=
  hc.bind_written fun b => (hf b).mono fun _ ha => ha.1

end LawfulOn

instance (b : β) : (pure b : Codec α β).Lawful where
  on_all := {
    reads := fun _ _ _ => ReadsBack.pure b
    short := fun _ _ => Encoding.Short.nil
    isLocal := FieldRead.Local.pure b }

instance {c : Codec α β} {f : β → Codec α γ} [c.Lawful] [∀ b, (f b).Lawful] :
    (c >>= f).Lawful where
  on_all := LawfulOn.of.bind fun _ => LawfulOn.of

instance {c : Codec α β} [h : c.Lawful] (part : γ → α) : (c.on part).Lawful where
  on_all := h.on_all.on fun _ _ => trivial

instance {c : Codec α β} [c.Lawful] (segment : String) : (c.scope segment).Lawful where
  on_all := LawfulOn.scope segment LawfulOn.of

instance {c : Codec α β} {f : β → Codec α γ} [h : c.Solid] : (c >>= f).Solid where
  length_pos a := by
    rw [length_bytes_bind]
    exact Nat.add_pos_left (h.length_pos a) _

instance {c : Codec α β} [h : c.Solid] (part : γ → α) : (c.on part).Solid where
  length_pos g := h.length_pos (part g)

/-! ### Single fields -/

theorem lawful_field (segment : String) {kind : Kind α} (h : kind.Plain) :
    (field segment kind).Lawful where
  on_all := {
    reads := fun a _ fits => by
      have fits' : (kind.value a).bytes.length < 0x8000000000000000 := by
        rw [← Encoding.bytes_leaf segment]
        exact fits
      exact ReadsBack.field segment (h.takes fits')
    short := fun a _ => Encoding.Short.leaf segment (h.overlong?_eq_none a)
    isLocal := FieldRead.Local.field segment h.isLocal }

theorem solid_field (segment : String) {kind : Kind α} (h : kind.Plain) :
    (field segment kind).Solid where
  length_pos a := by
    show 0 < (Encoding.leaf segment (kind.value a)).bytes.length
    rw [Encoding.bytes_leaf]
    exact h.length_pos a

section Kinds

variable (segment : String)

instance : (int8 segment).Lawful := lawful_field segment .int8
instance : (int16 segment).Lawful := lawful_field segment .int16
instance : (int32 segment).Lawful := lawful_field segment .int32
instance : (int64 segment).Lawful := lawful_field segment .int64
instance : (varint segment).Lawful := lawful_field segment .varint
instance : (compactString segment).Lawful := lawful_field segment .compactString
instance : (compactNullableString segment).Lawful := lawful_field segment .compactNullableString
instance : (uuid segment).Lawful := lawful_field segment .uuid
instance : (boolean segment).Lawful := lawful_field segment .boolean

instance : (int16 segment).Solid := solid_field segment .int16
instance : (int32 segment).Solid := solid_field segment .int32
instance : (int64 segment).Solid := solid_field segment .int64
instance : (compactString segment).Solid := solid_field segment .compactString
instance : (uuid segment).Solid := solid_field segment .uuid

/-- A text that is too long for the signed 16 bits in front of it cannot be written. -/
theorem lawfulOn_string :
    (string segment).LawfulOn fun v => (Value.string v).overlong? = none where
  reads _ short _ := ReadsBack.field segment (RawRead.reads_string short)
  short _ short := Encoding.Short.leaf segment short
  isLocal := FieldRead.Local.field segment RawRead.string_isLocal

end Kinds

instance : (tagBuffer : Codec α Unit).Lawful where
  on_all := {
    reads := fun _ _ _ => ReadsBack.tagBuffer
    short := fun _ _ => Encoding.Short.leaf tagBufferSegment rfl
    isLocal := FieldRead.Local.tagBuffer }

/-! ### Arrays -/

section Arrays

variable {element : Codec α β} {ok : α → Prop}

/-- The items with what is written for each. -/
theorem writeItems_eq (as : List α) :
    element.writeItems as =
      ((as.map element.write).map Prod.fst, (as.map element.write).map Prod.snd) := by
  rw [writeItems, List.map_map, List.map_map]
  rfl

theorem length_items_pos [h : element.Solid] (as : List α) :
    ∀ p ∈ as.map element.write, 0 < p.2.bytes.length := by
  intro p hp
  obtain ⟨a, -, rfl⟩ := List.mem_map.1 hp
  exact h.length_pos a

/-- Each item takes no more bytes than all of them. -/
theorem length_item_le {ps : List (β × Encoding)} {p : β × Encoding} (hp : p ∈ ps) (name : String) :
    p.2.bytes.length ≤ (Encoding.items name (ps.map Prod.snd)).bytes.length := by
  have part : p.2.bytes.Sublist ((ps.map Prod.snd).map Encoding.bytes).flatten :=
    List.sublist_flatten_of_mem (List.mem_map_of_mem (List.mem_map_of_mem hp))
  rw [Encoding.bytes_items, List.flatMap_def]
  exact part.length_le

theorem readsBack_items (h : element.LawfulOn ok) {as : List α} (oks : ∀ a ∈ as, ok a)
    (name : String) (fits : (Encoding.items name ((as.map element.write).map Prod.snd)).bytes.length
      < 0x8000000000000000) :
    ∀ p ∈ as.map element.write, ReadsBack element.read p.2 p.1 := by
  intro p hp
  have small := length_item_le hp name
  obtain ⟨a, ha, rfl⟩ := List.mem_map.1 hp
  exact h.reads a (oks a ha) (Nat.lt_of_le_of_lt small fits)

theorem short_items (h : element.LawfulOn ok) {as : List α} (oks : ∀ a ∈ as, ok a) :
    ∀ e ∈ (as.map element.write).map Prod.snd, e.Short := by
  intro e he
  obtain ⟨p, hp, rfl⟩ := List.mem_map.1 he
  obtain ⟨a, ha, rfl⟩ := List.mem_map.1 hp
  exact h.short a (oks a ha)

/-- There are no more items than bytes. -/
theorem length_le_items [element.Solid] (as : List α) (name : String) :
    as.length ≤ (Encoding.items name ((as.map element.write).map Prod.snd)).bytes.length := by
  have some : ∀ e ∈ (as.map element.write).map Prod.snd, 0 < e.bytes.length := by
    intro e he
    obtain ⟨p, hp, rfl⟩ := List.mem_map.1 he
    exact length_items_pos as p hp
  have few := length_le_flatMap some
  rw [Encoding.bytes_items]
  rwa [List.length_map, List.length_map] at few

theorem length_items_le_compactArray (element : Codec α β) (as : List α) (name : String) :
    (Encoding.items name ((as.map element.write).map Prod.snd)).bytes.length
      ≤ ((compactArray name element).write as).2.bytes.length := by
  simp only [compactArray, writeItems_eq, Encoding.compactArray, Encoding.bytes_scope,
    Encoding.bytes_append, List.length_append]
  exact Nat.le_add_left _ _

theorem length_items_le_array (element : Codec α β) (as : List α) (name : String) :
    (Encoding.items name ((as.map element.write).map Prod.snd)).bytes.length
      ≤ ((array name element).write as).2.bytes.length := by
  simp only [array, writeItems_eq, Encoding.array, Encoding.bytes_scope, Encoding.bytes_append,
    List.length_append]
  exact Nat.le_add_left _ _

/-- An element takes no more bytes than the array. -/
theorem length_element_le {as : List α} {a : α} (ha : a ∈ as) (name : String) :
    (element.write a).2.bytes.length ≤ ((compactArray name element).write as).2.bytes.length :=
  calc (element.write a).2.bytes.length
    _ ≤ (Encoding.items name ((as.map element.write).map Prod.snd)).bytes.length :=
      length_item_le (List.mem_map_of_mem ha) name
    _ ≤ ((compactArray name element).write as).2.bytes.length :=
      length_items_le_compactArray element as name

/-- Since each element takes some byte, the bytes of an array bound what its length must count. -/
theorem LawfulOn.compactArray [element.Solid] (name : String) (h : element.LawfulOn ok) :
    (compactArray name element).LawfulOn fun as => ∀ a ∈ as, ok a where
  reads as oks fits := by
    have inside := length_items_le_compactArray element as name
    have items := readsBack_items h oks name (Nat.lt_of_le_of_lt inside fits)
    have count : (as.map element.write).length < 0x8000000000000000 := by
      rw [List.length_map]
      exact Nat.lt_of_le_of_lt (Nat.le_trans (length_le_items as name) inside) fits
    simp only [Codec.compactArray, writeItems_eq]
    exact ReadsBack.compactArray items count
  short as oks := by
    simp only [Codec.compactArray, writeItems_eq]
    exact Encoding.Short.compactArray (short_items h oks) name
  isLocal := FieldRead.Local.compactArray name h.isLocal

instance [h : element.Lawful] [element.Solid] (name : String) :
    (compactArray name element).Lawful where
  on_all := (LawfulOn.compactArray name h.on_all).mono fun _ _ _ _ => trivial

/-- The length in front of an array must count its elements in 32 bits. -/
theorem LawfulOn.array (name : String) (h : element.LawfulOn ok) :
    (array name element).LawfulOn fun as => as.length < 0x80000000 ∧ ∀ a ∈ as, ok a where
  reads as oks fits := by
    have inside := length_items_le_array element as name
    have items := readsBack_items h oks.2 name (Nat.lt_of_le_of_lt inside fits)
    have count : (as.map element.write).length < 0x80000000 := by
      rw [List.length_map]
      exact oks.1
    simp only [Codec.array, writeItems_eq]
    exact ReadsBack.array items count
  short as oks := by
    simp only [Codec.array, writeItems_eq]
    exact Encoding.Short.scope name
      ((Encoding.Short.leaf "Length" rfl).append (Encoding.Short.items (short_items h oks.2) name))
  isLocal := FieldRead.Local.array name h.isLocal

end Arrays

/-- Numbers that are items of nothing but a value are as many as there are bytes at most. -/
theorem length_le_int32s (vs : List Int32) (name : String) :
    vs.length ≤ (Encoding.compactInt32Array name vs).bytes.length := by
  have some : ∀ e ∈ vs.map fun v => ([⟨[], .int32 v⟩] : Encoding),
      0 < (Encoding.bytes e).length := by
    intro e he
    obtain ⟨v, -, rfl⟩ := List.mem_map.1 he
    exact (solid_field "" Kind.Plain.int32).length_pos v
  have few := length_le_flatMap some
  rw [List.length_map, ← Encoding.bytes_items name] at few
  rw [Encoding.compactInt32Array_eq, Encoding.compactArray, Encoding.bytes_scope,
    Encoding.bytes_append, List.length_append]
  exact Nat.le_trans few (Nat.le_add_left _ _)

instance (name : String) : (compactInt32Array name).Lawful where
  on_all := {
    reads := fun vs _ fits =>
      ReadsBack.compactInt32Array (Nat.lt_of_le_of_lt (length_le_int32s vs name) fits)
    short := fun vs _ => by
      show (Encoding.compactInt32Array name vs).Short
      rw [Encoding.compactInt32Array_eq]
      refine Encoding.Short.compactArray (fun e he => ?_) name
      obtain ⟨v, -, rfl⟩ := List.mem_map.1 he
      intro l hl
      rw [List.mem_singleton.1 hl]
      rfl
    isLocal := FieldRead.Local.compactInt32Array name }

end Codec
end BrokerExam
