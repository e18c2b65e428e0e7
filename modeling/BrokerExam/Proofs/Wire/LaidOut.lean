/-
BrokerExam/Proofs/Wire/LaidOut.lean

Codecs with a layout: those that are read in an orderly way.  A codec determines
its layout, so that it is found along with the proof, by instances alone.
-/
import BrokerExam.Proofs.Wire.Orderly
import BrokerExam.Wire.Codec

namespace BrokerExam.Codec

variable {α β γ : Type}

/-- The codec is read in an orderly way, and is the first to record anything. -/
class LaidOut (c : Codec α β) (l : outParam Layout) : Prop where
  orderly : Orderly l [] c.read

theorem LaidOut.orderly_with {c : Codec α β} {l : Layout} (h : c.LaidOut l)
    (anchors : List Anchor) : Orderly l anchors c.read := h.orderly.weaken (List.nil_subset anchors)

instance (b : β) : (pure b : Codec α β).LaidOut .nothing := ⟨Orderly.pure b⟩

instance {c : Codec α β} {f : β → Codec α γ} {l l' : Layout} [h : c.LaidOut l]
    [h' : ∀ b, (f b).LaidOut l'] : (c >>= f).LaidOut (.both l l') :=
  ⟨h.orderly.bind .both fun b => (h' b).orderly⟩

instance {c : Codec α β} {l : Layout} [h : c.LaidOut l] (part : γ → α) : (c.on part).LaidOut l :=
  ⟨h.orderly⟩

instance {c : Codec α β} {l : Layout} [h : c.LaidOut l] (segment : String) :
    (c.scope segment).LaidOut (.scope segment l) := ⟨h.orderly.scope segment⟩

section Kinds

variable (segment : String)

instance : (int8 segment).LaidOut (.leaf segment .int8) :=
  ⟨Orderly.field (.plain .int8) fun _ => rfl⟩
instance : (int16 segment).LaidOut (.leaf segment .int16) :=
  ⟨Orderly.field (.plain .int16) fun _ => rfl⟩
instance : (int32 segment).LaidOut (.leaf segment .int32) :=
  ⟨Orderly.field (.plain .int32) fun _ => rfl⟩
instance : (int64 segment).LaidOut (.leaf segment .int64) :=
  ⟨Orderly.field (.plain .int64) fun _ => rfl⟩
instance : (varint segment).LaidOut (.leaf segment .varint) :=
  ⟨Orderly.field (.plain .varint) fun _ => rfl⟩
instance : (compactString segment).LaidOut (.leaf segment .compactString) :=
  ⟨Orderly.field (.plain .compactString) fun _ => rfl⟩
instance : (compactNullableString segment).LaidOut (.leaf segment .compactNullableString) :=
  ⟨Orderly.field (.plain .compactNullableString) fun _ => rfl⟩
instance : (uuid segment).LaidOut (.leaf segment .uuid) :=
  ⟨Orderly.field (.plain .uuid) fun _ => rfl⟩
instance : (boolean segment).LaidOut (.leaf segment .boolean) :=
  ⟨Orderly.field (.plain .boolean) fun _ => rfl⟩

end Kinds

instance : (tagBuffer : Codec α Unit).LaidOut .tagBuffer := ⟨Orderly.tagBuffer⟩

section Arrays

variable (name : String) {element : Codec α β} {l : Layout}

instance [h : element.LaidOut l] :
    (compactArray name element).LaidOut (.array .compactArrayLength name l) :=
  ⟨h.orderly.compactArray⟩

instance : (compactInt32Array name).LaidOut (.array .compactArrayLength name (.value .int32)) :=
  ⟨Orderly.compactInt32Array⟩

instance [h : element.LaidOut l] : (array name element).LaidOut (.array .int32 name l) :=
  ⟨h.orderly.array⟩

end Arrays
end BrokerExam.Codec
