/-
BrokerExam/Proofs/Frame.lean

Frames by their parts: the size that is announced, and the bytes behind it,
which may be fewer.
-/
import BrokerExam.Frame
import BrokerExam.Wire.Encoding

namespace BrokerExam.Frame

section Parts

variable {size : Nat} {bs : Bytes}

theorem payload_parts : (Frame.mk (BigEndian.encode sizeBytes size ++ bs)).payload = bs :=
  List.drop_left' (BigEndian.length_encode sizeBytes size)

theorem take_parts :
    (BigEndian.encode sizeBytes size ++ bs).take sizeBytes = BigEndian.encode sizeBytes size :=
  List.take_left' (BigEndian.length_encode sizeBytes size)

theorem declared_parts (short : size < 0x80000000) :
    (Frame.mk (BigEndian.encode sizeBytes size ++ bs)).declared.toInt = size := by
  have small : size < BigEndian.span sizeBytes := Nat.lt_trans short (by decide)
  rw [declared, take_parts, BigEndian.decode_encode, Nat.mod_eq_of_lt small]
  exact Int32.toInt_ofNat_of_lt short

/-- The size is right for as many bytes as it announces, and wrong for any others. -/
theorem checkSize_parts (short : size < 0x80000000) :
    (Frame.mk (BigEndian.encode sizeBytes size ++ bs)).checkSize =
      if bs.length = size then .ok () else .error (.wrongSize size bs.length) := by
  have whole : ¬ (BigEndian.encode sizeBytes size ++ bs).length < sizeBytes := by
    simp [BigEndian.length_encode]
  rw [checkSize, if_neg whole, payload_parts, declared_parts short]
  simp only [Int.natCast_inj, eq_comm (a := size)]

end Parts

theorem payload_frame (payload : Bytes) : (Frame.mk (frame payload)).payload = payload :=
  payload_parts

/-- What is framed has the right size, if the size can be told in a signed number. -/
theorem checkSize_frame {payload : Bytes} (short : payload.length < 0x80000000) :
    (Frame.mk (frame payload)).checkSize = .ok () :=
  (checkSize_parts short).trans (if_pos rfl)

/-- No other payload has the right size once it is framed. -/
theorem checkSize_frame_iff {payload : Bytes} :
    (Frame.mk (frame payload)).checkSize = .ok () ↔ payload.length < 0x80000000 := by
  refine ⟨fun right => ?_, checkSize_frame⟩
  rw [checkSize] at right
  split at right
  · cases right
  · split at right
    · next same =>
      have told := (Frame.mk (frame payload)).declared.toInt_lt
      rw [same, payload_frame] at told
      omega
    · cases right

/-- What is behind a message is behind its payload. -/
theorem frame_append (payload rest : Bytes) :
    frame payload ++ rest =
      BigEndian.encode sizeBytes payload.length ++ (payload ++ rest) := List.append_assoc ..

theorem length_frame (payload : Bytes) : (frame payload).length = sizeBytes + payload.length := by
  rw [frame, List.length_append, BigEndian.length_encode, sizeBytes]

end BrokerExam.Frame
