import Mathlib

/-!
# UTF-8 as lists of bytes

Decoding inverts encoding, and refuses every list of bytes that is no encoding.
-/

namespace Fine.Utf8

def encode (text : String) : List UInt8 := text.toList.flatMap String.utf8EncodeChar

/-- Text of a list of bytes, if it is the encoding of one. -/
def decode (bytes : List UInt8) : Option String :=
  (ByteArray.utf8Decode? ⟨bytes.toArray⟩).map fun letters => String.ofList letters.toList

theorem byteArray_encode (text : String) :
    (⟨(encode text).toArray⟩ : ByteArray) = text.toList.utf8Encode := by
  apply ByteArray.ext
  simp [encode, List.utf8Encode]

@[simp] theorem decode_encode (text : String) : decode (encode text) = some text := by
  rw [decode, byteArray_encode, List.utf8Decode?_utf8Encode]
  simp

theorem encode_of_decode {bytes : List UInt8} {text : String} (decoded : decode bytes = some text) :
    encode text = bytes := by
  rw [decode, Option.map_eq_some_iff] at decoded
  obtain ⟨letters, found, rfl⟩ := decoded
  have valid : (ByteArray.utf8Decode? ⟨bytes.toArray⟩).isSome = true := by rw [found]; rfl
  have same := ByteArray.utf8Encode_get_utf8Decode? (b := ⟨bytes.toArray⟩) (h := valid)
  have read : (ByteArray.utf8Decode? ⟨bytes.toArray⟩).get valid = letters := by
    simp [found]
  rw [read] at same
  have array := byteArray_encode (String.ofList letters.toList)
  rw [String.toList_ofList, same] at array
  simpa using congrArg (fun array => array.data.toList) array

theorem encode_append (first second : List Char) :
    encode (String.ofList (first ++ second)) =
      encode (String.ofList first) ++ encode (String.ofList second) := by
  simp [encode]

end Fine.Utf8
