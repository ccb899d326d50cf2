/-!
# HttpCache.Text.Bytes

Octet sequences, and the two directions between text and its UTF-8 octets.

* `utf8 s` — the octets of a text.
* `ofUtf8? bs` — the text of a well-formed octet sequence, `none` for any other.

The two are inverse to each other (`ofUtf8?_utf8`, `utf8_of_ofUtf8?`), and `utf8` turns
concatenation of texts into concatenation of octets.
-/

namespace HttpCache

abbrev Bytes := List UInt8

namespace Text

def utf8 (s : String) : Bytes := s.toByteArray.data.toList

/-- The text that a sequence of octets encodes, if it is well-formed UTF-8. -/
def ofUtf8? (bs : Bytes) : Option String := String.fromUTF8? ⟨bs.toArray⟩

theorem ofUtf8?_utf8 (s : String) : ofUtf8? (utf8 s) = some s := by
  have h : (⟨(utf8 s).toArray⟩ : ByteArray) = s.toByteArray := by simp [utf8]
  simp only [ofUtf8?, h, String.fromUTF8?, s.isValidUTF8, dif_pos]
  rfl

theorem utf8_of_ofUtf8? {bs : Bytes} {s : String} (h : ofUtf8? bs = some s) : utf8 s = bs := by
  simp only [ofUtf8?, String.fromUTF8?] at h
  split at h
  · cases h
    simp [utf8, String.fromUTF8]
  · cases h

theorem utf8_injective {s t : String} (h : utf8 s = utf8 t) : s = t := by
  have := ofUtf8?_utf8 s
  rw [h, ofUtf8?_utf8] at this
  exact (Option.some.inj this).symm

@[simp] theorem utf8_append (s t : String) : utf8 (s ++ t) = utf8 s ++ utf8 t := by
  simp [utf8]

@[simp] theorem utf8_empty : utf8 "" = [] := rfl

end Text
end HttpCache
