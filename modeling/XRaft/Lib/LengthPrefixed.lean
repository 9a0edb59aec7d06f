import XRaft.Lib.Frames

/-!
# Length-prefixed frames

A frame is the length of its payload as a big-endian word, followed by the payload and
nothing else. Such a buffer is determined by its payload, and no proper part of it and no
extension of it has the same form.
-/

namespace XRaft.Lib

/-- The four bytes of a word, most significant first. -/
def toBeBytes (word : UInt32) : List UInt8 := (toLeBytes word).reverse

/-- The word with the given bytes, most significant first. -/
def ofBeBytes (bytes : List UInt8) : UInt32 := ofLeBytes bytes.reverse

/-- A word takes four bytes. -/
@[simp] theorem length_toBeBytes (word : UInt32) : (toBeBytes word).length = 4 := rfl

/-- Reading back the bytes of a word gives the word. -/
@[simp] theorem ofBeBytes_toBeBytes (word : UInt32) : ofBeBytes (toBeBytes word) = word := by
  rw [ofBeBytes, toBeBytes, List.reverse_reverse, ofLeBytes_toLeBytes]

/-- Four bytes are the bytes of the word they are read as. -/
theorem toBeBytes_ofBeBytes {bytes : List UInt8} (hlength : bytes.length = 4) :
    toBeBytes (ofBeBytes bytes) = bytes := by
  rw [toBeBytes, ofBeBytes, toLeBytes_ofLeBytes (by rw [List.length_reverse, hlength]),
    List.reverse_reverse]

/-- A payload behind its length. -/
def prefixed (payload : List UInt8) : List UInt8 :=
  toBeBytes (UInt32.ofNat payload.length) ++ payload

/-- The buffer is a payload behind its length, and the payload is no longer than the limit. -/
def IsPrefixed (limit : UInt32) (payload buffer : List UInt8) : Prop :=
  payload.length ≤ limit.toNat ∧ buffer = prefixed payload

variable {limit : UInt32} {payload buffer : List UInt8}

/-- A payload within the limit has a length that fits a word. -/
theorem toNat_length_of_le (h : payload.length ≤ limit.toNat) :
    (UInt32.ofNat payload.length).toNat = payload.length := by
  have hlimit := limit.toNat_lt
  rw [UInt32.toNat_ofNat']
  exact Nat.mod_eq_of_lt (by omega)

/-- The length comes first. -/
@[simp] theorem take_prefixed (payload : List UInt8) :
    (prefixed payload).take 4 = toBeBytes (UInt32.ofNat payload.length) := rfl

/-- The payload comes next. -/
@[simp] theorem drop_prefixed (payload : List UInt8) : (prefixed payload).drop 4 = payload := rfl

/-- A frame is four bytes longer than its payload. -/
@[simp] theorem length_prefixed (payload : List UInt8) :
    (prefixed payload).length = 4 + payload.length := by
  rw [prefixed, List.length_append, length_toBeBytes]

/-- A buffer has the form of a frame if its first word is the number of bytes behind it. -/
theorem isPrefixed_iff :
    IsPrefixed limit payload buffer ↔ 4 ≤ buffer.length ∧ payload = buffer.drop 4 ∧
      ofBeBytes (buffer.take 4) ≤ limit ∧ payload.length = (ofBeBytes (buffer.take 4)).toNat := by
  constructor
  · rintro ⟨hlimit, rfl⟩
    have hlength := toNat_length_of_le hlimit
    rw [length_prefixed, take_prefixed, drop_prefixed, ofBeBytes_toBeBytes,
      UInt32.le_iff_toNat_le, hlength]
    exact ⟨Nat.le_add_right 4 _, rfl, hlimit, rfl⟩
  · rintro ⟨hshort, hpayload, hlimit, hlength⟩
    have hword : UInt32.ofNat payload.length = ofBeBytes (buffer.take 4) := by
      rw [hlength, UInt32.ofNat_toNat]
    refine ⟨?_, ?_⟩
    · rw [hlength]
      exact UInt32.le_iff_toNat_le.mp hlimit
    · rw [prefixed, hword, toBeBytes_ofBeBytes (by rw [List.length_take]; omega), hpayload,
        List.take_append_drop]

/-- The first four bytes say how long a frame is, so no frame continues another. -/
theorem IsPrefixed.eq_of_isPrefix {otherLimit : UInt32} {other longer : List UInt8}
    (h : IsPrefixed limit payload buffer) (hother : IsPrefixed otherLimit other longer)
    (hpart : buffer <+: longer) : buffer = longer := by
  obtain ⟨hshort, hpayload, -, hlength⟩ := isPrefixed_iff.mp h
  obtain ⟨-, hlonger, -, hother⟩ := isPrefixed_iff.mp hother
  have hword : longer.take 4 = buffer.take 4 := by
    obtain ⟨rest, rfl⟩ := hpart
    rw [List.take_append_of_le_length hshort]
  rw [hword, ← hlength, hlonger, hpayload, List.length_drop, List.length_drop] at hother
  have hle := hpart.length_le
  exact hpart.eq_of_length (by omega)

end XRaft.Lib
