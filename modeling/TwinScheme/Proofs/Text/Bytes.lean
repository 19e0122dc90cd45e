import TwinScheme.Text.Bytes

/-!
# Text in bytes and back

A text that was encoded is decoded to itself: one character after the other is read
off the bytes, whatever comes behind it, so nothing is replaced. The first byte of a
character says how many follow and what the second may be, and a character that is
encoded is never one that these bounds keep out.
-/

namespace TwinScheme.Text

/-! ## One character -/

theorem leadByte_two : ∀ k < 32, 2 ≤ k →
    leadByte (UInt8.ofNat (k + 192)) = some (1, 0x80, 0xBF) := by
  decide

/-- The bounds keep out what two bytes are enough for, and the surrogates. -/
theorem leadByte_three : ∀ k < 16, leadByte (UInt8.ofNat (k + 224)) =
    some (2, if k = 0 then 0xA0 else 0x80, if k = 13 then 0x9F else 0xBF) := by
  decide

/-- The bounds keep out what three bytes are enough for, and what is beyond the last
code point. -/
theorem leadByte_four : ∀ k < 5, leadByte (UInt8.ofNat (k + 240)) =
    some (3, if k = 0 then 0x90 else 0x80, if k = 4 then 0x8F else 0xBF) := by
  decide

/-- A first byte opens a character. -/
theorem decodeFrom_lead {n owed : Nat} {low high : UInt8} (hn : 0x80 ≤ n) (hlt : n < 0x100)
    (h : leadByte (UInt8.ofNat n) = some (owed, low, high)) (bytes : List UInt8) :
    decodeFrom none (UInt8.ofNat n :: bytes) =
      decodeFrom (some ⟨n % (64 >>> owed), owed, low, high⟩) bytes := by
  have htoNat : (UInt8.ofNat n).toNat = n := by
    rw [UInt8.toNat_ofNat', Nat.mod_eq_of_lt hlt]
  have hlead : ¬UInt8.ofNat n < 0x80 := by
    rw [UInt8.lt_iff_toNat_lt, htoNat]
    exact Nat.not_lt.2 hn
  rw [decodeFrom, decodeFirst, if_neg hlead, h]
  dsimp only
  rw [List.nil_append, htoNat]

/-- A byte that goes on with a character adds six bits, and the last one ends it. -/
theorem decodeFrom_owed {value owed k : Nat} {low high : UInt8} (hk : k < 64)
    (hlow : low.toNat ≤ k + 128) (hhigh : k + 128 ≤ high.toNat) (bytes : List UInt8) :
    decodeFrom (some ⟨value, owed, low, high⟩) (UInt8.ofNat (k + 128) :: bytes) =
      if owed ≤ 1 then Char.ofNat (value * 64 + k) :: decodeFrom none bytes
      else decodeFrom (some ⟨value * 64 + k, owed - 1, 0x80, 0xBF⟩) bytes := by
  have htoNat : (UInt8.ofNat (k + 128)).toNat = k + 128 := by
    rw [UInt8.toNat_ofNat', Nat.mod_eq_of_lt (by omega)]
  have hbits : (k + 128) % 64 = k := by omega
  have hbounds : (decide (low ≤ UInt8.ofNat (k + 128)) &&
      decide (UInt8.ofNat (k + 128) ≤ high)) = true := by
    rw [Bool.and_eq_true, decide_eq_true_eq, decide_eq_true_eq, UInt8.le_iff_toNat_le,
      UInt8.le_iff_toNat_le, htoNat]
    exact ⟨hlow, hhigh⟩
  rw [decodeFrom, if_pos hbounds]
  dsimp only
  rw [htoNat, hbits]

variable {n : Nat}

theorem decodeFrom_one (h : n ≤ 127) (bytes : List UInt8) :
    decodeFrom none (UInt8.ofNat n :: bytes) = Char.ofNat n :: decodeFrom none bytes := by
  have htoNat : (UInt8.ofNat n).toNat = n := by
    rw [UInt8.toNat_ofNat', Nat.mod_eq_of_lt (by omega)]
  have hfirst : UInt8.ofNat n < 0x80 := by
    rw [UInt8.lt_iff_toNat_lt, htoNat]
    exact Nat.lt_succ_of_le h
  rw [decodeFrom, decodeFirst, if_pos hfirst, htoNat]
  rfl

theorem decodeFrom_two (h : 127 < n) (h' : n ≤ 2047) (bytes : List UInt8) :
    decodeFrom none (UInt8.ofNat (n / 64 % 32 + 192) :: UInt8.ofNat (n % 64 + 128) :: bytes) =
      Char.ofNat n :: decodeFrom none bytes := by
  have hlow : (0x80 : UInt8).toNat = 128 := rfl
  have hhigh : (0xBF : UInt8).toNat = 191 := rfl
  have hvalue : (n / 64 % 32 + 192) % (64 >>> 1) * 64 + n % 64 = n := by
    simp only [Nat.reduceShiftRight]
    omega
  rw [decodeFrom_lead (by omega) (by omega) (leadByte_two (n / 64 % 32) (by omega) (by omega)),
    decodeFrom_owed (by omega) (by omega) (by omega), if_pos (Nat.le_refl 1), hvalue]

theorem decodeFrom_three (h : 2047 < n) (h' : n ≤ 65535) (hvalid : n < 0xD800 ∨ 0xDFFF < n)
    (bytes : List UInt8) :
    decodeFrom none (UInt8.ofNat (n / 4096 % 16 + 224) :: UInt8.ofNat (n / 64 % 64 + 128) ::
        UInt8.ofNat (n % 64 + 128) :: bytes) =
      Char.ofNat n :: decodeFrom none bytes := by
  have hlow : (0x80 : UInt8).toNat = 128 := rfl
  have hhigh : (0xBF : UInt8).toNat = 191 := rfl
  have hsecond : (if n / 4096 % 16 = 0 then 0xA0 else 0x80 : UInt8).toNat ≤ n / 64 % 64 + 128 ∧
      n / 64 % 64 + 128 ≤ (if n / 4096 % 16 = 13 then 0x9F else 0xBF : UInt8).toNat := by
    have hlow' : (0xA0 : UInt8).toNat = 160 := rfl
    have hhigh' : (0x9F : UInt8).toNat = 159 := rfl
    constructor <;> split <;> omega
  have hvalue : ((n / 4096 % 16 + 224) % (64 >>> 2) * 64 + n / 64 % 64) * 64 + n % 64 = n := by
    simp only [Nat.reduceShiftRight]
    omega
  rw [decodeFrom_lead (by omega) (by omega) (leadByte_three (n / 4096 % 16) (by omega)),
    decodeFrom_owed (by omega) hsecond.1 hsecond.2, if_neg (by decide),
    decodeFrom_owed (by omega) (by omega) (by omega), if_pos (Nat.le_refl 1), hvalue]

theorem decodeFrom_four (h : 65535 < n) (h' : n < 0x110000) (bytes : List UInt8) :
    decodeFrom none (UInt8.ofNat (n / 262144 % 8 + 240) :: UInt8.ofNat (n / 4096 % 64 + 128) ::
        UInt8.ofNat (n / 64 % 64 + 128) :: UInt8.ofNat (n % 64 + 128) :: bytes) =
      Char.ofNat n :: decodeFrom none bytes := by
  have hlow : (0x80 : UInt8).toNat = 128 := rfl
  have hhigh : (0xBF : UInt8).toNat = 191 := rfl
  have hsecond : (if n / 262144 % 8 = 0 then 0x90 else 0x80 : UInt8).toNat ≤
        n / 4096 % 64 + 128 ∧
      n / 4096 % 64 + 128 ≤ (if n / 262144 % 8 = 4 then 0x8F else 0xBF : UInt8).toNat := by
    have hlow' : (0x90 : UInt8).toNat = 144 := rfl
    have hhigh' : (0x8F : UInt8).toNat = 143 := rfl
    constructor <;> split <;> omega
  have hvalue : (((n / 262144 % 8 + 240) % (64 >>> 3) * 64 + n / 4096 % 64) * 64 +
      n / 64 % 64) * 64 + n % 64 = n := by
    simp only [Nat.reduceShiftRight]
    omega
  rw [decodeFrom_lead (by omega) (by omega) (leadByte_four (n / 262144 % 8) (by omega)),
    decodeFrom_owed (by omega) hsecond.1 hsecond.2, if_neg (by decide),
    decodeFrom_owed (by omega) (by omega) (by omega), if_neg (by decide),
    decodeFrom_owed (by omega) (by omega) (by omega), if_pos (Nat.le_refl 1), hvalue]

/-- The bytes of a character are read as that character, whatever comes behind. -/
theorem decodeFrom_encodeChar (c : Char) (bytes : List UInt8) :
    decodeFrom none (String.utf8EncodeChar c ++ bytes) = c :: decodeFrom none bytes := by
  have hvalid : c.val.toNat < 0xD800 ∨ 0xDFFF < c.val.toNat ∧ c.val.toNat < 0x110000 := c.valid
  have hchar : Char.ofNat c.val.toNat = c := Char.ofNat_toNat c
  rw [String.utf8EncodeChar]
  generalize c.val.toNat = n at *
  split
  · next h => rw [List.singleton_append, decodeFrom_one h, hchar]
  · split
    · next h h' => exact (decodeFrom_two (Nat.lt_of_not_le h) h' bytes).trans (by rw [hchar])
    · split
      · next h h' =>
        exact (decodeFrom_three (Nat.lt_of_not_le h) h' (hvalid.imp_right And.left) bytes).trans
          (by rw [hchar])
      · next h =>
        exact (decodeFrom_four (Nat.lt_of_not_le h) (by omega) bytes).trans (by rw [hchar])

/-! ## Texts -/

theorem toList_loop (bytes : ByteArray) (i : Nat) (done : List UInt8) :
    ByteArray.toList.loop bytes i done = done.reverse ++ bytes.data.toList.drop i := by
  fun_induction ByteArray.toList.loop bytes i done with
  | case1 i done hlt ih =>
      have hlength : i < bytes.data.toList.length := hlt
      have hget : bytes.get! i = bytes.data.toList[i] := getElem!_pos bytes.data i hlt
      rw [ih, List.drop_eq_getElem_cons hlength, hget, List.reverse_cons, List.append_assoc,
        List.singleton_append]
  | case2 i done hlt =>
      rw [List.drop_eq_nil_of_le (Nat.le_of_not_lt hlt), List.append_nil]

/-- A text is encoded character by character. -/
theorem encode_eq (text : String) : encode text = text.toList.flatMap String.utf8EncodeChar := by
  rw [encode, String.toUTF8, ← String.utf8Encode_toList, List.utf8Encode, ByteArray.toList,
    toList_loop, List.reverse_nil, List.nil_append, List.drop_zero, List.toList_data_toByteArray]

/-- The bytes of a character are that character, or none of them is one. -/
theorem mem_encodeChar {c : Char} {b : UInt8} (h : b ∈ String.utf8EncodeChar c) :
    Char.ofNat b.toNat = c ∨ 0x80 ≤ b.toNat := by
  have hhigh : ∀ {k : Nat}, 128 ≤ k → k < 256 → 0x80 ≤ (UInt8.ofNat k).toNat := by
    intro k hk hlt
    rw [UInt8.toNat_ofNat', Nat.mod_eq_of_lt hlt]
    exact hk
  have hchar : Char.ofNat c.val.toNat = c := Char.ofNat_toNat c
  rw [String.utf8EncodeChar] at h
  generalize c.val.toNat = n at *
  split at h
  · next hn =>
    rw [List.mem_singleton.1 h, UInt8.toNat_ofNat', Nat.mod_eq_of_lt (by omega), hchar]
    exact .inl rfl
  · refine .inr ?_
    split at h
    · simp only [List.mem_cons, List.not_mem_nil, or_false] at h
      rcases h with rfl | rfl <;> exact hhigh (by omega) (by omega)
    · split at h
      · simp only [List.mem_cons, List.not_mem_nil, or_false] at h
        rcases h with rfl | rfl | rfl <;> exact hhigh (by omega) (by omega)
      · simp only [List.mem_cons, List.not_mem_nil, or_false] at h
        rcases h with rfl | rfl | rfl | rfl <;> exact hhigh (by omega) (by omega)

theorem decodeFrom_flatMap (cs : List Char) :
    decodeFrom none (cs.flatMap String.utf8EncodeChar) = cs := by
  induction cs with
  | nil => rfl
  | cons c cs ih => rw [List.flatMap_cons, decodeFrom_encodeChar, ih]

/-- A text that was encoded is decoded without a loss. -/
theorem decodeLossy_encode (text : String) : decodeLossy (encode text) = text := by
  rw [decodeLossy, encode_eq, decodeFrom_flatMap, String.ofList_toList]

/-- The bytes of texts are the bytes that are text. -/
theorem decode?_eq_some_iff {bytes : List UInt8} {text : String} :
    decode? bytes = some text ↔ bytes = encode text := by
  rw [decode?]
  constructor
  · intro h
    split at h
    · next heq => rw [← Option.some.inj h, heq]
    · cases h
  · rintro rfl
    rw [decodeLossy_encode, if_pos rfl]

end TwinScheme.Text
