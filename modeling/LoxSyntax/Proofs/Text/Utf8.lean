import LoxSyntax.Text.Utf8

/-!
# Reading UTF-8 back

The decoder reads every text back from its UTF-8 form (`Utf8.decode_encode`): at the first byte
of a character it allows just those bytes that continue some character, and the bytes of the
character are among them (`Utf8.decodeFrom_encodeChar`).
-/

namespace LoxSyntax.Text.Utf8

/-- The UTF-8 form of a text, character by character. -/
def encode (text : List Char) : List UInt8 :=
  text.flatMap String.utf8EncodeChar

/-- The bytes of a string are the UTF-8 form of its letters. -/
theorem encode_toList (s : String) : encode s.toList = s.toUTF8.data.toList := by
  conv => rhs; rw [← String.ofList_toList (s := s)]
  rw [String.toUTF8_eq_toByteArray, String.toByteArray_ofList]
  simp [encode, List.utf8Encode]

/-! ## One byte of a character -/

section

variable {offset : Nat} {decoded : List Char} {bytes : List UInt8}

theorem decodeFrom_character {byte : UInt8} {c : Char} (h : start byte = .character c) :
    decodeFrom offset decoded none (byte :: bytes) =
      decodeFrom (offset + 1) (c :: decoded) none bytes := by
  rw [decodeFrom]
  simp only [h]

theorem decodeFrom_sequence {byte : UInt8} {p : Pending} (h : start byte = .sequence p) :
    decodeFrom offset decoded none (byte :: bytes) =
      decodeFrom (offset + 1) decoded (some p) bytes := by
  rw [decodeFrom]
  simp only [h]

/-- The last byte of a character completes its code. -/
theorem decodeFrom_last {lead byte : UInt8} {length code : Nat} {next : ByteRange}
    (inside : next.1 ≤ byte.toNat ∧ byte.toNat ≤ next.2) :
    decodeFrom offset decoded (some ⟨lead, length, code, next, []⟩) (byte :: bytes) =
      decodeFrom (offset + 1) (Char.ofNat (code * 64 + (byte.toNat - 0x80)) :: decoded) none
        bytes := by
  rw [decodeFrom]
  simp only [inside, and_self, if_true]

/-- A byte before the last adds its six bits to the code. -/
theorem decodeFrom_further {lead byte : UInt8} {length code : Nat} {next next' : ByteRange}
    {later : List ByteRange} (inside : next.1 ≤ byte.toNat ∧ byte.toNat ≤ next.2) :
    decodeFrom offset decoded (some ⟨lead, length, code, next, next' :: later⟩) (byte :: bytes) =
      decodeFrom (offset + 1) decoded
        (some ⟨lead, length + 1, code * 64 + (byte.toNat - 0x80), next', later⟩) bytes := by
  rw [decodeFrom]
  simp only [inside, and_self, if_true]

end

/-! ## The first byte of a character -/

section

variable {byte : UInt8} {code : Nat}

theorem start_of_one (value : byte.toNat = code) (high : code < 0x80) :
    start byte = .character (Char.ofNat code) := by
  unfold start
  dsimp only
  rw [value, if_pos high]

theorem start_of_two (value : byte.toNat = code / 64 + 0xC0) (low : 0x80 ≤ code)
    (high : code < 0x800) :
    start byte = .sequence ⟨byte, 1, code / 64, continuation, []⟩ := by
  have rest : byte.toNat - 0xC0 = code / 64 := by omega
  unfold start
  dsimp only
  rw [if_neg (by omega), if_neg (by omega), if_pos (by omega), rest]

/-- The first of three bytes leaves to the second those that belong to no shorter form and to no
surrogate. -/
theorem start_of_three (value : byte.toNat = code / 4096 + 0xE0) (low : 0x800 ≤ code)
    (high : code < 0x10000) (scalar : code < 0xD800 ∨ 0xDFFF < code) :
    ∃ next : ByteRange,
      start byte = .sequence ⟨byte, 1, code / 4096, next, [continuation]⟩ ∧
        next.1 ≤ code / 64 % 64 + 0x80 ∧ code / 64 % 64 + 0x80 ≤ next.2 := by
  have rest : byte.toNat - 0xE0 = code / 4096 := by omega
  unfold start
  dsimp only
  rw [if_neg (by omega), if_neg (by omega), if_neg (by omega), rest]
  by_cases first : byte.toNat = 0xE0
  · rw [if_pos first]
    exact ⟨_, rfl, by dsimp only; omega, by dsimp only; omega⟩
  by_cases surrogates : byte.toNat = 0xED
  · rw [if_neg first, if_pos surrogates]
    exact ⟨_, rfl, by dsimp only; omega, by dsimp only; omega⟩
  · rw [if_neg first, if_neg surrogates, if_pos (by omega)]
    exact ⟨_, rfl, by dsimp only [continuation]; omega, by dsimp only [continuation]; omega⟩

/-- The first of four bytes leaves to the second those that belong to no shorter form and to no
code past the last. -/
theorem start_of_four (value : byte.toNat = code / 262144 + 0xF0) (low : 0x10000 ≤ code)
    (high : code < 0x110000) :
    ∃ next : ByteRange,
      start byte = .sequence ⟨byte, 1, code / 262144, next, [continuation, continuation]⟩ ∧
        next.1 ≤ code / 4096 % 64 + 0x80 ∧ code / 4096 % 64 + 0x80 ≤ next.2 := by
  have rest : byte.toNat - 0xF0 = code / 262144 := by omega
  unfold start
  dsimp only
  rw [if_neg (by omega), if_neg (by omega), if_neg (by omega), if_neg (by omega),
    if_neg (by omega), if_neg (by omega), rest]
  by_cases first : byte.toNat = 0xF0
  · rw [if_pos first]
    exact ⟨_, rfl, by dsimp only; omega, by dsimp only; omega⟩
  by_cases last : byte.toNat = 0xF4
  · rw [if_neg first, if_neg (by omega), if_pos last]
    exact ⟨_, rfl, by dsimp only; omega, by dsimp only; omega⟩
  · rw [if_neg first, if_pos (by omega)]
    exact ⟨_, rfl, by dsimp only [continuation]; omega, by dsimp only [continuation]; omega⟩

end

/-! ## Whole characters -/

theorem toNat_ofNat {n : Nat} (h : n < 256) : (UInt8.ofNat n).toNat = n := by
  rw [UInt8.toNat_ofNat', Nat.mod_eq_of_lt h]

/-- A byte of six further bits continues a character. -/
theorem continues {byte : UInt8} {bits : Nat} (value : byte.toNat = bits % 64 + 0x80) :
    continuation.1 ≤ byte.toNat ∧ byte.toNat ≤ continuation.2 := by
  rw [value]
  dsimp only [continuation]
  omega

section

variable {offset code : Nat} {decoded : List Char} {bytes : List UInt8}

theorem decodeFrom_one (high : code ≤ 0x7F) :
    decodeFrom offset decoded none (UInt8.ofNat code :: bytes) =
      decodeFrom (offset + 1) (Char.ofNat code :: decoded) none bytes :=
  decodeFrom_character (start_of_one (toNat_ofNat (by omega)) (by omega))

theorem decodeFrom_two (low : ¬ code ≤ 0x7F) (high : code ≤ 0x7FF) :
    decodeFrom offset decoded none
        (UInt8.ofNat (code / 64 % 32 + 192) :: UInt8.ofNat (code % 64 + 128) :: bytes) =
      decodeFrom (offset + 2) (Char.ofNat code :: decoded) none bytes := by
  have lead : (UInt8.ofNat (code / 64 % 32 + 192)).toNat = code / 64 + 0xC0 := by
    rw [toNat_ofNat (by omega)]
    omega
  have last := toNat_ofNat (n := code % 64 + 128) (by omega)
  have whole : code / 64 * 64 + (code % 64 + 128 - 0x80) = code := by omega
  rw [decodeFrom_sequence (start_of_two lead (by omega) (by omega)),
    decodeFrom_last (continues last), last, whole]

theorem decodeFrom_three (low : ¬ code ≤ 0x7FF) (high : code ≤ 0xFFFF)
    (scalar : code < 0xD800 ∨ 0xDFFF < code) :
    decodeFrom offset decoded none
        (UInt8.ofNat (code / 4096 % 16 + 224) :: UInt8.ofNat (code / 64 % 64 + 128) ::
          UInt8.ofNat (code % 64 + 128) :: bytes) =
      decodeFrom (offset + 3) (Char.ofNat code :: decoded) none bytes := by
  have lead : (UInt8.ofNat (code / 4096 % 16 + 224)).toNat = code / 4096 + 0xE0 := by
    rw [toNat_ofNat (by omega)]
    omega
  have second := toNat_ofNat (n := code / 64 % 64 + 128) (by omega)
  have last := toNat_ofNat (n := code % 64 + 128) (by omega)
  obtain ⟨next, starts, inside⟩ := start_of_three lead (by omega) (by omega) scalar
  have whole : (code / 4096 * 64 + (code / 64 % 64 + 128 - 0x80)) * 64 +
      (code % 64 + 128 - 0x80) = code := by omega
  rw [decodeFrom_sequence starts, decodeFrom_further (by rwa [second]),
    decodeFrom_last (continues last), last, second, whole]

theorem decodeFrom_four (low : ¬ code ≤ 0xFFFF) (high : code < 0x110000) :
    decodeFrom offset decoded none
        (UInt8.ofNat (code / 262144 % 8 + 240) :: UInt8.ofNat (code / 4096 % 64 + 128) ::
          UInt8.ofNat (code / 64 % 64 + 128) :: UInt8.ofNat (code % 64 + 128) :: bytes) =
      decodeFrom (offset + 4) (Char.ofNat code :: decoded) none bytes := by
  have lead : (UInt8.ofNat (code / 262144 % 8 + 240)).toNat = code / 262144 + 0xF0 := by
    rw [toNat_ofNat (by omega)]
    omega
  have second := toNat_ofNat (n := code / 4096 % 64 + 128) (by omega)
  have third := toNat_ofNat (n := code / 64 % 64 + 128) (by omega)
  have last := toNat_ofNat (n := code % 64 + 128) (by omega)
  obtain ⟨next, starts, inside⟩ := start_of_four lead (by omega) high
  have whole : ((code / 262144 * 64 + (code / 4096 % 64 + 128 - 0x80)) * 64 +
      (code / 64 % 64 + 128 - 0x80)) * 64 + (code % 64 + 128 - 0x80) = code := by omega
  rw [decodeFrom_sequence starts, decodeFrom_further (by rwa [second]),
    decodeFrom_further (continues third), decodeFrom_last (continues last), last, third, second,
    whole]

end

/-- The decoder reads a character from its bytes. -/
theorem decodeFrom_encodeChar (offset : Nat) (decoded : List Char) (c : Char)
    (bytes : List UInt8) :
    decodeFrom offset decoded none (String.utf8EncodeChar c ++ bytes) =
      decodeFrom (offset + (String.utf8EncodeChar c).length) (c :: decoded) none bytes := by
  have valid : c.toNat < 0xD800 ∨ 0xDFFF < c.toNat ∧ c.toNat < 0x110000 := c.valid
  have again : Char.ofNat c.toNat = c := Char.ofNat_toNat c
  have bytesOf : String.utf8EncodeChar c =
      if c.toNat ≤ 0x7F then [UInt8.ofNat c.toNat]
      else if c.toNat ≤ 0x7FF then
        [UInt8.ofNat (c.toNat / 64 % 32 + 192), UInt8.ofNat (c.toNat % 64 + 128)]
      else if c.toNat ≤ 0xFFFF then
        [UInt8.ofNat (c.toNat / 4096 % 16 + 224), UInt8.ofNat (c.toNat / 64 % 64 + 128),
          UInt8.ofNat (c.toNat % 64 + 128)]
      else
        [UInt8.ofNat (c.toNat / 262144 % 8 + 240), UInt8.ofNat (c.toNat / 4096 % 64 + 128),
          UInt8.ofNat (c.toNat / 64 % 64 + 128), UInt8.ofNat (c.toNat % 64 + 128)] := rfl
  rw [bytesOf]
  generalize c.toNat = code at valid again
  subst again
  by_cases one : code ≤ 0x7F
  · rw [if_pos one]
    exact decodeFrom_one one
  rw [if_neg one]
  by_cases two : code ≤ 0x7FF
  · rw [if_pos two]
    exact decodeFrom_two one two
  rw [if_neg two]
  by_cases three : code ≤ 0xFFFF
  · rw [if_pos three]
    exact decodeFrom_three two three (by omega)
  · rw [if_neg three]
    exact decodeFrom_four three (by omega)

/-- The decoder reads a text back from its UTF-8 form. -/
theorem decode_encode (text : List Char) : decode (encode text) = .ok text := by
  have reading : ∀ (text decoded : List Char) (offset : Nat),
      decodeFrom offset decoded none (encode text) = .ok (decoded.reverse ++ text) := by
    intro text
    induction text with
    | nil =>
      intro decoded offset
      rw [List.append_nil]
      rfl
    | cons c text ih =>
      intro decoded offset
      rw [encode, List.flatMap_cons, decodeFrom_encodeChar]
      have rest := ih (c :: decoded) (offset + (String.utf8EncodeChar c).length)
      rw [List.reverse_cons, List.append_assoc] at rest
      exact rest
  exact reading text [] 0

end LoxSyntax.Text.Utf8
