import LocaleLint.Text.Utf8
import Mathlib.Data.Char
import Mathlib.Data.List.Lex
import Mathlib.Tactic.Common

/-!
# Decoding what was encoded

The bytes of a text decode to its characters (`decode_toUTF8`). A character is decoded from its
bytes whatever follows them (`decodeFrom_encodeChar`): its first byte says how many more there are,
and each of these adds six bits to the code. The narrower bounds on the second byte are met since
the encoding takes the fewest bytes that it can, and since no character is a surrogate or past the
last one. Texts stand in the same order as their bytes (`toUTF8_lt_iff`).
-/

set_option autoImplicit false

namespace LocaleLint.Text.Utf8

/-! ## The bytes of a text -/

/-- Listing bytes from an index on appends those that are left. -/
theorem toList_loop (bytes : ByteArray) (i : Nat) (done : List UInt8) :
    ByteArray.toList.loop bytes i done = done.reverse ++ bytes.data.toList.drop i := by
  fun_induction ByteArray.toList.loop bytes i done with
  | case1 i done h ih =>
    have hi : i < bytes.data.toList.length := by simpa using h
    rw [ih, List.drop_eq_getElem_cons hi]
    simp [ByteArray.get!, h]
  | case2 i done h =>
    have hle : bytes.data.toList.length ≤ i := by simpa using Nat.le_of_not_lt h
    rw [List.drop_eq_nil_of_le hle]
    simp

/-- The bytes of a text are those of its characters. -/
theorem toList_toUTF8 (text : String) :
    text.toUTF8.toList = text.toList.flatMap String.utf8EncodeChar := by
  have hbytes : text.toUTF8 = (text.toList.flatMap String.utf8EncodeChar).toByteArray :=
    String.utf8Encode_toList.symm
  rw [hbytes, ByteArray.toList, toList_loop]
  simp

/-! ## The bytes of a character -/

section

variable {n : Nat}

/-- The first bytes of characters of two bytes. -/
theorem lead?_two (hlow : 194 ≤ n) (hhigh : n < 224) :
    lead? (UInt8.ofNat n) = some ⟨1, 0x80, 0xBF, n % 32⟩ := by
  have hn : (UInt8.ofNat n).toNat = n := by simp; omega
  have h₁ : ¬ UInt8.ofNat n < 0xC2 := by rw [UInt8.lt_iff_toNat_lt, hn]; simpa using hlow
  have h₂ : UInt8.ofNat n < 0xE0 := by rw [UInt8.lt_iff_toNat_lt, hn]; simpa using hhigh
  rw [lead?, if_neg h₁, if_pos h₂, hn]

/-- The first bytes of characters of three bytes, of which two kinds bound the second byte further.
-/
theorem lead?_three (hlow : 224 ≤ n) (hhigh : n < 240) :
    lead? (UInt8.ofNat n) =
      some ⟨2, if n = 224 then 0xA0 else 0x80, if n = 237 then 0x9F else 0xBF, n % 16⟩ := by
  have hn : (UInt8.ofNat n).toNat = n := by simp; omega
  have h₁ : ¬ UInt8.ofNat n < 0xC2 := by rw [UInt8.lt_iff_toNat_lt, hn]; simp; omega
  have h₂ : ¬ UInt8.ofNat n < 0xE0 := by rw [UInt8.lt_iff_toNat_lt, hn]; simpa using hlow
  have h₃ : UInt8.ofNat n < 0xF0 := by rw [UInt8.lt_iff_toNat_lt, hn]; simpa using hhigh
  have hfirst : (UInt8.ofNat n = 0xE0) = (n = 224) := by rw [← UInt8.toNat_inj, hn]; rfl
  have hlast : (UInt8.ofNat n = 0xED) = (n = 237) := by rw [← UInt8.toNat_inj, hn]; rfl
  simp only [lead?, if_neg h₁, if_neg h₂, if_pos h₃, hn, hfirst, hlast]

/-- The first bytes of characters of four bytes, of which two kinds bound the second byte further.
-/
theorem lead?_four (hlow : 240 ≤ n) (hhigh : n < 245) :
    lead? (UInt8.ofNat n) =
      some ⟨3, if n = 240 then 0x90 else 0x80, if n = 244 then 0x8F else 0xBF, n % 8⟩ := by
  have hn : (UInt8.ofNat n).toNat = n := by simp; omega
  have h₁ : ¬ UInt8.ofNat n < 0xC2 := by rw [UInt8.lt_iff_toNat_lt, hn]; simp; omega
  have h₂ : ¬ UInt8.ofNat n < 0xE0 := by rw [UInt8.lt_iff_toNat_lt, hn]; simp; omega
  have h₃ : ¬ UInt8.ofNat n < 0xF0 := by rw [UInt8.lt_iff_toNat_lt, hn]; simpa using hlow
  have h₄ : UInt8.ofNat n < 0xF5 := by rw [UInt8.lt_iff_toNat_lt, hn]; simpa using hhigh
  have hfirst : (UInt8.ofNat n = 0xF0) = (n = 240) := by rw [← UInt8.toNat_inj, hn]; rfl
  have hlast : (UInt8.ofNat n = 0xF4) = (n = 244) := by rw [← UInt8.toNat_inj, hn]; rfl
  simp only [lead?, if_neg h₁, if_neg h₂, if_neg h₃, if_pos h₄, hn, hfirst, hlast]

/-- A byte in the bounds adds six bits to the code. -/
theorem follow_succ (more read : Nat) {low high : UInt8} (code : Nat) (rest : List UInt8)
    (hlow : low.toNat ≤ n) (hhigh : n ≤ high.toNat) :
    follow (more + 1) read low high code (UInt8.ofNat n :: rest) =
      follow more (read + 1) 0x80 0xBF (code * 64 + n % 64) rest := by
  have hbyte : high.toNat < 256 := high.toNat_lt
  have hn : (UInt8.ofNat n).toNat = n := by simp; omega
  have hbounds : low ≤ UInt8.ofNat n ∧ UInt8.ofNat n ≤ high := by
    rw [UInt8.le_iff_toNat_le, UInt8.le_iff_toNat_le, hn]
    exact ⟨hlow, hhigh⟩
  rw [follow, if_pos hbounds, hn]

/-- A continuation byte adds its six bits. -/
theorem follow_continuation (more read code : Nat) (rest : List UInt8) (hbits : n < 64) :
    follow (more + 1) read 0x80 0xBF code (UInt8.ofNat (n + 128) :: rest) =
      follow more (read + 1) 0x80 0xBF (code * 64 + n) rest := by
  have hlow : (0x80 : UInt8).toNat ≤ n + 128 := by simp
  have hhigh : n + 128 ≤ (0xBF : UInt8).toNat := by
    show n + 128 ≤ 191
    omega
  have hmod : (n + 128) % 64 = n := by omega
  rw [follow_succ more read code rest hlow hhigh, hmod]

/-- When no byte is missing the code is complete. -/
theorem follow_zero (read : Nat) (low high : UInt8) (code : Nat) (bytes : List UInt8) :
    follow 0 read low high code bytes = .ok code := by
  cases bytes <;> rfl

/-- A character of several bytes is decoded once they have given its code. -/
theorem exists_decodeFrom {lead : Lead} {tail rest : List UInt8} (index : Nat) (done : List Char)
    (c : Char) (hascii : 128 ≤ n) (hbyte : n < 256) (hlead : lead? (UInt8.ofNat n) = some lead)
    (hlength : tail.length = lead.more)
    (hfollow : follow lead.more 1 lead.low lead.high lead.bits (tail ++ rest) = .ok c.toNat) :
    ∃ next, decodeFrom index done (UInt8.ofNat n :: tail ++ rest) =
      decodeFrom next (c :: done) rest := by
  have hn : ¬ UInt8.ofNat n < 0x80 := by
    rw [UInt8.lt_iff_toNat_lt]
    simp
    omega
  have hrest : (tail ++ rest).drop lead.more = rest := List.drop_left' hlength
  refine ⟨index + 1 + lead.more, ?_⟩
  rw [List.cons_append, decodeFrom, if_neg hn]
  simp only [hlead, hfollow, hrest, Char.ofNat_toNat]

end

/-- A character is decoded from its bytes, whatever follows them. -/
theorem decodeFrom_encodeChar (index : Nat) (done : List Char) (c : Char) (rest : List UInt8) :
    ∃ next, decodeFrom index done (String.utf8EncodeChar c ++ rest) =
      decodeFrom next (c :: done) rest := by
  have hvalid : c.toNat < 55296 ∨ 57343 < c.toNat ∧ c.toNat < 1114112 := c.valid
  have hcode : c.val.toNat = c.toNat := rfl
  simp only [String.utf8EncodeChar, hcode]
  generalize hv : c.toNat = v at hvalid
  split
  · have hn : (UInt8.ofNat v).toNat = v := by simp; omega
    have hascii : UInt8.ofNat v < 0x80 := by
      rw [UInt8.lt_iff_toNat_lt, hn]
      show v < 128
      omega
    refine ⟨index + 1, ?_⟩
    rw [List.singleton_append, decodeFrom, if_pos hascii, hn, ← hv, Char.ofNat_toNat]
  split
  · apply exists_decodeFrom index done c (by omega) (by omega)
      (lead?_two (by omega) (by omega)) rfl
    have hvalue : (v / 64 % 32 + 192) % 32 * 64 + v % 64 = v := by omega
    rw [List.singleton_append, follow_continuation _ _ _ _ (by omega), hvalue, follow_zero, hv]
  split
  · apply exists_decodeFrom index done c (by omega) (by omega)
      (lead?_three (by omega) (by omega)) rfl
    have hlow : (if v / 4096 % 16 + 224 = 224 then 0xA0 else 0x80 : UInt8).toNat ≤
        v / 64 % 64 + 128 := by
      split
      · show 160 ≤ v / 64 % 64 + 128
        omega
      · show 128 ≤ v / 64 % 64 + 128
        omega
    have hhigh : v / 64 % 64 + 128 ≤
        (if v / 4096 % 16 + 224 = 237 then 0x9F else 0xBF : UInt8).toNat := by
      split
      · show v / 64 % 64 + 128 ≤ 159
        omega
      · show v / 64 % 64 + 128 ≤ 191
        omega
    have hvalue : ((v / 4096 % 16 + 224) % 16 * 64 + (v / 64 % 64 + 128) % 64) * 64 + v % 64 = v := by
      omega
    rw [List.cons_append, List.singleton_append, follow_succ _ _ _ _ hlow hhigh,
      follow_continuation _ _ _ _ (by omega), hvalue, follow_zero, hv]
  · apply exists_decodeFrom index done c (by omega) (by omega)
      (lead?_four (by omega) (by omega)) rfl
    have hlow : (if v / 262144 % 8 + 240 = 240 then 0x90 else 0x80 : UInt8).toNat ≤
        v / 4096 % 64 + 128 := by
      split
      · show 144 ≤ v / 4096 % 64 + 128
        omega
      · show 128 ≤ v / 4096 % 64 + 128
        omega
    have hhigh : v / 4096 % 64 + 128 ≤
        (if v / 262144 % 8 + 240 = 244 then 0x8F else 0xBF : UInt8).toNat := by
      split
      · show v / 4096 % 64 + 128 ≤ 143
        omega
      · show v / 4096 % 64 + 128 ≤ 191
        omega
    have hvalue : (((v / 262144 % 8 + 240) % 8 * 64 + (v / 4096 % 64 + 128) % 64) * 64 +
        v / 64 % 64) * 64 + v % 64 = v := by
      omega
    simp only [List.cons_append, List.nil_append]
    rw [follow_succ _ _ _ _ hlow hhigh, follow_continuation _ _ _ _ (by omega),
      follow_continuation _ _ _ _ (by omega), hvalue, follow_zero, hv]

/-- The bytes of a text decode to its characters. -/
theorem decode_toUTF8 (text : String) : decode text.toUTF8.toList = .ok text.toList := by
  have hall (chars : List Char) : ∀ index done,
      decodeFrom index done (chars.flatMap String.utf8EncodeChar) = .ok (done.reverse ++ chars) := by
    induction chars with
    | nil =>
      intro index done
      rw [List.flatMap_nil, decodeFrom, List.append_nil]
    | cons c chars ih =>
      intro index done
      obtain ⟨next, hnext⟩ := decodeFrom_encodeChar index done c (chars.flatMap String.utf8EncodeChar)
      rw [List.flatMap_cons, hnext, ih, List.reverse_cons, List.append_assoc]
      rfl
  rw [toList_toUTF8, decode, hall]
  rfl

/-! ## The order of the bytes -/

/-- Numbers that fit into a byte stand in the order of their bytes. -/
theorem ofNat_lt_ofNat_iff {m n : Nat} (hm : m < 256) (hn : n < 256) :
    UInt8.ofNat m < UInt8.ofNat n ↔ m < n := by
  rw [UInt8.lt_iff_toNat_lt, UInt8.toNat_ofNat', UInt8.toNat_ofNat', Nat.mod_eq_of_lt hm,
    Nat.mod_eq_of_lt hn]

/-- Numbers that fit into a byte are known from it. -/
theorem ofNat_eq_ofNat_iff {m n : Nat} (hm : m < 256) (hn : n < 256) :
    UInt8.ofNat m = UInt8.ofNat n ↔ m = n := by
  rw [← UInt8.toNat_inj, UInt8.toNat_ofNat', UInt8.toNat_ofNat', Nat.mod_eq_of_lt hm,
    Nat.mod_eq_of_lt hn]

/-- The bytes of a smaller character come first, whatever follows them: with as many bytes they
differ first where the codes do, and with fewer bytes the first one is smaller. -/
theorem encodeChar_append_lt {c d : Char} (h : c < d) (s t : List UInt8) :
    String.utf8EncodeChar c ++ s < String.utf8EncodeChar d ++ t := by
  have hlt : c.toNat < d.toNat := Char.lt_def.1 h
  have hd : d.toNat < 55296 ∨ 57343 < d.toNat ∧ d.toNat < 1114112 := d.valid
  have hcodes : c.val.toNat = c.toNat ∧ d.val.toNat = d.toNat := ⟨rfl, rfl⟩
  simp only [String.utf8EncodeChar, hcodes]
  -- The bytes hold the digits of the codes to the base sixty-four.
  have hsquare (n : Nat) : n / 4096 = n / 64 / 64 := (Nat.div_div_eq_div_mul n 64 64).symm
  have hcube (n : Nat) : n / 262144 = n / 64 / 64 / 64 := by
    rw [Nat.div_div_eq_div_mul, Nat.div_div_eq_div_mul]
  simp only [hsquare, hcube]
  generalize c.toNat = m at hlt
  generalize d.toNat = n at hlt hd
  split_ifs
  all_goals try omega
  all_goals
    simp only [List.cons_append, List.nil_append, List.cons_lt_cons_iff]
    simp (disch := omega) only [ofNat_lt_ofNat_iff, ofNat_eq_ofNat_iff]
    omega

/-- The bytes of texts stand in the order of their characters. -/
theorem flatMap_encodeChar_lt {s t : List Char} (h : s < t) :
    s.flatMap String.utf8EncodeChar < t.flatMap String.utf8EncodeChar := by
  induction h with
  | @nil c t =>
    rw [List.flatMap_nil, List.flatMap_cons]
    cases hbytes : String.utf8EncodeChar c with
    | nil => exact absurd hbytes (by simp)
    | cons first rest => exact .nil
  | rel h => exact encodeChar_append_lt h _ _
  | cons _ ih =>
    rw [List.flatMap_cons, List.flatMap_cons]
    exact List.append_left_lt ih

/-- Texts stand in the order of their bytes. -/
theorem toUTF8_lt_iff (a b : String) : a.toUTF8.toList < b.toUTF8.toList ↔ a < b := by
  rw [toList_toUTF8, toList_toUTF8]
  constructor
  · intro h
    rcases lt_trichotomy a.toList b.toList with hlt | heq | hlt
    · exact hlt
    · rw [heq] at h
      exact absurd h (List.lt_irrefl _)
    · exact absurd h (List.lt_asymm (flatMap_encodeChar_lt hlt))
  · exact flatMap_encodeChar_lt

end LocaleLint.Text.Utf8
