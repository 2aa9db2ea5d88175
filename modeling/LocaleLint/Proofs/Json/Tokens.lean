import LocaleLint.Json.Printer
import LocaleLint.Json.Token
import Mathlib.Tactic.Common

/-!
# The tokens of a written value

Writing a value without floating-point numbers appends characters that are read as the tokens of
the value, whatever comes after them as long as it starts like what can stand after a value
(`appends_write`). A string is read back character by character, since an escape stands for the
character that was escaped (`readString_escapeChar`), and an integer because what follows it cannot
be part of a number (`split_of_digits`). Hence the text of a value has the tokens of the value
(`ofText_pretty`).
-/

set_option autoImplicit false

namespace LocaleLint.Json

/-! ## Values without floating-point numbers -/

/-- A value that nests at most `depth` deep and holds no floating-point number, with integers in
the range in which they are read as integers. -/
inductive Plain : Nat → Json → Prop
  | null {depth : Nat} : Plain depth .null
  | bool {depth : Nat} (value : Bool) : Plain depth (.bool value)
  | int {depth : Nat} {value : Int} : -9223372036854775808 ≤ value →
      value ≤ 18446744073709551615 → Plain depth (.int value)
  | string {depth : Nat} (value : String) : Plain depth (.string value)
  | array {depth : Nat} {items : List Json} : (∀ item ∈ items, Plain depth item) →
      Plain (depth + 1) (.array items)
  | object {depth : Nat} {members : List (String × Json)} :
      (∀ member ∈ members, Plain depth member.2) → Plain (depth + 1) (.object members)

mutual

/-- The tokens of a value. -/
def tokens : Json → List Token
  | .null => [.scalar .null]
  | .bool value => [.scalar (.bool value)]
  | .int value => [.scalar (.int value)]
  | .float bits => [.scalar (.float bits)]
  | .string value => [.scalar (.string value)]
  | .array [] => [.arrayStart, .arrayEnd]
  | .array (item :: rest) =>
    .arrayStart :: (tokens item ++ (tokensOfItems rest ++ [.arrayEnd]))
  | .object [] => [.objectStart, .objectEnd]
  | .object ((key, value) :: rest) =>
    .objectStart :: .scalar (.string key) :: .colon ::
      (tokens value ++ (tokensOfMembers rest ++ [.objectEnd]))

/-- The tokens of the items that follow another. -/
def tokensOfItems : List Json → List Token
  | [] => []
  | item :: rest => .comma :: (tokens item ++ tokensOfItems rest)

/-- The tokens of the members that follow another. -/
def tokensOfMembers : List (String × Json) → List Token
  | [] => []
  | (key, value) :: rest =>
    .comma :: .scalar (.string key) :: .colon :: (tokens value ++ tokensOfMembers rest)

end

namespace Token

/-! ## Strings -/

/-- A hexadecimal digit is read as the value for which it was written. -/
theorem hexValue?_hexDigit {n : Nat} (h : n < 16) :
    Text.hexValue? (Text.hexDigit n) = some n := by
  have hall : ∀ k : Fin 16, Text.hexValue? (Text.hexDigit k) = some k.val := by decide
  exact hall ⟨n, h⟩

/-- An escape in a string is read as the character that it stands for. -/
theorem readString_escape {done s rest : List Char} {c : Char} (h : escape s = some (c, rest)) :
    readString done ('\\' :: s) = readString (c :: done) rest := by
  rw [readString, if_neg (by decide), if_pos rfl]
  split
  · next c' rest' h' =>
    rw [h] at h'
    cases h'
    rfl
  · next h' =>
    rw [h] at h'
    cases h'

/-- What a character is written as is read as the character. -/
theorem readString_escapeChar (done : List Char) (c : Char) (s : List Char) :
    readString done (escapeChar c ++ s) = readString (c :: done) s := by
  have hshort (letter meaning : Char) (hletter : letter ≠ 'u')
      (hlookup : shortEscapes.lookup letter = some meaning) :
      readString done ('\\' :: letter :: s) = readString (meaning :: done) s := by
    apply readString_escape
    rw [escape, if_neg hletter, hlookup]
    rfl
  unfold escapeChar
  split
  · next hc => subst hc; exact hshort '"' '"' (by decide) (by decide)
  split
  · next hc => subst hc; exact hshort '\\' '\\' (by decide) (by decide)
  split
  · next hc => subst hc; exact hshort 'b' '\x08' (by decide) (by decide)
  split
  · next hc => subst hc; exact hshort 'f' '\x0c' (by decide) (by decide)
  split
  · next hc => subst hc; exact hshort 'n' '\n' (by decide) (by decide)
  split
  · next hc => subst hc; exact hshort 'r' '\r' (by decide) (by decide)
  split
  · next hc => subst hc; exact hshort 't' '\t' (by decide) (by decide)
  split
  · next hcontrol =>
    apply readString_escape
    have hzero : Text.hexValue? '0' = some 0 := by decide
    have hhigh : Text.hexValue? (Text.hexDigit (c.toNat / 16)) = some (c.toNat / 16) :=
      hexValue?_hexDigit (by omega)
    have hlow : Text.hexValue? (Text.hexDigit (c.toNat % 16)) = some (c.toNat % 16) :=
      hexValue?_hexDigit (by omega)
    have hunit : hexUnit? ('0' :: '0' :: Text.hexDigit (c.toNat / 16) ::
        Text.hexDigit (c.toNat % 16) :: s) = some (c.toNat, s) := by
      have hsum : ((0 * 16 + 0) * 16 + c.toNat / 16) * 16 + c.toNat % 16 = c.toNat := by omega
      simp only [hexUnit?, hzero, hhigh, hlow, Option.bind_eq_bind, Option.bind_some, hsum]
      rfl
    have hbelow : c.toNat < 0xD800 ∨ 0xDFFF < c.toNat := .inl (by omega)
    show escape ('u' :: '0' :: '0' :: Text.hexDigit (c.toNat / 16) ::
      Text.hexDigit (c.toNat % 16) :: s) = some (c, s)
    rw [escape, if_pos rfl, unicodeEscape]
    simp only [hunit, if_pos hbelow, Char.ofNat_toNat]
  · next hquote hslash _ _ _ _ _ hcontrol =>
    rw [List.singleton_append, readString, if_neg hquote, if_neg hslash, if_neg hcontrol]

/-- A quoted text is read back up to its closing quotation mark. -/
theorem readString_escaped (done text rest : List Char) :
    readString done (text.flatMap escapeChar ++ '"' :: rest) = some (done.reverse ++ text, rest) := by
  induction text generalizing done with
  | nil => simp [readString]
  | cons c text ih =>
    rw [List.flatMap_cons, List.append_assoc, readString_escapeChar, ih]
    simp

/-! ## Integers -/

end Token

/-- Numbers are written with digits alone. -/
theorem isDigit_of_mem_toDigits {n : Nat} {c : Char} (h : c ∈ Nat.toDigits 10 n) :
    Text.isDigit c = true := by
  have hc := Nat.isDigit_of_mem_toDigits (by decide) (by decide) h
  simpa [Text.isDigit, Char.isDigit, Char.le_def] using hc

/-- The text of a number holds digits alone. -/
theorem isDigit_of_mem_toString {n : Nat} {c : Char} (h : c ∈ (toString n).toList) :
    Text.isDigit c = true := by
  rw [Nat.toString_eq_ofList_toDigits, String.toList_ofList] at h
  exact isDigit_of_mem_toDigits h

/-- What is no digit is not in the text of a number. -/
theorem not_mem_toString {c : Char} (h : Text.isDigit c = false) (n : Nat) :
    c ∉ (toString n).toList := by
  intro hmem
  rw [isDigit_of_mem_toString hmem] at h
  cases h

/-- The digits of a number spell it. -/
theorem decimalValue_toDigits (n : Nat) : Text.decimalValue (Nat.toDigits 10 n) = n := by
  have hdigits : Nat.ofDigitChars 10 (Nat.toDigits 10 n) 0 = n := Nat.ofDigitChars_ten_toDigits
  rw [Nat.ofDigitChars_eq_foldl] at hdigits
  have hzero : '0'.toNat = 48 := rfl
  simpa only [Text.decimalValue, Text.digitValue, Nat.mul_comm, hzero] using hdigits

/-- A number above zero starts with no zero. -/
theorem head?_toDigits_ne {n : Nat} (h : 0 < n) : (Nat.toDigits 10 n).head? ≠ some '0' := by
  induction n using Nat.strongRecOn with
  | ind n ih =>
    by_cases hsmall : n < 10
    · rw [Nat.toDigits_of_lt_base hsmall]
      have hall : ∀ k : Fin 10, 0 < k.val → k.val.digitChar ≠ '0' := by decide
      simpa using hall ⟨n, hsmall⟩ h
    · have hrest := ih (n / 10) (by omega) (by omega)
      rw [Nat.toDigits_of_base_le (by decide) (by omega), List.head?_append]
      cases hhead : (Nat.toDigits 10 (n / 10)).head? with
      | none => simp [Nat.toDigits_ne_nil] at hhead
      | some c =>
        rw [hhead] at hrest
        simpa using hrest

/-- The digits of a number start with no zero, unless zero is all there is. -/
theorem isWhole_toDigits (n : Nat) : Literal.isWhole (Nat.toDigits 10 n) = true := by
  by_cases hn : n = 0
  · subst hn
    decide
  · have hhead := head?_toDigits_ne (Nat.pos_of_ne_zero hn)
    cases hdigits : Nat.toDigits 10 n with
    | nil => exact absurd hdigits Nat.toDigits_ne_nil
    | cons c rest =>
      rw [hdigits] at hhead
      cases rest with
      | nil => rfl
      | cons => simpa [Literal.isWhole] using hhead

/-- Whether a text is at its end or goes on with what stands after a value. -/
def Closed (s : List Char) : Prop :=
  ∀ c rest, s = c :: rest → c = ',' ∨ c = '\n'

/-- The end of a text closes a value. -/
theorem closed_nil : Closed [] := by
  rintro c rest ⟨⟩

/-- A comma or a line break closes a value. -/
theorem closed_cons {c : Char} (h : c = ',' ∨ c = '\n') (rest : List Char) :
    Closed (c :: rest) := by
  rintro c' rest' ⟨⟩
  exact h

/-- The digits of a number, with or without a sign in front, are a literal of their own. -/
theorem split_of_digits {negative : Bool} {s digits rest : List Char}
    (hsign : Literal.splitSign s = (negative, digits ++ rest))
    (hdigits : ∀ c ∈ digits, Text.isDigit c = true) (hwhole : Literal.isWhole digits = true)
    (hrest : Closed rest) :
    Literal.split s = some (⟨negative, digits, none, none⟩, rest) := by
  have htake : (digits ++ rest).takeWhile Text.isDigit = digits := by
    rw [List.takeWhile_append_of_pos hdigits]
    cases rest with
    | nil => simp
    | cons c rest => rcases hrest c rest rfl with rfl | rfl <;> simp [Text.isDigit]
  have hdrop : (digits ++ rest).dropWhile Text.isDigit = rest := by
    rw [List.dropWhile_append_of_pos hdigits]
    cases rest with
    | nil => rfl
    | cons c rest => rcases hrest c rest rfl with rfl | rfl <;> simp [Text.isDigit]
  have hfraction : Literal.splitFraction rest = some (none, rest) := by
    cases rest with
    | nil => rfl
    | cons c rest => rcases hrest c rest rfl with rfl | rfl <;> rfl
  have hexponent : Literal.splitExponent rest = some (none, rest) := by
    cases rest with
    | nil => rfl
    | cons c rest => rcases hrest c rest rfl with rfl | rfl <;> rfl
  simp only [Literal.split, hsign, htake, hdrop, if_pos hwhole, hfraction, Option.bind_some,
    hexponent, Option.map_some]

/-- Whether a character can be the first of an integer. -/
def StartsInt (c : Char) : Prop :=
  c = '-' ∨ Text.isDigit c = true

/-- An integer starts with its sign or a digit, and with nothing else. -/
theorem StartsInt.ne {c other : Char} (h : StartsInt c) (hsign : other ≠ '-')
    (hdigit : Text.isDigit other = false) : c ≠ other := by
  rintro rfl
  rcases h with rfl | h
  · exact hsign rfl
  · rw [hdigit] at h
    cases h

/-- A scalar that starts like an integer is read as a number. -/
theorem nextScalar_of_startsInt {c : Char} (h : StartsInt c) (s : List Char) :
    Token.nextScalar c s = (Literal.split (c :: s)).bind fun (literal, rest) =>
      literal.json?.map fun value => (.scalar value, rest) := by
  rw [Token.nextScalar, if_neg (h.ne (by decide) (by decide)), if_neg (h.ne (by decide) (by decide)),
    if_neg (h.ne (by decide) (by decide)), if_neg (h.ne (by decide) (by decide))]

/-- An integer in range is read as a token of its own. -/
theorem nextScalar_of_int {value : Int} (hlow : -9223372036854775808 ≤ value)
    (hhigh : value ≤ 18446744073709551615) :
    ∃ c s, (toString value).toList = c :: s ∧ StartsInt c ∧ ∀ rest, Closed rest →
      Token.nextScalar c (s ++ rest) = some (.scalar (.int value), rest) := by
  cases value with
  | ofNat n =>
    have htext : (toString (Int.ofNat n)).toList = Nat.toDigits 10 n := by
      show n.repr.toList = _
      simp
    obtain ⟨c, s, hdigits⟩ := List.exists_cons_of_ne_nil (Nat.toDigits_ne_nil (n := n) (b := 10))
    have hc : Text.isDigit c = true := isDigit_of_mem_toDigits (hdigits ▸ List.mem_cons_self)
    refine ⟨c, s, htext.trans hdigits, .inr hc, fun rest hrest => ?_⟩
    have hsign : Literal.splitSign (c :: (s ++ rest)) = (false, Nat.toDigits 10 n ++ rest) := by
      rw [hdigits, Literal.splitSign]
      · rfl
      · rintro s' ⟨⟩
        cases hc
    have hsplit := split_of_digits hsign (fun _ => isDigit_of_mem_toDigits) (isWhole_toDigits n)
      hrest
    have hlimit : n ≤ Literal.limit := Int.ofNat_le.1 hhigh
    rw [nextScalar_of_startsInt (.inr hc), hsplit]
    simp [Literal.json?, decimalValue_toDigits, hlimit]
  | negSucc n =>
    have htext : (toString (Int.negSucc n)).toList = '-' :: Nat.toDigits 10 (n + 1) := by
      show ("-" ++ (n + 1).repr).toList = _
      simp
    refine ⟨'-', _, htext, .inl rfl, fun rest hrest => ?_⟩
    have hsign : Literal.splitSign ('-' :: (Nat.toDigits 10 (n + 1) ++ rest)) =
        (true, Nat.toDigits 10 (n + 1) ++ rest) := rfl
    have hsplit := split_of_digits hsign (fun _ => isDigit_of_mem_toDigits)
      (isWhole_toDigits (n + 1)) hrest
    have hlimit : n + 1 ≤ 9223372036854775808 := by omega
    rw [nextScalar_of_startsInt (.inl rfl), hsplit]
    simp [Literal.json?, decimalValue_toDigits, hlimit]
    omega

/-! ## Texts of tokens -/

/-- Whether a text is read as tokens, whatever closed text comes after it. -/
def Reads (s : List Char) (tokens : List Token) : Prop :=
  ∀ found rest, Closed rest →
    Token.readAll found (s ++ rest) = Token.readAll (tokens.reverse ++ found) rest

section

variable (found : List Token)

/-- A token that is read joins those before it. -/
theorem readAll_next {c : Char} {s rest : List Char} {token : Token}
    (hblank : Token.isBlank c = false) (h : Token.next c s = some (token, rest)) :
    Token.readAll found (c :: s) = Token.readAll (token :: found) rest := by
  rw [Token.readAll, if_neg (by simp [hblank])]
  split
  · next h' =>
    rw [h] at h'
    cases h'
  · next token' rest' h' =>
    rw [h] at h'
    cases h'
    rfl

/-- A mark is a token by itself. -/
theorem readAll_mark {c : Char} {token : Token} (h : (c, token) ∈ Token.marks) (s : List Char) :
    Token.readAll found (c :: s) = Token.readAll (token :: found) s := by
  have hmark : Token.isBlank c = false ∧ Token.marks.lookup c = some token := by
    simp only [Token.marks, List.mem_cons, Prod.mk.injEq, List.not_mem_nil, or_false] at h
    rcases h with ⟨rfl, rfl⟩ | ⟨rfl, rfl⟩ | ⟨rfl, rfl⟩ | ⟨rfl, rfl⟩ | ⟨rfl, rfl⟩ | ⟨rfl, rfl⟩
    all_goals exact ⟨by decide, rfl⟩
  apply readAll_next found hmark.1
  rw [Token.next, hmark.2]

/-- A scalar that is read joins the tokens before it. -/
theorem readAll_scalar {c : Char} {s rest : List Char} {value : Json}
    (hblank : Token.isBlank c = false) (hmark : Token.marks.lookup c = none)
    (h : Token.nextScalar c s = some (.scalar value, rest)) :
    Token.readAll found (c :: s) = Token.readAll (.scalar value :: found) rest := by
  apply readAll_next found hblank
  rw [Token.next, hmark]
  exact h

/-- A line break and the indentation behind it are passed over. -/
theorem readAll_lineBreak (level : Nat) (s : List Char) :
    Token.readAll found ((lineBreak level).toList ++ s) = Token.readAll found s := by
  have hspaces (n : Nat) :
      Token.readAll found (List.replicate n ' ' ++ s) = Token.readAll found s := by
    induction n with
    | zero => rfl
    | succ n ih =>
      rw [List.replicate_succ, List.cons_append, Token.readAll, if_pos (by decide)]
      exact ih
  have htext : (lineBreak level).toList = '\n' :: List.replicate (2 * level) ' ' := by
    simp [lineBreak]
  rw [htext, List.cons_append, Token.readAll, if_pos (by decide)]
  exact hspaces (2 * level)

/-- A quoted text is read as the string that was quoted. -/
theorem readAll_quote (text : String) (s : List Char) :
    Token.readAll found ((quote text).toList ++ s) =
      Token.readAll (.scalar (.string text) :: found) s := by
  have htext : (quote text).toList ++ s =
      '"' :: (text.toList.flatMap escapeChar ++ '"' :: s) := by
    simp [quote]
  rw [htext]
  apply readAll_scalar found (by decide) (by decide)
  rw [Token.nextScalar, if_pos rfl, Token.readString_escaped]
  simp

end

/-- The word for null is read as null. -/
theorem reads_null : Reads "null".toList [.scalar .null] := by
  intro found rest _
  have htext : "null".toList = ['n', 'u', 'l', 'l'] := by decide +kernel
  rw [htext]
  exact readAll_scalar found (by decide) (by decide) (by simp [Token.nextScalar, Token.word])

/-- The words for the truth values are read as these. -/
theorem reads_bool (value : Bool) :
    Reads (if value then "true" else "false").toList [.scalar (.bool value)] := by
  intro found rest _
  cases value with
  | true =>
    have htext : "true".toList = ['t', 'r', 'u', 'e'] := by decide +kernel
    rw [if_pos rfl, htext]
    exact readAll_scalar found (by decide) (by decide) (by simp [Token.nextScalar, Token.word])
  | false =>
    have htext : "false".toList = ['f', 'a', 'l', 's', 'e'] := by decide +kernel
    rw [if_neg (by decide), htext]
    exact readAll_scalar found (by decide) (by decide) (by simp [Token.nextScalar, Token.word])

/-- An integer is read back within the range of signed and unsigned words. -/
theorem reads_int {value : Int} (hlow : -9223372036854775808 ≤ value)
    (hhigh : value ≤ 18446744073709551615) :
    Reads (toString value).toList [.scalar (.int value)] := by
  intro found rest hrest
  obtain ⟨c, s, htext, hc, hnext⟩ := nextScalar_of_int hlow hhigh
  have hmark : Token.marks.lookup c = none := by
    rw [List.lookup_eq_none_iff]
    intro mark hmem
    have hne : c ≠ mark.1 := by
      apply hc.ne
      all_goals
        revert mark
        decide
    simpa using hne
  have hblank : Token.isBlank c = false := by
    have hspace : c ≠ ' ' := hc.ne (by decide) (by decide)
    have hbreak : c ≠ '\n' := hc.ne (by decide) (by decide)
    have htab : c ≠ '\t' := hc.ne (by decide) (by decide)
    have hreturn : c ≠ '\r' := hc.ne (by decide) (by decide)
    simp [Token.isBlank, hspace, hbreak, htab, hreturn]
  rw [htext, List.cons_append]
  exact readAll_scalar found hblank hmark (hnext rest hrest)

/-- A quoted text is read back as a token. -/
theorem reads_string (text : String) : Reads (quote text).toList [.scalar (.string text)] :=
  fun found rest _ => readAll_quote found text rest

/-- Two brackets are read as the start and the end of an array. -/
theorem reads_empty_array : Reads "[]".toList [.arrayStart, .arrayEnd] := by
  intro found rest _
  have htext : "[]".toList = ['[', ']'] := by decide +kernel
  have hstart : ('[', Token.arrayStart) ∈ Token.marks := by simp [Token.marks]
  have hend : (']', Token.arrayEnd) ∈ Token.marks := by simp [Token.marks]
  simp only [htext, List.cons_append, List.nil_append]
  rw [readAll_mark found hstart, readAll_mark _ hend]
  rfl

/-- Two braces are read as the start and the end of an object. -/
theorem reads_empty_object : Reads "\x7b\x7d".toList [.objectStart, .objectEnd] := by
  intro found rest _
  have htext : "\x7b\x7d".toList = ['\x7b', '\x7d'] := by decide +kernel
  have hstart : ('\x7b', Token.objectStart) ∈ Token.marks := by simp [Token.marks]
  have hend : ('\x7d', Token.objectEnd) ∈ Token.marks := by simp [Token.marks]
  simp only [htext, List.cons_append, List.nil_append]
  rw [readAll_mark found hstart, readAll_mark _ hend]
  rfl

/-! ## Written values -/

/-- What is appended to a text when a value is written. -/
def Appends (before after : String) (tokens : List Token) : Prop :=
  ∃ s, after.toList = before.toList ++ s ∧ Reads s tokens

/-- What follows a value: further items or members, each after a comma. -/
def Continues (before after : String) (tokens : List Token) : Prop :=
  ∃ s, after.toList = before.toList ++ s ∧ Reads s tokens ∧ ∀ rest, Closed rest → Closed (s ++ rest)

/-- A line break closes a value, whatever its level. -/
theorem closed_lineBreak (level : Nat) (s : List Char) : Closed ((lineBreak level).toList ++ s) := by
  have htext : (lineBreak level).toList = '\n' :: List.replicate (2 * level) ' ' := by
    simp [lineBreak]
  rw [htext]
  exact closed_cons (.inr rfl) _

/-- Elements that are each appended after a comma and a line break. -/
theorem continues_foldl {α : Type} {level : Nat} {append : String → α → String}
    {tokens : α → List Token} {elements : List α}
    (h : ∀ element ∈ elements, ∀ before, Appends before (append before element) (tokens element))
    (before : String) :
    Continues before
      (elements.foldl (fun before element => append (before ++ "," ++ lineBreak level) element) before)
      (elements.flatMap fun element => .comma :: tokens element) := by
  induction elements generalizing before with
  | nil => exact ⟨[], by simp, fun found rest _ => rfl, fun rest hrest => hrest⟩
  | cons element rest ih =>
    obtain ⟨helement, hrest⟩ := List.forall_mem_cons.1 h
    obtain ⟨s, hs, hreads⟩ := helement (before ++ "," ++ lineBreak level)
    obtain ⟨s', hs', hreads', hclosed⟩ := ih hrest (append (before ++ "," ++ lineBreak level) element)
    refine ⟨',' :: ((lineBreak level).toList ++ (s ++ s')), ?_, ?_, fun _ _ =>
      closed_cons (.inl rfl) _⟩
    · rw [List.foldl_cons, hs', hs]
      simp
    · intro found after hafter
      have hcomma : (',', Token.comma) ∈ Token.marks := by simp [Token.marks]
      rw [List.cons_append, List.append_assoc, List.append_assoc, readAll_mark found hcomma,
        readAll_lineBreak, hreads _ _ (hclosed after hafter), hreads' _ _ hafter]
      simp

/-- A first element and those that follow it, in brackets and on lines of their own. -/
theorem appends_enclosed (start finish : Char × Token) {level : Nat} {opening closing : String}
    (hopening : opening.toList = [start.1]) (hclosing : closing.toList = [finish.1])
    (hstart : start ∈ Token.marks) (hfinish : finish ∈ Token.marks) {before first all : String}
    {tokens tokens' : List Token}
    (hfirst : Appends (before ++ opening ++ lineBreak (level + 1)) first tokens)
    (hall : Continues first all tokens') :
    Appends before (all ++ lineBreak level ++ closing)
      (start.2 :: (tokens ++ (tokens' ++ [finish.2]))) := by
  obtain ⟨s, hs, hreads⟩ := hfirst
  obtain ⟨s', hs', hreads', hclosed⟩ := hall
  refine ⟨start.1 :: ((lineBreak (level + 1)).toList ++ (s ++ (s' ++
    ((lineBreak level).toList ++ [finish.1])))), ?_, ?_⟩
  · simp only [String.toList_append, hs', hs, hopening, hclosing]
    simp
  · intro found after hafter
    have hend : Closed ((lineBreak level).toList ++ (finish.1 :: after)) := closed_lineBreak level _
    simp only [List.cons_append, List.append_assoc, List.nil_append]
    rw [readAll_mark found hstart, readAll_lineBreak, hreads _ _ (hclosed _ hend),
      hreads' _ _ hend, readAll_lineBreak, readAll_mark _ hfinish]
    simp

/-- Items are written one after another, each behind a comma on a line of its own. -/
theorem writeItems_eq_foldl (level : Nat) (before : String) (items : List Json) :
    writeItems level before items =
      items.foldl (fun before item => write level (before ++ "," ++ lineBreak level) item) before := by
  induction items generalizing before with
  | nil => rw [writeItems]; rfl
  | cons item rest ih => rw [writeItems, ih, List.foldl_cons]

/-- Writes a member. -/
def writeMember (level : Nat) (before : String) (member : String × Json) : String :=
  write level (before ++ quote member.1 ++ ": ") member.2

/-- Members are written one after another, each behind a comma on a line of its own. -/
theorem writeMembers_eq_foldl (level : Nat) (before : String) (members : List (String × Json)) :
    writeMembers level before members =
      members.foldl (fun before member => writeMember level (before ++ "," ++ lineBreak level) member)
        before := by
  induction members generalizing before with
  | nil => rw [writeMembers]; rfl
  | cons member rest ih =>
    obtain ⟨key, value⟩ := member
    rw [writeMembers, ih, List.foldl_cons]
    rfl

/-- The tokens of a member. -/
def tokensOfMember (member : String × Json) : List Token :=
  .scalar (.string member.1) :: .colon :: tokens member.2

/-- The tokens of further items are those of each, behind a comma. -/
theorem tokensOfItems_eq_flatMap (items : List Json) :
    tokensOfItems items = items.flatMap fun item => .comma :: tokens item := by
  induction items with
  | nil => rw [tokensOfItems]; rfl
  | cons item rest ih => rw [tokensOfItems, ih]; rfl

/-- The tokens of further members are those of each, behind a comma. -/
theorem tokensOfMembers_eq_flatMap (members : List (String × Json)) :
    tokensOfMembers members = members.flatMap fun member => .comma :: tokensOfMember member := by
  induction members with
  | nil => rw [tokensOfMembers]; rfl
  | cons member rest ih =>
    obtain ⟨key, value⟩ := member
    rw [tokensOfMembers, ih]
    rfl

/-- Writing a member appends its tokens if writing its value does. -/
theorem appends_member {level : Nat} {member : String × Json}
    (h : ∀ before, Appends before (write level before member.2) (tokens member.2))
    (before : String) :
    Appends before (writeMember level before member) (tokensOfMember member) := by
  obtain ⟨s, hs, hreads⟩ := h (before ++ quote member.1 ++ ": ")
  refine ⟨(quote member.1).toList ++ ':' :: ' ' :: s, ?_, ?_⟩
  · rw [writeMember, hs]
    simp
  · intro found after hafter
    have hcolon : (':', Token.colon) ∈ Token.marks := by simp [Token.marks]
    simp only [List.append_assoc, List.cons_append]
    rw [readAll_quote, readAll_mark _ hcolon, Token.readAll, if_pos (by decide),
      hreads _ _ hafter, tokensOfMember]
    simp

/-- Appending a text appends the tokens as which it is read. -/
theorem appends_of_reads {text : String} {tokens : List Token} (h : Reads text.toList tokens)
    (before : String) : Appends before (before ++ text) tokens :=
  ⟨text.toList, String.toList_append .., h⟩

/-- A written value is read as its tokens. -/
theorem appends_write {depth : Nat} {value : Json} (h : Plain depth value) :
    ∀ level before, Appends before (write level before value) (tokens value) := by
  induction h with
  | null =>
    intro level before
    rw [write, tokens]
    exact appends_of_reads reads_null before
  | bool value =>
    intro level before
    rw [write, tokens]
    exact appends_of_reads (reads_bool value) before
  | @int depth value hlow hhigh =>
    intro level before
    rw [write, tokens]
    exact appends_of_reads (reads_int hlow hhigh) before
  | string value =>
    intro level before
    rw [write, tokens]
    exact appends_of_reads (reads_string value) before
  | @array depth items _ ih =>
    intro level before
    cases items with
    | nil =>
      rw [write, tokens]
      exact appends_of_reads reads_empty_array before
    | cons item rest =>
      obtain ⟨hitem, hrest⟩ := List.forall_mem_cons.1 ih
      rw [write, tokens, writeItems_eq_foldl, tokensOfItems_eq_flatMap]
      exact appends_enclosed ('[', .arrayStart) (']', .arrayEnd) (by simp) (by simp)
        (by simp [Token.marks]) (by simp [Token.marks]) (hitem _ _)
        (continues_foldl (fun item hmem before => hrest item hmem _ before) _)
  | @object depth members _ ih =>
    intro level before
    cases members with
    | nil =>
      rw [write, tokens]
      exact appends_of_reads reads_empty_object before
    | cons member rest =>
      obtain ⟨hmember, hrest⟩ := List.forall_mem_cons.1 ih
      obtain ⟨key, value⟩ := member
      rw [write, tokens, writeMembers_eq_foldl, tokensOfMembers_eq_flatMap]
      exact appends_enclosed ('\x7b', .objectStart) ('\x7d', .objectEnd) (by simp) (by simp)
        (by simp [Token.marks]) (by simp [Token.marks])
        (appends_member (hmember _) _)
        (continues_foldl (fun member hmem before => appends_member (hrest member hmem _) before) _)

/-- The text of a value has the tokens of the value. -/
theorem ofText_pretty {depth : Nat} {value : Json} (h : Plain depth value) :
    Token.ofText value.pretty.toList = some (tokens value) := by
  obtain ⟨s, hs, hreads⟩ := appends_write h 0 ""
  have htext : value.pretty.toList = s ++ [] := by
    rw [pretty, hs]
    simp
  rw [htext, Token.ofText, hreads [] [] closed_nil, Token.readAll]
  simp

end LocaleLint.Json
