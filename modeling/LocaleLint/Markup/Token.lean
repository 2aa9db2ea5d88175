import LocaleLint.Text.Blank
import LocaleLint.Text.Length

/-!
# Markup tokens

Cuts markup source into its pieces: text, tags, and the constructs that start with
`<!` or `<?`. A token keeps its source, so the sources of the tokens of a text,
one after the other, are what was read of it (`heads_of_nextToken`).
-/

set_option autoImplicit false

namespace LocaleLint.Markup

open Text (byteLength)

/-- A piece of markup. The content of a start tag stands between its angle brackets,
a final slash included; the content of a document type starts after the mark `!`. -/
inductive Token where
  | text (content : List Char)
  | cdata (content : List Char)
  | comment (content : List Char)
  | instruction (content : List Char)
  | doctype (content : List Char)
  | startTag (content : List Char)
  | endTag (content : List Char)
deriving DecidableEq, Repr

/-- Why no token can be read. The length of a document type without a name is that of
its content. -/
inductive TokenFault where
  | unclosedTag
  | unclosedCdata
  | unclosedComment
  | unclosedInstruction
  | unclosedDoctype
  | unknownMarkup
  | unnamedDoctype (length : Nat)
deriving DecidableEq, Repr

/-- A piece of a text with the byte offsets of its start and of its end. -/
structure Located (α : Type) where
  item : α
  start : Nat
  stop : Nat
deriving DecidableEq, Repr

namespace Token

/-- The source of a token. -/
def source : Token → List Char
  | .text content => content
  | .cdata content => ['<', '!', '[', 'C', 'D', 'A', 'T', 'A', '['] ++ content ++ [']', ']', '>']
  | .comment content => ['<', '!', '-', '-'] ++ content ++ ['-', '-', '>']
  | .instruction content => ['<', '?'] ++ content ++ ['?', '>']
  | .doctype content => ['<', '!'] ++ content ++ ['>']
  | .startTag content => ['<'] ++ content ++ ['>']
  | .endTag content => ['<', '/'] ++ content ++ ['>']

/-- The length of a token's source in bytes. -/
def byteLength (token : Token) : Nat :=
  Text.byteLength token.source

end Token

/-- Cuts at the first `mark`: what comes before it and what follows it. The characters
already passed are in `passed`, the latest first. -/
def breakAt (mark : List Char) (passed : List Char) : List Char → Option (List Char × List Char)
  | [] => none
  | c :: rest =>
    if mark.isPrefixOf (c :: rest) then some (passed.reverse, (c :: rest).drop mark.length)
    else breakAt mark (c :: passed) rest

/-- Whether `c` closes the open quotation, opens one, or leaves it as it is. -/
def nextQuote (quote : Option Char) (c : Char) : Option Char :=
  match quote with
  | none => if c = '"' || c = '\'' then some c else none
  | some q => if c = q then none else some q

/-- Cuts at the first `>` outside quotations. -/
def breakTag (quote : Option Char) (passed : List Char) :
    List Char → Option (List Char × List Char)
  | [] => none
  | c :: rest =>
    if quote = none ∧ c = '>' then some (passed.reverse, rest)
    else breakTag (nextQuote quote c) (c :: passed) rest

/-- Cuts at the first `>` that closes no nested `<`. -/
def breakDoctype (depth : Nat) (passed : List Char) : List Char → Option (List Char × List Char)
  | [] => none
  | c :: rest =>
    if c = '>' then
      match depth with
      | 0 => some (passed.reverse, rest)
      | depth + 1 => breakDoctype depth (c :: passed) rest
    else breakDoctype (if c = '<' then depth + 1 else depth) (c :: passed) rest

/-- Whether `s` starts with the word that opens a document type, in any case. -/
def opensDoctype (s : List Char) : Bool :=
  (s.take 7).map Char.toUpper == ['D', 'O', 'C', 'T', 'Y', 'P', 'E']

/-- The token whose content was cut off, or the fault when no end was found. -/
def delimited (make : List Char → Token) (fault : TokenFault) :
    Option (List Char × List Char) → Except TokenFault (Token × List Char)
  | some (content, rest) => .ok (make content, rest)
  | none => .error fault

/-- The character data that open with `<![`, up to the first `]]>`. -/
def nextCdata (s : List Char) : Except TokenFault (Token × List Char) :=
  if ['C', 'D', 'A', 'T', 'A', '['].isPrefixOf s then
    delimited .cdata .unclosedCdata (breakAt [']', ']', '>'] [] (s.drop 6))
  else .error .unclosedCdata

/-- The comment that opens with `<!-`, up to the first `-->`. -/
def nextComment : List Char → Except TokenFault (Token × List Char)
  | '-' :: s => delimited .comment .unclosedComment (breakAt ['-', '-', '>'] [] s)
  | _ => .error .unclosedComment

/-- The document type that opens with `<!`. It has to have a name. -/
def nextDoctype (s : List Char) : Except TokenFault (Token × List Char) :=
  match breakDoctype 0 [] s with
  | some (content, rest) =>
    if (content.drop 7).all Text.isMarkupBlank then
      .error (.unnamedDoctype (byteLength content))
    else .ok (.doctype content, rest)
  | none => .error .unclosedDoctype

/-- The token that opens with `<!`. -/
def nextDeclaration : List Char → Except TokenFault (Token × List Char)
  | '[' :: s => nextCdata s
  | '-' :: s => nextComment s
  | s =>
    if opensDoctype s then nextDoctype s
    else if s.head? = some 'D' ∨ s.head? = some 'd' then .error .unclosedDoctype
    else .error .unknownMarkup

/-- The instruction that opens with `<?`, up to the first `?>`; the mark that opens it
does not close it. -/
def nextInstruction : List Char → Except TokenFault (Token × List Char)
  | '>' :: _ => .error .unclosedInstruction
  | s => delimited .instruction .unclosedInstruction (breakAt ['?', '>'] [] s)

/-- The token that opens with `<`. -/
def nextMarkup : List Char → Except TokenFault (Token × List Char)
  | '!' :: s => nextDeclaration s
  | '?' :: s => nextInstruction s
  | '/' :: s => delimited .endTag .unclosedTag (breakTag none [] s)
  | s => delimited .startTag .unclosedTag (breakTag none [] s)

/-- The first token of the text `c :: s`, and what follows it. -/
def nextToken (c : Char) (s : List Char) : Except TokenFault (Token × List Char) :=
  if c = '<' then nextMarkup s
  else .ok (.text (c :: s.takeWhile (· ≠ '<')), s.dropWhile (· ≠ '<'))

/-- A text that is broken at a mark is what comes before, the mark, and what comes after. -/
theorem append_of_breakAt {mark passed s before after : List Char}
    (h : breakAt mark passed s = some (before, after)) :
    passed.reverse ++ s = before ++ mark ++ after := by
  induction s generalizing passed with
  | nil => simp [breakAt] at h
  | cons c rest ih =>
    unfold breakAt at h
    split at h
    · next hm =>
      obtain ⟨t, ht⟩ := List.isPrefixOf_iff_prefix.1 hm
      simp only [Option.some.injEq, Prod.mk.injEq] at h
      obtain ⟨rfl, rfl⟩ := h
      rw [← ht]
      simp
    · simpa using ih h

/-- A tag that is broken at its end is its content, the closing bracket, and what comes after. -/
theorem append_of_breakTag {quote : Option Char} {passed s before after : List Char}
    (h : breakTag quote passed s = some (before, after)) :
    passed.reverse ++ s = before ++ ['>'] ++ after := by
  induction s generalizing quote passed with
  | nil => simp [breakTag] at h
  | cons c rest ih =>
    unfold breakTag at h
    split at h
    · next hc =>
      simp only [Option.some.injEq, Prod.mk.injEq] at h
      obtain ⟨rfl, rfl⟩ := h
      simp [hc.2]
    · simpa using ih h

/-- A document type that is broken at its end is its content, the closing bracket, and what comes
after. -/
theorem append_of_breakDoctype {depth : Nat} {passed s before after : List Char}
    (h : breakDoctype depth passed s = some (before, after)) :
    passed.reverse ++ s = before ++ ['>'] ++ after := by
  induction s generalizing depth passed with
  | nil => simp [breakDoctype] at h
  | cons c rest ih =>
    unfold breakDoctype at h
    split at h
    · next hc =>
      split at h
      · simp only [Option.some.injEq, Prod.mk.injEq] at h
        obtain ⟨rfl, rfl⟩ := h
        simp [hc]
      · simpa using ih h
    · simpa using ih h

/-- Whether `token` stands in front of `rest` in the text `s`, and takes up some of it. -/
def Heads (token : Token) (rest s : List Char) : Prop :=
  token.source ++ rest = s ∧ token.source ≠ []

/-- A construct heads the text if it does so wherever its end is found. -/
theorem heads_of_delimited {make : List Char → Token} {fault : TokenFault}
    {cut : Option (List Char × List Char)} {token : Token} {rest s : List Char}
    (h : delimited make fault cut = .ok (token, rest))
    (hs : ∀ content, cut = some (content, rest) → Heads (make content) rest s) :
    Heads token rest s := by
  unfold delimited at h
  split at h
  · simp only [Except.ok.injEq, Prod.mk.injEq] at h
    obtain ⟨rfl, rfl⟩ := h
    exact hs _ rfl
  · cases h

/-- A CDATA section that is read heads the text from which it was read. -/
theorem heads_of_nextCdata {s rest : List Char} {token : Token}
    (h : nextCdata s = .ok (token, rest)) : Heads token rest ('<' :: '!' :: '[' :: s) := by
  unfold nextCdata at h
  split at h
  · next hp =>
    obtain ⟨t, rfl⟩ := List.isPrefixOf_iff_prefix.1 hp
    refine heads_of_delimited h fun content hc => ?_
    have := append_of_breakAt hc
    simp_all [Heads, Token.source]
  · cases h

/-- A comment that is read heads the text from which it was read. -/
theorem heads_of_nextComment {s rest : List Char} {token : Token}
    (h : nextComment s = .ok (token, rest)) : Heads token rest ('<' :: '!' :: '-' :: s) := by
  unfold nextComment at h
  split at h
  · refine heads_of_delimited h fun content hc => ?_
    have := append_of_breakAt hc
    simp_all [Heads, Token.source]
  · cases h

/-- A document type that is read heads the text from which it was read. -/
theorem heads_of_nextDoctype {s rest : List Char} {token : Token}
    (h : nextDoctype s = .ok (token, rest)) : Heads token rest ('<' :: '!' :: s) := by
  unfold nextDoctype at h
  split at h
  · next hb =>
    split at h
    · cases h
    · simp only [Except.ok.injEq, Prod.mk.injEq] at h
      obtain ⟨rfl, rfl⟩ := h
      have := append_of_breakDoctype hb
      simp_all [Heads, Token.source]
  · cases h

/-- Whatever is read behind an exclamation mark heads the text from which it was read. -/
theorem heads_of_nextDeclaration {s rest : List Char} {token : Token}
    (h : nextDeclaration s = .ok (token, rest)) : Heads token rest ('<' :: '!' :: s) := by
  unfold nextDeclaration at h
  split at h
  · exact heads_of_nextCdata h
  · exact heads_of_nextComment h
  · split at h
    · exact heads_of_nextDoctype h
    · split at h <;> cases h

/-- An instruction that is read heads the text from which it was read. -/
theorem heads_of_nextInstruction {s rest : List Char} {token : Token}
    (h : nextInstruction s = .ok (token, rest)) : Heads token rest ('<' :: '?' :: s) := by
  unfold nextInstruction at h
  split at h
  · cases h
  · refine heads_of_delimited h fun content hc => ?_
    have := append_of_breakAt hc
    simp_all [Heads, Token.source]

/-- Whatever is read behind an opening bracket heads the text from which it was read. -/
theorem heads_of_nextMarkup {s rest : List Char} {token : Token}
    (h : nextMarkup s = .ok (token, rest)) : Heads token rest ('<' :: s) := by
  unfold nextMarkup at h
  split at h
  · exact heads_of_nextDeclaration h
  · exact heads_of_nextInstruction h
  · refine heads_of_delimited h fun content hc => ?_
    have := append_of_breakTag hc
    simp_all [Heads, Token.source]
  · refine heads_of_delimited h fun content hc => ?_
    have := append_of_breakTag hc
    simp_all [Heads, Token.source]

/-- A token is what was read of the text. -/
theorem heads_of_nextToken {c : Char} {s rest : List Char} {token : Token}
    (h : nextToken c s = .ok (token, rest)) : Heads token rest (c :: s) := by
  unfold nextToken at h
  split at h
  · next hc =>
    subst hc
    exact heads_of_nextMarkup h
  · simp only [Except.ok.injEq, Prod.mk.injEq] at h
    obtain ⟨rfl, rfl⟩ := h
    simp [Heads, Token.source, List.takeWhile_append_dropWhile]

/-- Reading a token leaves less to read. -/
theorem length_lt_of_nextToken {c : Char} {s rest : List Char} {token : Token}
    (h : nextToken c s = .ok (token, rest)) : rest.length < (c :: s).length := by
  obtain ⟨hs, hne⟩ := heads_of_nextToken h
  have hpos := List.length_pos_iff.2 hne
  have hl := congrArg List.length hs
  simp only [List.length_append] at hl
  omega

/-- The tokens of a text, up to its end or to the first fault, which is given with the
offset at which it is reported. -/
structure Tokens where
  tokens : List (Located Token)
  fault : Option (TokenFault × Nat)
  stop : Nat
deriving DecidableEq, Repr

/-- Where a fault of markup that opens at `start` is reported: there, or at the end of a
document type without a name. -/
def TokenFault.offset (start : Nat) : TokenFault → Nat
  | .unnamedDoctype length => start + 2 + length
  | _ => start

/-- Reads the tokens of the text `s`, which starts at the byte offset `start`; `found`
holds the tokens before it, the latest first. -/
def readTokens (start : Nat) (found : List (Located Token)) (s : List Char) : Tokens :=
  match s with
  | [] => ⟨found.reverse, none, start⟩
  | c :: s =>
    match _h : nextToken c s with
    | .error fault => ⟨found.reverse, some (fault, fault.offset start), start⟩
    | .ok (token, rest) =>
      let stop := start + token.byteLength
      readTokens stop (⟨token, start, stop⟩ :: found) rest
termination_by s.length
decreasing_by exact length_lt_of_nextToken _h

/-- The tokens of a text. -/
def Tokens.ofText (s : List Char) : Tokens :=
  readTokens 0 [] s

end LocaleLint.Markup
