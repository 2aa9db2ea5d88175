import LocaleLint.Proofs.Markup.Writing

/-!
# What follows a token

A reader takes a token from the characters up to its end and looks at nothing behind it. So a
construct in angle brackets is read alike whatever follows it (`usesUp_nextMarkup`), and a
text alike in front of any construct. From the tokens this carries over to whole runs
(`Reads.exists_used`): what a reader has come over may be followed by another text, and is read as
before.
-/

set_option autoImplicit false

namespace LocaleLint.Markup

/-! ## The end of a construct -/

/-- Whether `read` uses up what stands before `rest` in `s`, which is more than nothing, and gives
the same in front of any other text. -/
def UsesUp {α : Type} (read : List Char → α) (result : List Char → α) (s rest : List Char) : Prop :=
  ∃ used, used ≠ [] ∧ s = used ++ rest ∧ ∀ other, read (used ++ other) = result other

section

variable {mark passed s before after : List Char}

/-- A search for a mark uses up what stands to the end of the mark, and looks no further. -/
theorem exists_used_of_breakAt (hmark : mark ≠ [])
    (h : breakAt mark passed s = some (before, after)) :
    ∃ used, mark.length ≤ used.length ∧ s = used ++ after ∧
      ∀ other, breakAt mark passed (used ++ other) = some (before, other) := by
  induction s generalizing passed with
  | nil => cases h
  | cons c s ih =>
    unfold breakAt at h
    split at h
    · next hstarts =>
      obtain ⟨rest, hrest⟩ := List.isPrefixOf_iff_prefix.1 hstarts
      cases h
      refine ⟨mark, Nat.le_refl _, by rw [← hrest, List.drop_left], fun other => ?_⟩
      obtain ⟨first, mark, rfl⟩ := List.exists_cons_of_ne_nil hmark
      have hfound : (first :: mark).isPrefixOf (first :: (mark ++ other)) = true :=
        List.isPrefixOf_iff_prefix.2 ⟨other, rfl⟩
      rw [List.cons_append, breakAt, if_pos hfound, ← List.cons_append, List.drop_left]
    · next hstarts =>
      obtain ⟨used, hlength, rfl, hbreak⟩ := ih h
      refine ⟨c :: used, by rw [List.length_cons]; omega, rfl, fun other => ?_⟩
      -- the mark is no longer than what was used, so it does not start earlier before another text
      have hnot : ¬mark.isPrefixOf (c :: (used ++ other)) = true := by
        intro hother
        refine hstarts (List.isPrefixOf_iff_prefix.2 ?_)
        have hwithin := List.prefix_of_prefix_length_le (List.isPrefixOf_iff_prefix.1 hother)
          (List.prefix_append (c :: used) other) (by rw [List.length_cons]; omega)
        exact hwithin.trans (List.prefix_append (c :: used) after)
      rw [List.cons_append, breakAt, if_neg hnot, hbreak]

/-- The search for the end of a tag uses up the tag. -/
theorem usesUp_breakTag {quote : Option Char}
    (h : breakTag quote passed s = some (before, after)) :
    UsesUp (breakTag quote passed) (fun rest => some (before, rest)) s after := by
  induction s generalizing quote passed with
  | nil => cases h
  | cons c s ih =>
    unfold breakTag at h
    split at h
    · next hend =>
      cases h
      refine ⟨[c], List.cons_ne_nil c [], rfl, fun other => ?_⟩
      rw [List.singleton_append, breakTag, if_pos hend]
    · next hend =>
      obtain ⟨used, -, rfl, hbreak⟩ := ih h
      refine ⟨c :: used, List.cons_ne_nil c used, rfl, fun other => ?_⟩
      rw [List.cons_append, breakTag, if_neg hend, hbreak]

/-- The search for the end of a document type uses up the document type. -/
theorem usesUp_breakDoctype {depth : Nat}
    (h : breakDoctype depth passed s = some (before, after)) :
    UsesUp (breakDoctype depth passed) (fun rest => some (before, rest)) s after := by
  induction s generalizing depth passed with
  | nil => cases h
  | cons c s ih =>
    unfold breakDoctype at h
    split at h
    · next hc =>
      cases depth with
      | zero =>
        cases h
        refine ⟨[c], List.cons_ne_nil c [], rfl, fun other => ?_⟩
        rw [List.singleton_append, breakDoctype.eq_def]
        simp only [if_pos hc]
      | succ depth =>
        obtain ⟨used, -, rfl, hbreak⟩ := ih h
        refine ⟨c :: used, List.cons_ne_nil c used, rfl, fun other => ?_⟩
        rw [List.cons_append, breakDoctype.eq_def]
        simp only [if_pos hc, hbreak]
    · next hc =>
      obtain ⟨used, -, rfl, hbreak⟩ := ih h
      refine ⟨c :: used, List.cons_ne_nil c used, rfl, fun other => ?_⟩
      rw [List.cons_append, breakDoctype.eq_def]
      simp only [if_neg hc, hbreak]

end

/-! ## Tokens -/

section

variable {s rest : List Char} {token : Token}

/-- A construct whose content is cut off ends where the cut is. -/
theorem usesUp_delimited {make : List Char → Token} {fault : TokenFault}
    {cut : List Char → Option (List Char × List Char)}
    (h : delimited make fault (cut s) = .ok (token, rest))
    (hcut : ∀ content, cut s = some (content, rest) →
      UsesUp cut (fun rest => some (content, rest)) s rest) :
    UsesUp (fun s => delimited make fault (cut s)) (fun rest => .ok (token, rest)) s rest := by
  unfold delimited at h
  split at h
  · next content found hfound =>
    cases h
    obtain ⟨used, hne, hs, hbreak⟩ := hcut content hfound
    exact ⟨used, hne, hs, fun other => by simp only [hbreak, delimited]⟩
  · cases h

/-- The search for a mark uses up what it comes over. -/
theorem usesUp_breakAt {mark content : List Char} (hmark : mark ≠ [])
    (h : breakAt mark [] s = some (content, rest)) :
    UsesUp (breakAt mark []) (fun rest => some (content, rest)) s rest := by
  obtain ⟨used, hlength, hs, hbreak⟩ := exists_used_of_breakAt hmark h
  refine ⟨used, ?_, hs, hbreak⟩
  rintro rfl
  exact hmark (List.length_eq_zero_iff.1 (Nat.le_zero.1 hlength))

/-- Reading a CDATA section uses up the section. -/
theorem usesUp_nextCdata (h : nextCdata s = .ok (token, rest)) :
    UsesUp nextCdata (fun rest => .ok (token, rest)) s rest := by
  unfold nextCdata at h
  split at h
  · next hopens =>
    obtain ⟨tail, rfl⟩ := List.isPrefixOf_iff_prefix.1 hopens
    obtain ⟨used, hne, htail, hread⟩ := usesUp_delimited (s := tail) h fun content hcut =>
      usesUp_breakAt (List.cons_ne_nil _ _) hcut
    obtain rfl : tail = used ++ rest := htail
    exact ⟨_ ++ used, by simp, (List.append_assoc _ used rest).symm, hread⟩
  · cases h

/-- Reading a comment uses up the comment. -/
theorem usesUp_nextComment (h : nextComment s = .ok (token, rest)) :
    UsesUp nextComment (fun rest => .ok (token, rest)) s rest := by
  unfold nextComment at h
  split at h
  · obtain ⟨used, -, rfl, hread⟩ := usesUp_delimited h fun content hcut =>
      usesUp_breakAt (List.cons_ne_nil _ _) hcut
    exact ⟨'-' :: used, List.cons_ne_nil _ _, rfl, hread⟩
  · cases h

/-- A document type has a name behind the word that opens it, so this word is used up as well. -/
theorem exists_used_of_nextDoctype (h : nextDoctype s = .ok (token, rest)) :
    ∃ used, 7 ≤ used.length ∧ s = used ++ rest ∧
      ∀ other, nextDoctype (used ++ other) = .ok (token, other) := by
  unfold nextDoctype at h
  split at h
  · next content after hbreak =>
    split at h
    · cases h
    · next hname =>
      cases h
      obtain ⟨used, -, hs, hother⟩ := usesUp_breakDoctype hbreak
      have hused : used = content ++ ['>'] := by
        have hcontent := append_of_breakDoctype hbreak
        rw [List.reverse_nil, List.nil_append, hs] at hcontent
        exact List.append_cancel_right hcontent
      have hlong : 7 ≤ content.length := by
        rcases Nat.lt_or_ge content.length 7 with hshort | hlong
        · rw [List.drop_eq_nil_of_le (Nat.le_of_lt hshort)] at hname
          exact absurd rfl hname
        · exact hlong
      refine ⟨used, by rw [hused, List.length_append]; omega, hs, fun other => ?_⟩
      rw [nextDoctype, hother]
      exact if_neg hname
  · cases h

/-- What stands behind an exclamation mark is a document type if it opens neither a section nor a
comment. -/
theorem nextDeclaration_cons {c : Char} (hc : c ∉ ['[', '-']) (s : List Char) :
    nextDeclaration (c :: s) =
      if opensDoctype (c :: s) then nextDoctype (c :: s)
      else if c = 'D' ∨ c = 'd' then .error .unclosedDoctype
      else .error .unknownMarkup := by
  rw [nextDeclaration.eq_def]
  split <;> simp_all

/-- Reading what stands behind an exclamation mark uses it up. -/
theorem usesUp_nextDeclaration (h : nextDeclaration s = .ok (token, rest)) :
    UsesUp nextDeclaration (fun rest => .ok (token, rest)) s rest := by
  unfold nextDeclaration at h
  split at h
  · obtain ⟨used, -, rfl, hread⟩ := usesUp_nextCdata h
    exact ⟨'[' :: used, List.cons_ne_nil _ _, rfl, hread⟩
  · obtain ⟨used, -, rfl, hread⟩ := usesUp_nextComment h
    exact ⟨'-' :: used, List.cons_ne_nil _ _, rfl, hread⟩
  · split at h
    · next hopens =>
      obtain ⟨used, hlength, rfl, hread⟩ := exists_used_of_nextDoctype h
      obtain ⟨first, used, rfl⟩ := List.exists_cons_of_length_pos (Nat.zero_lt_of_lt hlength)
      have htake (tail : List Char) : (first :: used ++ tail).take 7 = (first :: used).take 7 :=
        List.take_append_of_le_length hlength
      refine ⟨first :: used, List.cons_ne_nil _ _, rfl, fun other => ?_⟩
      rw [opensDoctype, htake] at hopens
      have hother : opensDoctype (first :: (used ++ other)) = true := by
        rw [opensDoctype, ← List.cons_append, htake, hopens]
      have hfirst : first ∉ ['[', '-'] := by simp_all
      rw [List.cons_append, nextDeclaration_cons hfirst, if_pos hother]
      exact hread other
    · split at h <;> cases h

/-- An instruction goes on to its end unless it is empty. -/
theorem nextInstruction_cons {c : Char} (hc : c ≠ '>') (s : List Char) :
    nextInstruction (c :: s) =
      delimited .instruction .unclosedInstruction (breakAt ['?', '>'] [] (c :: s)) := by
  rw [nextInstruction.eq_def]
  split <;> simp_all

/-- Reading an instruction uses up the instruction. -/
theorem usesUp_nextInstruction (h : nextInstruction s = .ok (token, rest)) :
    UsesUp nextInstruction (fun rest => .ok (token, rest)) s rest := by
  unfold nextInstruction at h
  split at h
  · cases h
  · obtain ⟨used, hne, rfl, hread⟩ := usesUp_delimited h fun content hcut =>
      usesUp_breakAt (List.cons_ne_nil _ _) hcut
    obtain ⟨first, used, rfl⟩ := List.exists_cons_of_ne_nil hne
    refine ⟨first :: used, hne, rfl, fun other => ?_⟩
    have hfirst : first ≠ '>' := by simp_all
    rw [List.cons_append, nextInstruction_cons hfirst]
    exact hread other

/-- A start tag is read behind an opening bracket if no mark says that it is something else. -/
theorem nextMarkup_cons {c : Char} (hc : c ∉ ['!', '?', '/']) (s : List Char) :
    nextMarkup (c :: s) = delimited .startTag .unclosedTag (breakTag none [] (c :: s)) := by
  rw [nextMarkup.eq_def]
  split <;> simp_all

/-- A construct that opens with an angle bracket is read alike, whatever follows it. -/
theorem usesUp_nextMarkup (h : nextMarkup s = .ok (token, rest)) :
    UsesUp nextMarkup (fun rest => .ok (token, rest)) s rest := by
  unfold nextMarkup at h
  split at h
  · obtain ⟨used, -, rfl, hread⟩ := usesUp_nextDeclaration h
    exact ⟨'!' :: used, List.cons_ne_nil _ _, rfl, hread⟩
  · obtain ⟨used, -, rfl, hread⟩ := usesUp_nextInstruction h
    exact ⟨'?' :: used, List.cons_ne_nil _ _, rfl, hread⟩
  · obtain ⟨used, -, rfl, hread⟩ := usesUp_delimited h fun content hcut =>
      usesUp_breakTag hcut
    exact ⟨'/' :: used, List.cons_ne_nil _ _, rfl, hread⟩
  · obtain ⟨used, hne, rfl, hread⟩ := usesUp_delimited h fun content hcut =>
      usesUp_breakTag hcut
    obtain ⟨first, used, rfl⟩ := List.exists_cons_of_ne_nil hne
    refine ⟨first :: used, hne, rfl, fun other => ?_⟩
    have hfirst : first ∉ ['!', '?', '/'] := by simp_all
    rw [List.cons_append, nextMarkup_cons hfirst]
    exact hread other

/-- A token is a text, up to the next construct, or opens with an angle bracket and is read alike,
whatever follows it. -/
theorem nextToken_cases {c : Char} (h : nextToken c s = .ok (token, rest)) :
    (token = .text (c :: s.takeWhile (· ≠ '<')) ∧ rest = s.dropWhile (· ≠ '<') ∧ c ≠ '<') ∨
      c = '<' ∧ UsesUp (nextToken c) (fun rest => .ok (token, rest)) s rest := by
  unfold nextToken at h
  split at h
  · next hc =>
    obtain ⟨used, hne, hs, hread⟩ := usesUp_nextMarkup h
    exact .inr ⟨hc, used, hne, hs, fun other => by rw [nextToken, if_pos hc, hread]⟩
  · next hc =>
    cases h
    exact .inl ⟨rfl, rfl, hc⟩

/-- The characters of a text are none that opens a construct. -/
theorem not_mem_text {c : Char} (hc : c ≠ '<') (s : List Char) :
    '<' ∉ c :: s.takeWhile (· ≠ '<') := by
  rw [List.mem_cons, not_or]
  refine ⟨Ne.symm hc, fun hmem => ?_⟩
  have hgoes := List.all_eq_true.1 List.all_takeWhile _ hmem
  exact absurd rfl (of_decide_eq_true hgoes)

/-- Behind a text no text goes on. -/
theorem endsText_dropWhile (s : List Char) : EndsText (s.dropWhile (· ≠ '<')) := by
  intro c hc
  have hstops := List.head?_dropWhile_not (· ≠ '<') s
  rw [hc] at hstops
  simpa using hstops

end

/-! ## Runs -/

/-- What a reader has come over may be followed by another text, and gives the same events: by any
text, unless the last event is a text, which has to end there. -/
theorem Reads.exists_used {reader goal : Reader} {events : List Event}
    (h : Reads reader events goal) :
    ∃ used, reader.rest = used ++ goal.rest ∧ (used = [] → events = []) ∧
      ∀ other, (EndsText other ∨ ∀ content, events.getLast? ≠ some (.text content)) →
        Reads ⟨used ++ other, reader.names⟩ events ⟨other, goal.names⟩ := by
  induction h with
  | refl reader => exact ⟨[], rfl, fun _ => rfl, fun other _ => .refl _⟩
  | @token c s rest token names outer event events goal hnext hevent _ ih =>
    obtain ⟨used, hrest, hnone, hother⟩ := ih
    dsimp only at hrest hother ⊢
    -- the last of several events is that of the events after the first
    have hlast {other : List Char} (h : EndsText other ∨
        ∀ content, (event.toList ++ events).getLast? ≠ some (.text content)) :
        EndsText other ∨ ∀ content, events.getLast? ≠ some (.text content) := by
      refine h.imp_right fun h content hcontent => h content ?_
      rw [List.getLast?_append, hcontent, Option.some_or]
    rcases nextToken_cases hnext with ⟨rfl, hdrop, hc⟩ | ⟨rfl, first, -, hs, hread⟩
    · cases hevent
      refine ⟨c :: s.takeWhile (· ≠ '<') ++ used, ?_, fun h => (List.cons_ne_nil _ _ h).elim,
        fun other hend => ?_⟩
      · rw [List.append_assoc, ← hrest, hdrop, List.cons_append, List.takeWhile_append_dropWhile]
      · have hbehind : EndsText (used ++ other) := by
          cases used with
          | nil =>
            rcases hend with hend | hend
            · exact hend
            · rw [hnone rfl] at hend
              exact absurd rfl (hend _)
          | cons d used =>
            have hends := endsText_dropWhile s
            rw [← hdrop, hrest] at hends
            exact hends
        rw [List.append_assoc]
        exact (reads_text (List.cons_ne_nil _ _) (not_mem_text hc s) hbehind).trans
          (hother other (hlast hend))
    · refine ⟨'<' :: first ++ used, by rw [hs, hrest, List.append_assoc]; rfl,
        fun h => (List.cons_ne_nil _ _ h).elim, fun other hend => ?_⟩
      rw [List.append_assoc]
      exact .token (hread (used ++ other)) hevent (hother other (hlast hend))

end LocaleLint.Markup
