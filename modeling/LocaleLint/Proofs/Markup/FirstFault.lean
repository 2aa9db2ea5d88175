import LocaleLint.Proofs.Markup.Acceptance
import LocaleLint.Proofs.Markup.Locality
import LocaleLint.Proofs.Markup.Position

/-!
# The first faulty tag

A tag at fault ends the reading of a document: an end tag that closes nothing or another element, a
second root, or attributes that cannot be read. `StopsAt` follows a reader and the tree that is
built up to the construct at which they stop, and counts the bytes on the way; by
`parseList_eq_error_iff_stopsAt` it tells when a document has such a fault, and where. What comes
behind the tag is not looked at, so a longer text stops at the same place (`StopsAt.append`). The
main result is `parse_append_of_faulty_tag`: later text does not hide, replace or move the fault.
-/

set_option autoImplicit false

namespace LocaleLint.Markup

open Text (byteLength)

/-- Whether a tag is at fault. -/
def DocumentFault.ofTag : DocumentFault → Bool
  | .read (.unopened _) => true
  | .read (.mismatched _ _) => true
  | .secondRoot _ => true
  | .inAttribute _ => true
  | _ => false

/-- A reader, and the tree built so far, stop with a fault before the end of the text. The fault is
reported a number of bytes further on: at the start of an end tag that closes the wrong element or
none, and at the end of any other construct. -/
inductive StopsAt : Reader → Building → DocumentFault → Nat → Prop
  | endTag {c : Char} {s rest : List Char} {token : Token} {names : List (List Char)}
      {building : Building} {fault : ReadFault} :
      nextToken c s = .ok (token, rest) → Events.ofToken names token = .error fault →
      StopsAt ⟨c :: s, names⟩ building (.read fault) 0
  | event {c : Char} {s rest : List Char} {token : Token} {names outer : List (List Char)}
      {building : Building} {event : Event} {fault : DocumentFault} :
      nextToken c s = .ok (token, rest) → Events.ofToken names token = .ok (some event, outer) →
      building.step event = .error fault → StopsAt ⟨c :: s, names⟩ building fault token.byteLength
  | later {c : Char} {s rest : List Char} {token : Token} {names outer : List (List Char)}
      {building next : Building} {event : Option Event} {fault : DocumentFault} {offset : Nat} :
      nextToken c s = .ok (token, rest) → Events.ofToken names token = .ok (event, outer) →
      building.steps event.toList = .ok next → StopsAt ⟨rest, outer⟩ next fault offset →
      StopsAt ⟨c :: s, names⟩ building fault (token.byteLength + offset)

/-! ## Places -/

/-- A token takes up its own bytes. -/
theorem byteLength_of_nextToken {c : Char} {s rest : List Char} {token : Token}
    (h : nextToken c s = .ok (token, rest)) :
    byteLength (c :: s) = token.byteLength + byteLength rest := by
  rw [← (heads_of_nextToken h).1, Text.byteLength_append]
  rfl

/-- A fault before the end of a text is reported inside of it. -/
theorem StopsAt.offset_le {reader : Reader} {building : Building} {fault : DocumentFault}
    {offset : Nat} (h : StopsAt reader building fault offset) :
    offset ≤ byteLength reader.rest := by
  induction h with
  | endTag _ _ => exact Nat.zero_le _
  | event hnext _ _ =>
    rw [byteLength_of_nextToken hnext]
    exact Nat.le_add_right _ _
  | later hnext _ _ _ ih =>
    rw [byteLength_of_nextToken hnext]
    exact Nat.add_le_add_left ih _

/-! ## Where a document stops -/

section

variable {start : Nat} {c : Char} {s rest : List Char} {token : Token}
  {names outer : List (List Char)}

/-- Events that are prepended to a run are taken before the others. -/
theorem Building.run_prepend (events : Events) (earlier list : List (Located Event))
    (building : Building) : run (events.prepend earlier) building list = run events building list := by
  induction list generalizing building with
  | nil => rfl
  | cons event list ih =>
    simp only [run]
    cases building.step event.item with
    | error fault => rfl
    | ok next => exact ih next

/-- The tree of what a reader gives that stands at the byte offset `start`. -/
def runFrom (start : Nat) (reader : Reader) (building : Building) :
    Except (DocumentFault × Nat) Node :=
  Building.run (readFrom start reader) building (readFrom start reader).events

/-- An event that is added is behind the reader. -/
theorem runFrom_later {building next : Building} {event : Option Event}
    (hnext : nextToken c s = .ok (token, rest))
    (hevent : Events.ofToken names token = .ok (event, outer))
    (hsteps : building.steps event.toList = .ok next) :
    runFrom start ⟨c :: s, names⟩ building =
      runFrom (start + token.byteLength) ⟨rest, outer⟩ next := by
  rw [runFrom, readFrom_token hnext hevent, Building.run_prepend, runFrom]
  cases event with
  | none =>
    cases hsteps
    rfl
  | some event =>
    obtain ⟨added, hstep, hadded⟩ := exists_of_bind_ok hsteps
    cases hadded
    simp only [Events.prepend, Option.toList_some, List.map_cons, List.map_nil,
      List.singleton_append, Building.run, hstep]

/-- A run ends behind a token whose event cannot be added. -/
theorem runFrom_event {building : Building} {event : Event} {fault : DocumentFault}
    (hnext : nextToken c s = .ok (token, rest))
    (hevent : Events.ofToken names token = .ok (some event, outer))
    (hstep : building.step event = .error fault) :
    runFrom start ⟨c :: s, names⟩ building = .error (fault, start + token.byteLength) := by
  rw [runFrom, readFrom_token hnext hevent, Building.run_prepend]
  simp only [Events.prepend, Option.toList_some, List.map_cons, List.map_nil,
    List.singleton_append, Building.run, hstep]

/-- A run ends at a token of which no event can be made. -/
theorem runFrom_endTag {building : Building} {fault : ReadFault}
    (hnext : nextToken c s = .ok (token, rest))
    (hevent : Events.ofToken names token = .error fault) :
    runFrom start ⟨c :: s, names⟩ building = .error (.read fault, start) := by
  simp [runFrom, readFrom, readTokens_token hnext, Tokens.prepend, Events.read, hevent,
    Building.run]

/-- Where a reader stops, the run fails. -/
theorem runFrom_of_stopsAt {reader : Reader} {building : Building} {fault : DocumentFault}
    {offset : Nat} (h : StopsAt reader building fault offset) (start : Nat) :
    runFrom start reader building = .error (fault, start + offset) := by
  induction h generalizing start with
  | endTag hnext hevent => exact runFrom_endTag hnext hevent
  | event hnext hevent hstep => exact runFrom_event hnext hevent hstep
  | later hnext hevent hsteps _ ih => rw [runFrom_later hnext hevent hsteps, ih, Nat.add_assoc]

/-- What a run comes to that starts at the byte offset `start`: what has been built, where the text
ends; a fault of the first construct, with the offset at which it is reported; or what a run comes
to behind this construct. -/
inductive Runs : Nat → Reader → Building → Except (DocumentFault × Nat) Node → Prop
  | finished {start : Nat} {names : List (List Char)} {building : Building} :
      Runs start ⟨[], names⟩ building (building.finish.mapError fun fault => (fault, start))
  | token {start : Nat} {c : Char} {s : List Char} {names : List (List Char)}
      {building : Building} {fault : TokenFault} :
      nextToken c s = .error fault →
      Runs start ⟨c :: s, names⟩ building (.error (.read (.token fault), fault.offset start))
  | endTag {start : Nat} {c : Char} {s rest : List Char} {token : Token}
      {names : List (List Char)} {building : Building} {fault : ReadFault} :
      nextToken c s = .ok (token, rest) → Events.ofToken names token = .error fault →
      Runs start ⟨c :: s, names⟩ building (.error (.read fault, start))
  | event {start : Nat} {c : Char} {s rest : List Char} {token : Token}
      {names outer : List (List Char)} {building : Building} {event : Event}
      {fault : DocumentFault} :
      nextToken c s = .ok (token, rest) → Events.ofToken names token = .ok (some event, outer) →
      building.step event = .error fault →
      Runs start ⟨c :: s, names⟩ building (.error (fault, start + token.byteLength))
  | later {start : Nat} {c : Char} {s rest : List Char} {token : Token}
      {names outer : List (List Char)} {building next : Building} {event : Option Event}
      {result : Except (DocumentFault × Nat) Node} :
      nextToken c s = .ok (token, rest) → Events.ofToken names token = .ok (event, outer) →
      building.steps event.toList = .ok next →
      Runs (start + token.byteLength) ⟨rest, outer⟩ next result →
      Runs start ⟨c :: s, names⟩ building result

/-- Where adding at most one event fails, there was one and it could not be added. -/
theorem exists_step_of_steps_error {building : Building} {event : Option Event}
    {fault : DocumentFault} (h : building.steps event.toList = .error fault) :
    ∃ added, event = some added ∧ building.step added = .error fault := by
  cases event with
  | none => cases h
  | some event =>
    refine ⟨event, rfl, ?_⟩
    cases hstep : building.step event with
    | error other =>
      rw [Option.toList_some, Building.steps, hstep] at h
      cases h
      rfl
    | ok next =>
      rw [Option.toList_some, Building.steps, hstep] at h
      cases h

/-- A run comes to what the relation of runs says. -/
theorem runs_runFrom (start : Nat) (reader : Reader) (building : Building) :
    Runs start reader building (runFrom start reader building) := by
  obtain ⟨s, names⟩ := reader
  cases s with
  | nil =>
    have hrun : runFrom start ⟨[], names⟩ building =
        building.finish.mapError (fun fault => (fault, start)) := by
      simp [runFrom, readFrom, readTokens, Events.read, Building.run]
    rw [hrun]
    exact .finished
  | cons c s =>
    cases hnext : nextToken c s with
    | error fault =>
      have hrun : runFrom start ⟨c :: s, names⟩ building =
          .error (.read (.token fault), fault.offset start) := by
        simp [runFrom, readFrom, readTokens_fault hnext, Events.read, Building.run]
      rw [hrun]
      exact .token hnext
    | ok next =>
      obtain ⟨token, rest⟩ := next
      have hlt := length_lt_of_nextToken hnext
      cases hevent : Events.ofToken names token with
      | error fault =>
        rw [runFrom_endTag hnext hevent]
        exact .endTag hnext hevent
      | ok result =>
        obtain ⟨event, outer⟩ := result
        cases hsteps : building.steps event.toList with
        | ok next =>
          rw [runFrom_later hnext hevent hsteps]
          exact .later hnext hevent hsteps (runs_runFrom _ ⟨rest, outer⟩ next)
        | error fault =>
          obtain ⟨event, rfl, hstep⟩ := exists_step_of_steps_error hsteps
          rw [runFrom_event hnext hevent hstep]
          exact .event hnext hevent hstep
termination_by reader.rest.length
decreasing_by exact hlt

/-- A run that fails for a tag does so where the reader stops. -/
theorem exists_stopsAt_of_runs {start : Nat} {reader : Reader} {building : Building}
    {fault : DocumentFault} {place : Nat} (h : Runs start reader building (.error (fault, place)))
    (htag : fault.ofTag = true) :
    ∃ offset, StopsAt reader building fault offset ∧ place = start + offset := by
  generalize hresult : Except.error (fault, place) = result at h
  induction h with
  | @finished start names building =>
    unfold Building.finish at hresult
    split at hresult <;> cases hresult <;> cases htag
  | token _ =>
    cases hresult
    cases htag
  | endTag hnext hevent =>
    cases hresult
    exact ⟨0, .endTag hnext hevent, rfl⟩
  | event hnext hevent hstep =>
    cases hresult
    exact ⟨_, .event hnext hevent hstep, rfl⟩
  | later hnext hevent hsteps _ ih =>
    obtain ⟨offset, hstops, hplace⟩ := ih hresult
    exact ⟨_, .later hnext hevent hsteps hstops, by rw [hplace, Nat.add_assoc]⟩

/-- A reader on its way stops where it stops from any place it comes to. -/
theorem StopsAt.of_reads {reader goal : Reader} {before : List Event} {building next : Building}
    {fault : DocumentFault} {offset : Nat} (hreads : Reads reader before goal)
    (hsteps : building.steps before = .ok next) (h : StopsAt goal next fault offset) :
    ∃ place, StopsAt reader building fault place ∧
      place + byteLength goal.rest = byteLength reader.rest + offset := by
  induction hreads generalizing building with
  | refl reader =>
    cases hsteps
    exact ⟨offset, h, Nat.add_comm _ _⟩
  | @token c s rest token names outer event events goal hnext hevent _ ih =>
    rw [Building.steps_append] at hsteps
    obtain ⟨middle, hfirst, hsteps⟩ := exists_of_bind_ok hsteps
    obtain ⟨place, hstops, hplace⟩ := ih hsteps h
    refine ⟨_, .later hnext hevent hfirst hstops, ?_⟩
    rw [byteLength_of_nextToken hnext, Nat.add_assoc, hplace, Nat.add_assoc]

/-- A text is parsed by a run from its start, without a mark, and the place of a fault is looked up
in the whole text. -/
theorem parseList_eq_runFrom (text : List Char) :
    parseList text = (runFrom 0 ⟨dropMark text, []⟩ {}).mapError fun place =>
      ⟨place.1, Position.ofOffset text place.2⟩ :=
  rfl

/-- A document fails for a tag exactly where the reader stops at it. -/
theorem parseList_eq_error_iff_stopsAt {text : List Char} {error : ParseError}
    (htag : error.fault.ofTag = true) :
    parseList text = .error error ↔
      ∃ offset, StopsAt ⟨dropMark text, []⟩ {} error.fault offset ∧
        error.position = Position.ofOffset text offset := by
  rw [parseList_eq_runFrom]
  constructor
  · intro h
    cases hfails : runFrom 0 ⟨dropMark text, []⟩ {} with
    | ok node =>
      rw [hfails] at h
      cases h
    | error place =>
      obtain ⟨fault, offset⟩ := place
      rw [hfails] at h
      cases h
      obtain ⟨found, hstops, hoffset⟩ :=
        exists_stopsAt_of_runs (hfails ▸ runs_runFrom 0 _ {}) htag
      rw [Nat.zero_add] at hoffset
      exact ⟨found, hstops, by rw [hoffset]⟩
  · rintro ⟨offset, hstops, hposition⟩
    rw [runFrom_of_stopsAt hstops, Nat.zero_add]
    obtain ⟨fault, position⟩ := error
    exact congrArg (fun position => Except.error (ParseError.mk fault position)) hposition.symm

end

/-! ## Longer texts -/

/-- A token is read alike in a longer text, unless it is a text at the end. -/
theorem nextToken_append {c : Char} {s rest : List Char} {token : Token}
    (h : nextToken c s = .ok (token, rest))
    (hend : (∀ content, token ≠ .text content) ∨ rest ≠ []) (more : List Char) :
    nextToken c (s ++ more) = .ok (token, rest ++ more) := by
  rcases nextToken_cases h with ⟨rfl, rfl, hc⟩ | ⟨-, used, -, rfl, hread⟩
  · have hrest : s.dropWhile (· ≠ '<') ≠ [] := hend.resolve_left fun h => h _ rfl
    have htake : (s ++ more).takeWhile (· ≠ '<') = s.takeWhile (· ≠ '<') := by
      rw [List.takeWhile_append, if_neg]
      intro hlength
      refine hrest (List.length_eq_zero_iff.1 ?_)
      have hboth := congrArg List.length
        (List.takeWhile_append_dropWhile (p := fun c => decide (c ≠ '<')) (l := s))
      rw [List.length_append] at hboth
      omega
    have hdrop : (s ++ more).dropWhile (· ≠ '<') = s.dropWhile (· ≠ '<') ++ more := by
      rw [List.dropWhile_append, if_neg (by simpa using hrest)]
    rw [nextToken, if_neg hc, htake, hdrop]
  · rw [List.append_assoc]
    exact hread (rest ++ more)

/-- The faults of texts and of character data are none of tags. -/
theorem opens_of_step {building : Building} {event : Event} {fault : DocumentFault}
    (hstep : building.step event = .error fault) (htag : fault.ofTag = true) :
    event.opens = true := by
  cases event with
  | text content =>
    simp only [Building.step] at hstep
    split at hstep
    · split at hstep <;> cases hstep
      cases htag
    · split at hstep <;> cases hstep
      cases htag
  | cdata content =>
    simp only [Building.step] at hstep
    split at hstep <;> cases hstep
    cases htag
  | start tag => rfl
  | empty tag => rfl
  | stop =>
    simp only [Building.step] at hstep
    split at hstep <;> cases hstep

/-- A reader that stops has something left to read. -/
theorem StopsAt.rest_ne_nil {reader : Reader} {building : Building} {fault : DocumentFault}
    {offset : Nat} (h : StopsAt reader building fault offset) : reader.rest ≠ [] := by
  cases h <;> exact List.cons_ne_nil _ _

/-- In a longer text the reader stops at the same tag. -/
theorem StopsAt.append {reader : Reader} {building : Building} {fault : DocumentFault}
    {offset : Nat} (h : StopsAt reader building fault offset) (htag : fault.ofTag = true)
    (more : List Char) : StopsAt ⟨reader.rest ++ more, reader.names⟩ building fault offset := by
  induction h with
  | @endTag c s rest token names building fault hnext hevent =>
    have htoken (content : List Char) : token ≠ .text content := by
      rintro rfl
      cases hevent
    exact .endTag (nextToken_append hnext (.inl htoken) more) hevent
  | @event c s rest token names outer building event fault hnext hevent hstep =>
    have htoken (content : List Char) : token ≠ .text content := by
      rintro rfl
      cases hevent
      cases opens_of_step hstep htag
    exact .event (nextToken_append hnext (.inl htoken) more) hevent hstep
  | later hnext hevent hsteps hstops ih =>
    exact .later (nextToken_append hnext (.inr hstops.rest_ne_nil) more) hevent hsteps (ih htag)

/-- A text without a mark in front is read as it is. -/
theorem dropMark_eq_self {s : List Char} (h : s.head? ≠ some Text.byteOrderMark) :
    dropMark s = s := by
  cases s with
  | nil => rfl
  | cons c s => exact if_neg fun hc => h (congrArg some hc)

/-- A mark is dropped from what stands first, whatever is appended. -/
theorem dropMark_append {s : List Char} (h : s ≠ []) (more : List Char) :
    dropMark (s ++ more) = dropMark s ++ more := by
  cases s with
  | nil => exact absurd rfl h
  | cons c s =>
    simp only [List.cons_append, dropMark]
    split <;> rfl

/-- Dropping a mark never makes a text longer. -/
theorem byteLength_dropMark_le (s : List Char) : byteLength (dropMark s) ≤ byteLength s := by
  cases s with
  | nil => exact Nat.le_refl _
  | cons c s =>
    simp only [dropMark]
    split
    · exact Nat.le_add_left _ _
    · exact Nat.le_refl _

/-- The first faulty tag decides on the fault of a document. When a text fails for an end tag that
closes nothing or another element, for a second root, or for attributes that are malformed,
repeated or hold a reference without meaning, then every longer text fails with the same fault at
the same place, and so in the same words. -/
theorem parse_append_of_faulty_tag {text : String} {error : ParseError}
    (h : parse text = .error error) (htag : error.fault.ofTag = true) (more : String) :
    parse (text ++ more) = .error error := by
  obtain ⟨offset, hstops, hposition⟩ := (parseList_eq_error_iff_stopsAt htag).1 h
  have hsome : text.toList ≠ [] := by
    intro hnone
    rw [hnone] at hstops
    exact hstops.rest_ne_nil rfl
  have hlonger := hstops.append htag more.toList
  rw [← dropMark_append hsome] at hlonger
  have hinside : offset ≤ byteLength text.toList :=
    Nat.le_trans hstops.offset_le (byteLength_dropMark_le text.toList)
  rw [parse, String.toList_append, parseList_eq_error_iff_stopsAt htag]
  exact ⟨offset, hlonger, by rw [hposition, Position.ofOffset_append hinside]⟩

/-- An attribute that is given twice, in the second line of a text with a byte order mark, and what
would complete the document but for a second root. -/
theorem parse_append_of_repeated_attribute :
    let text := "\ufeff<a>&amp;\n<b x='1' y='>' x='2'>"
    let error : ParseError := ⟨.inAttribute (.duplicate 14 2), ⟨2, 19⟩⟩
    parse text = .error error ∧ error.fault.ofTag = true ∧
      parse (text ++ "'></b></a><c/>") = .error error := by
  intro text error
  have hparse : parse text = .error error := by decide +kernel
  exact ⟨hparse, rfl, parse_append_of_faulty_tag hparse rfl _⟩

end LocaleLint.Markup
