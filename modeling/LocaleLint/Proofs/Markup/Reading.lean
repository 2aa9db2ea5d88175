import LocaleLint.Markup.Tree
import LocaleLint.Proofs.Except

/-!
# Reading without offsets

The reader of markup carries offsets, which only faults need. Here is what it does to
the characters alone: `Reads` says which events it gives on the way from one place to
another, and which elements are open there, and `treeOf` is the tree of events that
have no places. The bridge is `eventsOf_of_reads`, from the relation to the reader,
and `fault_parseList`, from the document to the tree of its events. What the reader
promises about nesting is `closes_eventsOf`: no end tag comes where nothing is open.
-/

set_option autoImplicit false

namespace LocaleLint.Markup

/-! ## Plain tags and texts -/

namespace Attribute

/-- At the end of a tag all attributes have been read. -/
theorem readAll_nil (seen : List (List Char × Nat)) (found : List Attribute) (start : Nat) :
    readAll seen found start [] = .ok found.reverse := by
  rw [readAll]
  rfl

/-- A tag that is a name alone has no attributes. -/
theorem ofTag_nil (name : List Char) : ofTag ⟨name, []⟩ = .ok [] :=
  readAll_nil ..

end Attribute

namespace Reference

/-- A character that starts no reference stands for itself. -/
theorem replace_bare {total start : Nat} {done s : List Char} {c : Char} (h : c ≠ '&') :
    replace total start done (c :: s) = replace total (start + c.utf8Size) (c :: done) s := by
  rw [replace, if_neg h]

/-- A text without an ampersand stands for itself. -/
theorem unescape_of_not_mem {s : List Char} (h : '&' ∉ s) : unescape s = .ok s := by
  have hreplace (total start : Nat) (done : List Char) :
      replace total start done s = .ok (done.reverse ++ s) := by
    induction s generalizing start done with
    | nil => rw [replace, List.append_nil]
    | cons c s ih =>
      rw [List.mem_cons, not_or] at h
      rw [replace_bare (Ne.symm h.1), ih h.2, List.reverse_cons, List.append_assoc,
        List.singleton_append]
  exact hreplace _ _ []

end Reference

/-! ## From one place to another -/

/-- Where a reader stands: the characters before it, and the names of the elements that are
open, the innermost first. -/
structure Reader where
  rest : List Char
  names : List (List Char)

/-- A reader comes from one place to another and gives events on the way. It stops after
whole tokens only, and a token that is dropped gives no event. -/
inductive Reads : Reader → List Event → Reader → Prop
  | refl (reader : Reader) : Reads reader [] reader
  | token {c : Char} {s rest : List Char} {token : Token} {names outer : List (List Char)}
      {event : Option Event} {events : List Event} {goal : Reader} :
      nextToken c s = .ok (token, rest) → Events.ofToken names token = .ok (event, outer) →
      Reads ⟨rest, outer⟩ events goal → Reads ⟨c :: s, names⟩ (event.toList ++ events) goal

/-- A reader that comes to a second place and from there to a third gives the events of both ways.
-/
theorem Reads.trans {first second third : Reader} {before after : List Event}
    (h : Reads first before second) (h' : Reads second after third) :
    Reads first (before ++ after) third := by
  induction h with
  | refl reader => exact h'
  | token hnext hevent _ ih =>
    rw [List.append_assoc]
    exact .token hnext hevent (ih h')

/-- A token that gives an event. -/
theorem Reads.event {c : Char} {s rest : List Char} {token : Token} {event : Event}
    {names outer : List (List Char)} (hnext : nextToken c s = .ok (token, rest))
    (hevent : Events.ofToken names token = .ok (some event, outer)) :
    Reads ⟨c :: s, names⟩ [event] ⟨rest, outer⟩ :=
  .token hnext hevent (.refl _)

/-- A token that is dropped. -/
theorem Reads.dropped {c : Char} {s rest : List Char} {token : Token}
    {names outer : List (List Char)} (hnext : nextToken c s = .ok (token, rest))
    (hevent : Events.ofToken names token = .ok (none, outer)) :
    Reads ⟨c :: s, names⟩ [] ⟨rest, outer⟩ :=
  .token hnext hevent (.refl _)

/-! ## The reader -/

/-- The events of a text without their places. -/
def eventsOf (s : List Char) : List Event :=
  (Events.ofText s).events.map (·.item)

/-- The tokens with others before them. -/
def Tokens.prepend (earlier : List (Located Token)) (tokens : Tokens) : Tokens :=
  { tokens with tokens := earlier ++ tokens.tokens }

/-- The events with others before them. -/
def Events.prepend (earlier : List (Located Event)) (events : Events) : Events :=
  { events with events := earlier ++ events.events }

/-- The tokens that are found already come before those that are read. -/
theorem readTokens_append (start : Nat) (found earlier : List (Located Token)) (s : List Char) :
    readTokens start (found ++ earlier) s =
      (readTokens start found s).prepend earlier.reverse := by
  fun_induction readTokens start found s with
  | case1 start found => simp [readTokens, Tokens.prepend]
  | case2 start found c s fault h =>
    rw [readTokens]
    split
    · next fault' h' =>
      obtain rfl : fault = fault' := by simpa [h] using h'
      simp [Tokens.prepend]
    · next h' => simp [h] at h'
  | case3 start found c s token rest h stop ih =>
    rw [readTokens]
    split
    · next h' => simp [h] at h'
    · next token' rest' h' =>
      obtain ⟨rfl, rfl⟩ : token = token' ∧ rest = rest' := by simpa [h] using h'
      exact ih

/-- A token that can be read comes before those of the rest. -/
theorem readTokens_token {start : Nat} {c : Char} {s rest : List Char} {token : Token}
    (h : nextToken c s = .ok (token, rest)) :
    readTokens start [] (c :: s) =
      (readTokens (start + token.byteLength) [] rest).prepend
        [⟨token, start, start + token.byteLength⟩] := by
  rw [readTokens]
  split
  · next h' => simp [h] at h'
  · next token' rest' h' =>
    obtain ⟨rfl, rfl⟩ : token = token' ∧ rest = rest' := by simpa [h] using h'
    exact readTokens_append _ [] _ _

/-- Nothing is read of a text that starts with no token. -/
theorem readTokens_fault {start : Nat} {c : Char} {s : List Char} {fault : TokenFault}
    (h : nextToken c s = .error fault) :
    readTokens start [] (c :: s) = ⟨[], some (fault, fault.offset start), start⟩ := by
  rw [readTokens]
  split
  · next h' =>
    rw [h] at h'
    cases h'
    rfl
  · next h' => simp [h] at h'

/-- What is told after the last token does not depend on the tokens. -/
theorem Events.read_prepend (tokens : Tokens) (earlier list : List (Located Token))
    (names : List (List Char)) (found : List (Located Event)) :
    Events.read (tokens.prepend earlier) names found list =
      Events.read tokens names found list := by
  induction list generalizing names found with
  | nil => rfl
  | cons token list ih =>
    simp only [Events.read]
    split <;> simp only [ih]

/-- The events that are found already come before those that are read. -/
theorem Events.read_append (tokens : Tokens) (list : List (Located Token))
    (names : List (List Char)) (found earlier : List (Located Event)) :
    Events.read tokens names (found ++ earlier) list =
      (Events.read tokens names found list).prepend earlier.reverse := by
  induction list generalizing names found with
  | nil => simp [Events.read, Events.prepend]
  | cons token list ih =>
    simp only [Events.read]
    split
    · simp [Events.prepend]
    · exact ih _ _
    · exact ih _ (_ :: found)

/-- What a reader gives that stands at the byte offset `start`. -/
def readFrom (start : Nat) (reader : Reader) : Events :=
  let tokens := readTokens start [] reader.rest
  Events.read tokens reader.names [] tokens.tokens

/-- The events of a text are what a reader gives from its start. -/
theorem ofText_eq_readFrom (s : List Char) : Events.ofText s = readFrom 0 ⟨s, []⟩ := rfl

/-- A token that can be read comes first, with the event it gives. -/
theorem readFrom_token {start : Nat} {c : Char} {s rest : List Char} {token : Token}
    {names outer : List (List Char)} {event : Option Event}
    (hnext : nextToken c s = .ok (token, rest))
    (hevent : Events.ofToken names token = .ok (event, outer)) :
    readFrom start ⟨c :: s, names⟩ =
      (readFrom (start + token.byteLength) ⟨rest, outer⟩).prepend
        (event.toList.map fun event => ⟨event, start, start + token.byteLength⟩) := by
  simp only [readFrom, readTokens_token hnext, Events.read_prepend]
  cases event with
  | none => simp [Tokens.prepend, Events.read, Events.prepend, hevent]
  | some event =>
    simp only [Tokens.prepend, List.singleton_append, Events.read, hevent, Option.toList_some,
      List.map_cons, List.map_nil]
    exact Events.read_append _ _ _ [] _

/-- The events on the way to another place come first. -/
theorem readFrom_of_reads {reader goal : Reader} {events : List Event}
    (h : Reads reader events goal) (start : Nat) :
    ∃ stop located, located.map Located.item = events ∧
      readFrom start reader = (readFrom stop goal).prepend located := by
  induction h generalizing start with
  | refl reader => exact ⟨start, [], rfl, rfl⟩
  | @token c s rest token names outer event events goal hnext hevent _ ih =>
    obtain ⟨stop, located, hlocated, hread⟩ := ih (start + token.byteLength)
    refine ⟨stop, (event.toList.map fun event => ⟨event, start, start + token.byteLength⟩) ++
      located, ?_, ?_⟩
    · rw [List.map_append, hlocated, List.map_map]
      congr 1
      exact List.map_id' _
    · rw [readFrom_token hnext hevent, hread]
      simp [Events.prepend]

/-- A way to the end of the text gives its events, and the reader meets no fault. -/
theorem eventsOf_of_reads {s : List Char} {names : List (List Char)} {events : List Event}
    (h : Reads ⟨s, []⟩ events ⟨[], names⟩) :
    eventsOf s = events ∧ (Events.ofText s).fault = none := by
  obtain ⟨stop, located, hlocated, hread⟩ := readFrom_of_reads h 0
  have hend : readFrom stop ⟨[], names⟩ = ⟨[], none, stop⟩ := by
    simp [readFrom, readTokens, Events.read]
  rw [eventsOf, ofText_eq_readFrom, hread, hend]
  simp [Events.prepend, hlocated]

/-- The events on the way to any place are the first of the text. -/
theorem prefix_eventsOf_of_reads {s : List Char} {goal : Reader} {events : List Event}
    (h : Reads ⟨s, []⟩ events goal) : events <+: eventsOf s := by
  obtain ⟨stop, located, hlocated, hread⟩ := readFrom_of_reads h 0
  rw [eventsOf, ofText_eq_readFrom, hread]
  simp [Events.prepend, hlocated]

/-- The events of a text are those on the way to where its reader stops, which is the end when
there is no fault. -/
theorem exists_reads (start : Nat) (reader : Reader) :
    ∃ goal, Reads reader ((readFrom start reader).events.map (·.item)) goal ∧
      ((readFrom start reader).fault = none → goal.rest = []) := by
  obtain ⟨s, names⟩ := reader
  cases s with
  | nil =>
    refine ⟨⟨[], names⟩, ?_, fun _ => rfl⟩
    simpa [readFrom, readTokens, Events.read] using .refl _
  | cons c s =>
    cases hnext : nextToken c s with
    | error fault =>
      refine ⟨⟨c :: s, names⟩, ?_, fun hnone => ?_⟩
      · simpa [readFrom, readTokens_fault hnext, Events.read] using .refl _
      · simp [readFrom, readTokens_fault hnext, Events.read] at hnone
    | ok next =>
      obtain ⟨token, rest⟩ := next
      cases hevent : Events.ofToken names token with
      | error fault =>
        refine ⟨⟨c :: s, names⟩, ?_, fun hnone => ?_⟩
        · simpa [readFrom, readTokens_token hnext, Tokens.prepend, Events.read, hevent]
            using .refl _
        · simp [readFrom, readTokens_token hnext, Tokens.prepend, Events.read, hevent] at hnone
      | ok result =>
        obtain ⟨event, outer⟩ := result
        have hlt := length_lt_of_nextToken hnext
        obtain ⟨goal, hgoal, hend⟩ := exists_reads (start + token.byteLength) ⟨rest, outer⟩
        refine ⟨goal, ?_, ?_⟩
        · rw [readFrom_token hnext hevent]
          have h := Reads.token hnext hevent hgoal
          simpa [Events.prepend, Function.comp_def] using h
        · rw [readFrom_token hnext hevent]
          exact hend
termination_by reader.rest.length
decreasing_by exact hlt

/-! ## Open elements -/

/-- The names of the elements that are open after events, the innermost first, when those of
`names` are open before them. -/
def openAfter (names : List (List Char)) : List Event → List (List Char)
  | [] => names
  | .start tag :: rest => openAfter (tag.name :: names) rest
  | .stop :: rest => openAfter names.tail rest
  | .text _ :: rest => openAfter names rest
  | .cdata _ :: rest => openAfter names rest
  | .empty _ :: rest => openAfter names rest

/-- Events one after the other leave open what the last ones do. -/
theorem openAfter_append (names : List (List Char)) (first second : List Event) :
    openAfter names (first ++ second) = openAfter (openAfter names first) second := by
  induction first generalizing names with
  | nil => rfl
  | cons event first ih => cases event <;> exact ih _

/-- Whether every end tag comes where an element is open. -/
def Closes (names : List (List Char)) (events : List Event) : Prop :=
  ∀ before after, events = before ++ .stop :: after → openAfter names before ≠ []

/-- What one token does to the open elements, its event does too, and an end tag needs one. -/
theorem openAfter_of_ofToken {names outer : List (List Char)} {token : Token}
    {event : Option Event} (h : Events.ofToken names token = .ok (event, outer)) :
    outer = openAfter names event.toList ∧ (event = some .stop → names ≠ []) := by
  cases token with
  | text content => cases h; exact ⟨rfl, by simp⟩
  | cdata content => cases h; exact ⟨rfl, by simp⟩
  | comment content => cases h; exact ⟨rfl, by simp⟩
  | instruction content => cases h; exact ⟨rfl, by simp⟩
  | doctype content => cases h; exact ⟨rfl, by simp⟩
  | startTag content =>
    simp only [Events.ofToken] at h
    split at h <;> cases h <;> exact ⟨rfl, by simp⟩
  | endTag content =>
    simp only [Events.ofToken] at h
    split at h
    · cases h
    · split at h
      · cases h
        exact ⟨rfl, by simp⟩
      · cases h

/-- The elements that a reader has open are those that its events leave open. -/
theorem openAfter_of_reads {reader goal : Reader} {events : List Event}
    (h : Reads reader events goal) : goal.names = openAfter reader.names events := by
  induction h with
  | refl reader => rfl
  | token hnext hevent _ ih => rw [ih, openAfter_append, (openAfter_of_ofToken hevent).1]

/-- A reader gives the event of an end tag only where an element is open. -/
theorem closes_of_reads {reader goal : Reader} {events : List Event}
    (h : Reads reader events goal) : Closes reader.names events := by
  induction h with
  | refl reader =>
    intro before after hsplit
    cases before <;> cases hsplit
  | @token c s rest token names outer event events goal hnext hevent _ ih =>
    intro before after hsplit
    obtain ⟨houter, hstop⟩ := openAfter_of_ofToken hevent
    cases event with
    | none =>
      rw [houter] at ih
      exact ih before after hsplit
    | some event =>
      cases before with
      | nil =>
        obtain ⟨rfl, -⟩ := List.cons.inj hsplit
        exact hstop rfl
      | cons first before =>
        obtain ⟨rfl, hrest⟩ := List.cons.inj hsplit
        have h := ih before after hrest
        rwa [houter, ← openAfter_append] at h

/-- In the events of a text every end tag closes an element. -/
theorem closes_eventsOf (s : List Char) : Closes [] (eventsOf s) := by
  obtain ⟨goal, h, -⟩ := exists_reads 0 ⟨s, []⟩
  exact closes_of_reads h

/-! ## The tree of events without places -/

/-- Adds events in turn. -/
def Building.steps (building : Building) : List Event → Except DocumentFault Building
  | [] => .ok building
  | event :: rest => (building.step event).bind fun next => next.steps rest

/-- The tree of events, or the first fault. -/
def treeOf (events : List Event) : Except DocumentFault Node :=
  (Building.steps {} events).bind Building.finish

namespace Building

/-- Events are added in turn, and the first that cannot be added ends it. -/
theorem steps_append (building : Building) (first second : List Event) :
    building.steps (first ++ second) = (building.steps first).bind (·.steps second) := by
  induction first generalizing building with
  | nil => rfl
  | cons event first ih =>
    simp only [List.cons_append, steps]
    cases building.step event with
    | error fault => rfl
    | ok next => exact ih next

/-- A run over events that have places, when the reader meets no fault. -/
theorem run_eq_steps (events : Events) (hfault : events.fault = none) (building : Building)
    (list : List (Located Event)) :
    (run events building list).mapError Prod.fst =
      (building.steps (list.map Located.item)).bind finish := by
  induction list generalizing building with
  | nil =>
    simp only [run, hfault, List.map_nil, steps]
    show _ = building.finish
    cases building.finish <;> rfl
  | cons event list ih =>
    simp only [run, List.map_cons, steps]
    cases building.step event.item with
    | error fault => rfl
    | ok next => exact ih next

/-- A run that gives a tree met no fault of the reader. -/
theorem fault_eq_none_of_run {events : Events} {building : Building}
    {list : List (Located Event)} {node : Node} (h : run events building list = .ok node) :
    events.fault = none := by
  induction list generalizing building with
  | nil =>
    simp only [run] at h
    split at h
    · cases h
    · assumption
  | cons event list ih =>
    simp only [run] at h
    split at h
    · exact ih h
    · cases h

end Building

/-- When the reader meets no fault, the tree of a text is that of its events. -/
theorem fault_parseList {text : List Char}
    (hfault : (Events.ofText (dropMark text)).fault = none) :
    (parseList text).mapError ParseError.fault = treeOf (eventsOf (dropMark text)) := by
  have hrun := Building.run_eq_steps _ hfault {} (Events.ofText (dropMark text)).events
  rw [parseList, treeOfEvents, treeOf, eventsOf, ← hrun]
  cases Building.run (Events.ofText (dropMark text)) {} (Events.ofText (dropMark text)).events with
  | error place => rfl
  | ok node => rfl

/-- A text has a tree exactly when the reader meets no fault and its events have that tree. -/
theorem parseList_eq_ok_iff {text : List Char} {node : Node} :
    parseList text = .ok node ↔
      (Events.ofText (dropMark text)).fault = none ∧ treeOf (eventsOf (dropMark text)) = .ok node := by
  constructor
  · intro h
    have hrun : Building.run (Events.ofText (dropMark text)) {}
        (Events.ofText (dropMark text)).events = .ok node := by
      simp only [parseList, treeOfEvents] at h
      cases hrun : Building.run (Events.ofText (dropMark text)) {}
        (Events.ofText (dropMark text)).events with
      | error place =>
        rw [hrun] at h
        cases h
      | ok found =>
        rw [hrun] at h
        cases h
        rfl
    have hfault := Building.fault_eq_none_of_run hrun
    refine ⟨hfault, ?_⟩
    rw [← fault_parseList hfault, h]
    rfl
  · rintro ⟨hfault, htree⟩
    have h := fault_parseList hfault
    rw [htree] at h
    cases hp : parseList text with
    | error error =>
      rw [hp] at h
      cases h
    | ok found =>
      rw [hp] at h
      cases h
      rfl

/-- When the reader meets no fault, a text is at fault exactly when its events are. -/
theorem parseList_eq_error_iff {text : List Char} {fault : DocumentFault}
    (hfault : (Events.ofText (dropMark text)).fault = none) :
    (∃ position, parseList text = .error ⟨fault, position⟩) ↔
      treeOf (eventsOf (dropMark text)) = .error fault := by
  rw [← fault_parseList hfault]
  cases parseList text with
  | error error =>
    obtain ⟨found, position⟩ := error
    show _ ↔ Except.error found = .error fault
    constructor
    · rintro ⟨_, h⟩
      cases h
      rfl
    · intro h
      cases h
      exact ⟨position, rfl⟩
  | ok node =>
    show _ ↔ Except.ok node = .error fault
    constructor
    · rintro ⟨_, h⟩
      cases h
    · intro h
      cases h

end LocaleLint.Markup
