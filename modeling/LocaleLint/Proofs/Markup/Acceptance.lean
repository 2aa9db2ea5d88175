import LocaleLint.Proofs.Markup.Content

/-!
# Which documents are accepted

A document whose tags and texts can be read is accepted exactly when its events are blank
text, one complete element and blank text. Otherwise the first event that offends decides
the fault, and without one the end of the document does. The main result
`parse_decided_by_first_offence` says this of every text on which the reader meets no
fault, and that the open frames are at every step those of the reader's open elements.

The argument follows the run: by `Grown` the frames are named as the reader's elements, so
whether an event offends can be told from the events before it (`step_of_offence`,
`step_of_inoffensive`), and the run stops at the first that does (`steps_of_first_offence`).
-/

set_option autoImplicit false

namespace LocaleLint.Markup

/-! ## Offending events -/

/-- Whether an event is the tag of an element. -/
def Event.opens : Event → Bool
  | .start _ => true
  | .empty _ => true
  | _ => false

/-- What an event is at fault for after the events `before`. Outside the root, character data
and text that is not blank offend. So does a tag there once an element has been seen: that
element is complete, since nothing is open. -/
def offence (before : List Event) : Event → Option DocumentFault
  | .text content =>
    if openAfter [] before = [] ∧ content.all Text.isAsciiBlank = false then some .textOutsideRoot
    else none
  | .cdata _ => if openAfter [] before = [] then some .textOutsideRoot else none
  | .start tag =>
    if openAfter [] before = [] ∧ before.any Event.opens then
      some (.secondRoot (String.ofList tag.name))
    else none
  | .empty tag =>
    if openAfter [] before = [] ∧ before.any Event.opens then
      some (.secondRoot (String.ofList tag.name))
    else none
  | .stop => none

/-- The fault of the first event that offends, when the events `before` come before. -/
def firstOffence (before : List Event) : List Event → Option DocumentFault
  | [] => none
  | event :: rest => (offence before event).or (firstOffence (before ++ [event]) rest)

/-- What the end of the document is at fault for: the innermost element that is open, or that
no element was seen. -/
def endOffence (events : List Event) : Option DocumentFault :=
  match openAfter [] events with
  | name :: _ => some (.unclosedElement (String.ofList name))
  | [] => if events.any Event.opens then none else some .noRoot

/-- The attributes of all tags can be read, and so can all texts inside elements. -/
structure Decodes (events : List Event) : Prop where
  attributes : ∀ tag, .start tag ∈ events ∨ .empty tag ∈ events →
    ∃ attributes, Attribute.ofTag tag = .ok attributes
  texts : ∀ before raw after, events = before ++ .text raw :: after → openAfter [] before ≠ [] →
    ∃ s, Reference.unescape raw = .ok s

/-- Events in which every start tag has its end tag. -/
inductive Balanced : List Event → Prop
  | nil : Balanced []
  | text {content : List Char} {events : List Event} :
      Balanced events → Balanced (.text content :: events)
  | cdata {content : List Char} {events : List Event} :
      Balanced events → Balanced (.cdata content :: events)
  | empty {tag : Tag} {events : List Event} : Balanced events → Balanced (.empty tag :: events)
  | element {tag : Tag} {inner events : List Event} :
      Balanced inner → Balanced events → Balanced (.start tag :: inner ++ .stop :: events)

/-- The events of one complete element. -/
def IsElement (events : List Event) : Prop :=
  (∃ tag, events = [.empty tag]) ∨
    ∃ tag inner, Balanced inner ∧ events = .start tag :: inner ++ [.stop]

/-- Blank text, one complete element, blank text. -/
def IsComplete (events : List Event) : Prop :=
  ∃ lead body trail, events = lead ++ body ++ trail ∧ Blank lead ∧ Blank trail ∧ IsElement body

/-! ## Balanced events -/

/-- The events that spell content are balanced. -/
theorem Spells.balanced {events : List Event} {contents : List Content}
    (h : Spells events contents) : Balanced events := by
  induction h with
  | nil => exact .nil
  | text _ _ ih => exact .text ih
  | cdata _ ih => exact .cdata ih
  | empty _ _ ih => exact .empty ih
  | element _ _ _ ihinner ih => exact .element ihinner ih

/-- The events that spell a root are those of one complete element. -/
theorem Spells.isElement {events : List Event} {root : Element}
    (h : Spells events [root.toContent]) : IsElement events := by
  rcases h.element_cases with ⟨tag, rfl, -⟩ | ⟨tag, inner, rfl, -, -, hinner⟩
  · exact .inl ⟨tag, rfl⟩
  · exact .inr ⟨tag, inner, hinner.balanced, rfl⟩

/-- Balanced events leave open what was open before. -/
theorem Balanced.openAfter_eq {events : List Event} (h : Balanced events)
    (names : List (List Char)) : openAfter names events = names := by
  induction h generalizing names with
  | nil => rfl
  | text _ ih => exact ih names
  | cdata _ ih => exact ih names
  | empty _ ih => exact ih names
  | element _ _ ihinner ih =>
    rw [List.cons_append, openAfter, openAfter_append, ihinner]
    exact ih names

/-- Inside balanced events nothing is closed that was open before them. -/
theorem Balanced.suffix_openAfter {events before after : List Event} (h : Balanced events)
    (hsplit : events = before ++ after) (names : List (List Char)) :
    names <:+ openAfter names before := by
  induction h generalizing before after names with
  | nil =>
    obtain ⟨rfl, -⟩ := List.append_eq_nil_iff.1 hsplit.symm
    exact List.suffix_refl _
  | text _ ih =>
    rcases List.cons_eq_append_iff.1 hsplit with ⟨rfl, -⟩ | ⟨rest, rfl, hrest⟩
    · exact List.suffix_refl _
    · exact ih hrest names
  | cdata _ ih =>
    rcases List.cons_eq_append_iff.1 hsplit with ⟨rfl, -⟩ | ⟨rest, rfl, hrest⟩
    · exact List.suffix_refl _
    · exact ih hrest names
  | empty _ ih =>
    rcases List.cons_eq_append_iff.1 hsplit with ⟨rfl, -⟩ | ⟨rest, rfl, hrest⟩
    · exact List.suffix_refl _
    · exact ih hrest names
  | @element tag inner events hinner _ ihinner ih =>
    rw [List.cons_append] at hsplit
    rcases List.cons_eq_append_iff.1 hsplit with ⟨rfl, -⟩ | ⟨rest, rfl, hrest⟩
    · exact List.suffix_refl _
    rw [openAfter]
    rcases List.append_eq_append_iff.1 hrest with ⟨middle, rfl, hmiddle⟩ | ⟨middle, rfl, -⟩
    · rw [openAfter_append, hinner.openAfter_eq]
      rcases List.cons_eq_append_iff.1 hmiddle with ⟨rfl, -⟩ | ⟨tail, rfl, htail⟩
      · exact List.suffix_cons _ _
      · exact ih htail names
    · have hinside := ihinner rfl (tag.name :: names)
      exact (List.suffix_cons _ _).trans hinside

/-- Balanced events whose tags and texts can be read spell content. -/
theorem Balanced.exists_spells {events : List Event} (h : Balanced events)
    (htags : ∀ tag, .start tag ∈ events ∨ .empty tag ∈ events →
      ∃ attributes, Attribute.ofTag tag = .ok attributes)
    (htexts : ∀ raw, .text raw ∈ events → ∃ s, Reference.unescape raw = .ok s) :
    ∃ contents, Spells events contents := by
  induction h with
  | nil => exact ⟨[], .nil⟩
  | @text raw events _ ih =>
    obtain ⟨s, hs⟩ := htexts raw List.mem_cons_self
    obtain ⟨contents, hcontents⟩ := ih (fun tag htag => htags tag (by simpa using htag))
      (fun raw hraw => htexts raw (List.mem_cons_of_mem _ hraw))
    exact ⟨_, .text hs hcontents⟩
  | @cdata content events _ ih =>
    obtain ⟨contents, hcontents⟩ := ih (fun tag htag => htags tag (by simpa using htag))
      (fun raw hraw => htexts raw (List.mem_cons_of_mem _ hraw))
    exact ⟨_, .cdata hcontents⟩
  | @empty tag events _ ih =>
    obtain ⟨attributes, htag⟩ := htags tag (.inr List.mem_cons_self)
    obtain ⟨contents, hcontents⟩ := ih
      (fun tag htag => htags tag (htag.imp (List.mem_cons_of_mem _) (List.mem_cons_of_mem _)))
      (fun raw hraw => htexts raw (List.mem_cons_of_mem _ hraw))
    exact ⟨_, .empty htag hcontents⟩
  | @element tag inner events _ _ ihinner ih =>
    have hinner {event : Event} (h : event ∈ inner) : event ∈ .start tag :: inner ++ .stop :: events :=
      List.mem_append_left _ (List.mem_cons_of_mem _ h)
    have hrest {event : Event} (h : event ∈ events) :
        event ∈ .start tag :: inner ++ .stop :: events :=
      List.mem_append_right _ (List.mem_cons_of_mem _ h)
    obtain ⟨attributes, htag⟩ := htags tag (.inl List.mem_cons_self)
    obtain ⟨content, hcontent⟩ := ihinner (fun tag htag => htags tag (htag.imp hinner hinner))
      (fun raw hraw => htexts raw (hinner hraw))
    obtain ⟨contents, hcontents⟩ := ih (fun tag htag => htags tag (htag.imp hrest hrest))
      (fun raw hraw => htexts raw (hrest hraw))
    exact ⟨_, .element htag hcontent hcontents⟩

/-- When tags and texts can be read, a complete element is that of a document. -/
theorem exists_isDocument_iff {events : List Event} (hdecodes : Decodes events) :
    (∃ root, IsDocument events root) ↔ IsComplete events := by
  constructor
  · rintro ⟨root, lead, body, trail, rfl, hlead, htrail, hbody⟩
    exact ⟨lead, body, trail, rfl, hlead, htrail, hbody.isElement⟩
  · rintro ⟨lead, body, trail, rfl, hlead, htrail, ⟨tag, rfl⟩ | ⟨tag, inner, hinner, rfl⟩⟩
    · obtain ⟨attributes, htag⟩ := hdecodes.attributes tag (.inr (by simp))
      exact ⟨⟨tag.name, attributes, []⟩, lead, _, trail, rfl, hlead, htrail, .empty htag .nil⟩
    · obtain ⟨attributes, htag⟩ := hdecodes.attributes tag (.inl (by simp))
      obtain ⟨content, hcontent⟩ := hinner.exists_spells
        (fun other hother => hdecodes.attributes other (hother.imp (by simp_all) (by simp_all)))
        (fun raw hraw => by
          obtain ⟨before, after, hsplit⟩ := List.append_of_mem hraw
          refine hdecodes.texts (lead ++ .start tag :: before) raw (after ++ [.stop] ++ trail)
            (by simp [hsplit]) ?_
          rw [openAfter_append, openAfter_of_blank hlead, openAfter]
          exact List.ne_nil_of_mem ((hinner.suffix_openAfter hsplit [tag.name]).subset
            List.mem_cons_self))
      exact ⟨⟨tag.name, attributes, content⟩, lead, _, trail, rfl, hlead, htrail,
        .element htag hcontent .nil⟩

/-! ## The first offence decides a run -/

/-- No element is opened by blank text. -/
theorem any_opens_of_blank {events : List Event} (h : Blank events) :
    events.any Event.opens = false := by
  rw [List.any_eq_false]
  intro event hevent
  obtain ⟨content, rfl, -⟩ := h event hevent
  exact Bool.false_ne_true

/-- An element has been seen exactly when one is open or the root is complete. -/
theorem Grown.seen {before : List Event} {building : Building} (h : Grown before building) :
    before.any Event.opens = true ↔ building.frames ≠ [] ∨ building.root.isSome = true := by
  cases h with
  | growing hlead hnested =>
    rw [List.any_append, any_opens_of_blank hlead]
    cases hnested with
    | nil => simp
    | inside _ _ _ => simp [Event.opens]
  | complete hlead hbody htrail =>
    rcases hbody.isElement with ⟨tag, rfl⟩ | ⟨tag, inner, -, rfl⟩ <;> simp [Event.opens]

/-- Nothing is open exactly when no frame is. -/
theorem Grown.frames_eq_nil_iff {before : List Event} {building : Building}
    (h : Grown before building) : building.frames = [] ↔ openAfter [] before = [] := by
  rw [← List.map_eq_nil_iff (f := Frame.name), h.names, List.map_eq_nil_iff]

/-- A tag offends exactly where a second root would open. -/
theorem Grown.second_root_iff {before : List Event} {building : Building}
    (h : Grown before building) :
    (openAfter [] before = [] ∧ before.any Event.opens = true) ↔
      (building.frames.isEmpty && building.root.isSome) = true := by
  rw [← h.frames_eq_nil_iff, h.seen]
  cases building.frames <;> simp

/-- An event that offends stops the run with its fault. -/
theorem step_of_offence {before : List Event} {building : Building} {event : Event}
    {fault : DocumentFault} (h : Grown before building) (hoffence : offence before event = some fault) :
    building.step event = .error fault := by
  cases event with
  | text content =>
    simp only [offence] at hoffence
    split at hoffence
    · next hopen =>
      cases hoffence
      simp only [Building.step, h.frames_eq_nil_iff.2 hopen.1, hopen.2]
      rfl
    · cases hoffence
  | cdata content =>
    simp only [offence] at hoffence
    split at hoffence
    · next hopen =>
      cases hoffence
      simp only [Building.step, h.frames_eq_nil_iff.2 hopen]
    · cases hoffence
  | start tag =>
    simp only [offence] at hoffence
    split at hoffence
    · next hopen =>
      cases hoffence
      simp only [Building.step, Building.opening, h.second_root_iff.1 hopen]
      rfl
    · cases hoffence
  | empty tag =>
    simp only [offence] at hoffence
    split at hoffence
    · next hopen =>
      cases hoffence
      simp only [Building.step, Building.opening, h.second_root_iff.1 hopen]
      rfl
    · cases hoffence
  | stop => cases hoffence

/-- A tag that does not offend opens its element, when its attributes can be read. -/
theorem Grown.exists_opening {before : List Event} {building : Building} {tag : Tag}
    {attributes : List Attribute} (h : Grown before building)
    (hoffence : ¬ (openAfter [] before = [] ∧ before.any Event.opens = true))
    (htag : Attribute.ofTag tag = .ok attributes) :
    building.opening tag = .ok (Frame.opened tag.name attributes) := by
  rw [h.second_root_iff] at hoffence
  refine Building.opening_of_ofTag htag ?_
  by_cases hframes : building.frames = []
  · exact .inr (by simpa [hframes] using hoffence)
  · exact .inl hframes

/-- An event that does not offend is added, when its tag or its text can be read. -/
theorem step_of_inoffensive {before after : List Event} {building : Building} {event : Event}
    (h : Grown before building) (hdecodes : Decodes (before ++ event :: after))
    (hoffence : offence before event = none) : ∃ next, building.step event = .ok next := by
  cases event with
  | text raw =>
    cases hframes : building.frames with
    | nil =>
      have hopen := h.frames_eq_nil_iff.1 hframes
      have hblank : raw.all Text.isAsciiBlank = true := by
        simpa [offence, hopen] using hoffence
      exact ⟨building, by simp only [Building.step, hframes, hblank, if_true]⟩
    | cons frame outer =>
      have hopen : openAfter [] before ≠ [] := by
        rw [ne_eq, ← h.frames_eq_nil_iff, hframes]
        exact List.cons_ne_nil _ _
      obtain ⟨s, hs⟩ := hdecodes.texts before raw after rfl hopen
      exact ⟨_, by simp only [Building.step, hframes, hs]; rfl⟩
  | cdata content =>
    cases hframes : building.frames with
    | nil => simp [offence, h.frames_eq_nil_iff.1 hframes] at hoffence
    | cons frame outer => exact ⟨_, by simp only [Building.step, hframes]; rfl⟩
  | start tag =>
    obtain ⟨attributes, htag⟩ := hdecodes.attributes tag (.inl (by simp))
    have hopening := h.exists_opening (by simpa [offence] using hoffence) htag
    exact ⟨_, by rw [Building.step, hopening]; rfl⟩
  | empty tag =>
    obtain ⟨attributes, htag⟩ := hdecodes.attributes tag (.inr (by simp))
    have hopening := h.exists_opening (by simpa [offence] using hoffence) htag
    exact ⟨_, by rw [Building.step, hopening]; rfl⟩
  | stop =>
    cases hframes : building.frames with
    | nil => exact ⟨building, by simp only [Building.step, hframes]⟩
    | cons frame outer => exact ⟨_, by simp only [Building.step, hframes]; rfl⟩

/-- A run stops with the fault of the first event that offends, and otherwise goes on to the
end of the events. -/
theorem steps_of_first_offence {before events : List Event} {building : Building}
    (h : Grown before building) (hdecodes : Decodes (before ++ events))
    (hcloses : Closes [] (before ++ events)) :
    match firstOffence before events with
    | some fault => building.steps events = .error fault
    | none => ∃ next, building.steps events = .ok next ∧ Grown (before ++ events) next := by
  induction events generalizing before building with
  | nil => exact ⟨building, rfl, by rwa [List.append_nil]⟩
  | cons event events ih =>
    rw [firstOffence]
    cases hoffence : offence before event with
    | some fault =>
      rw [Option.some_or]
      simp only [Building.steps, step_of_offence h hoffence]
      rfl
    | none =>
      rw [Option.none_or]
      obtain ⟨next, hstep⟩ := step_of_inoffensive h hdecodes hoffence
      have hnext := h.step hstep fun hstop => hcloses before events (by rw [hstop])
      have hsplit : before ++ event :: events = before ++ [event] ++ events := List.append_cons ..
      rw [hsplit] at hdecodes hcloses ⊢
      simp only [Building.steps, hstep, Except.bind]
      exact ih hnext hdecodes hcloses

/-- The end of the document is at fault when an element is open or none was seen. -/
theorem finish_of_grown {events : List Event} {building : Building} (h : Grown events building) :
    match endOffence events with
    | some fault => building.finish = .error fault
    | none => ∃ node, building.finish = .ok node := by
  have hnames := h.names
  have hseen := h.seen
  cases h with
  | @growing lead events frames hlead hnested =>
    cases frames with
    | nil =>
      have hopen : openAfter [] (lead ++ events) = [] := by simpa using hnames.symm
      have hnone : (lead ++ events).any Event.opens = false :=
        Bool.eq_false_iff.2 fun hany => by simpa using hseen.1 hany
      simp only [endOffence, hopen, hnone, Bool.false_eq_true, if_false]
      rfl
    | cons frame outer =>
      cases hopen : openAfter [] (lead ++ events) with
      | nil => simp [hopen] at hnames
      | cons name rest =>
        rw [hopen] at hnames
        simp only [endOffence, hopen, ← (List.cons.inj hnames).1]
        rfl
  | complete hlead hbody htrail =>
    have hopen := hnames.symm
    rw [List.map_nil, List.map_eq_nil_iff] at hopen
    simp only [endOffence, hopen, hseen.2 (.inr rfl), if_true]
    exact ⟨_, rfl⟩

/-- The tree of events fails with the first offence, or else with that of the end. -/
theorem treeOf_eq_error_iff {events : List Event} (hdecodes : Decodes events)
    (hcloses : Closes [] events) {fault : DocumentFault} :
    treeOf events = .error fault ↔
      (firstOffence [] events).or (endOffence events) = some fault := by
  have hrun := steps_of_first_offence grown_nil hdecodes hcloses
  rw [List.nil_append] at hrun
  cases hfirst : firstOffence [] events with
  | some found =>
    rw [hfirst] at hrun
    simp only at hrun
    rw [treeOf, hrun, Option.some_or, Option.some_inj]
    exact ⟨fun h => by cases h; rfl, fun h => by cases h; rfl⟩
  | none =>
    rw [hfirst] at hrun
    obtain ⟨building, hsteps, hgrown⟩ := hrun
    have hfinish := finish_of_grown hgrown
    rw [treeOf, hsteps, Option.none_or]
    show building.finish = _ ↔ _
    cases hend : endOffence events with
    | some found =>
      rw [hend] at hfinish
      simp only at hfinish
      rw [hfinish, Option.some_inj]
      exact ⟨fun h => by cases h; rfl, fun h => by cases h; rfl⟩
    | none =>
      rw [hend] at hfinish
      obtain ⟨node, hnode⟩ := hfinish
      rw [hnode]
      constructor
      · intro h
        cases h
      · intro h
        cases h

/-! ## The outcome of a text -/

/-- What can be read of all events can be read of the first of them. -/
theorem Decodes.of_prefix {before events : List Event} (h : Decodes events)
    (hbefore : before <+: events) : Decodes before := by
  obtain ⟨rest, rfl⟩ := hbefore
  refine ⟨fun tag htag => h.attributes tag ?_, fun first raw after hsplit hopen => ?_⟩
  · exact htag.imp (List.mem_append_left _) (List.mem_append_left _)
  · exact h.texts first raw (after ++ rest) (by rw [hsplit]; simp) hopen

/-- Where an element is open, the innermost frame is that of the last start tag whose content
is balanced so far. -/
theorem Grown.exists_start {before : List Event} {building : Building} (h : Grown before building)
    (hopen : openAfter [] before ≠ []) :
    ∃ prior tag inner frame outer, before = prior ++ .start tag :: inner ∧ Balanced inner ∧
      building.frames = frame :: outer ∧ frame.name = String.ofList tag.name := by
  rw [ne_eq, ← h.frames_eq_nil_iff] at hopen
  cases h with
  | @growing lead events frames hlead hnested =>
    cases hnested with
    | nil => exact absurd rfl hopen
    | @inside prior inner outer tag attributes content _ _ hinner =>
      exact ⟨lead ++ prior, tag, inner, _, outer, by simp, hinner.balanced, rfl, rfl⟩
  | complete _ _ _ => exact absurd rfl hopen

/-- What becomes of a text on which the reader meets no fault, when its tags and the texts in
its elements can be read. The frames are at every step those of the elements that the reader
has open, and an end tag finds the frame of its own start tag. The text is accepted exactly when
its events are one complete element between blank texts. Its fault is that of the first event
that offends, or else that of the end. -/
theorem parse_decided_by_first_offence {text : String}
    (hfault : (Events.ofText (dropMark text.toList)).fault = none)
    (hdecodes : Decodes (eventsOf (dropMark text.toList))) :
    (∀ before rest names, Reads ⟨dropMark text.toList, []⟩ before ⟨rest, names⟩ →
      firstOffence [] before = none →
      ∃ building, Building.steps {} before = .ok building ∧
        building.frames.map (·.name) = names.map String.ofList ∧
        ∀ goal, Reads ⟨rest, names⟩ [.stop] goal →
          ∃ prior tag inner frame outer, before = prior ++ .start tag :: inner ∧
            Balanced inner ∧ building.frames = frame :: outer ∧
            frame.name = String.ofList tag.name ∧
            outer.map (·.name) = goal.names.map String.ofList) ∧
    ((∃ node, parse text = .ok node) ↔ IsComplete (eventsOf (dropMark text.toList))) ∧
    ∀ fault, (∃ position, parse text = .error ⟨fault, position⟩) ↔
      (firstOffence [] (eventsOf (dropMark text.toList))).or
        (endOffence (eventsOf (dropMark text.toList))) = some fault := by
  have hcloses := closes_eventsOf (dropMark text.toList)
  refine ⟨fun before rest names hreads hnone => ?_, ?_, fun fault => ?_⟩
  · have hrun := steps_of_first_offence grown_nil
      (hdecodes.of_prefix (prefix_eventsOf_of_reads hreads)) (closes_of_reads hreads)
    rw [hnone] at hrun
    obtain ⟨building, hsteps, hgrown⟩ := hrun
    have hnames := hgrown.names
    have hopen : names = openAfter [] before := openAfter_of_reads hreads
    rw [List.nil_append, ← hopen] at hnames
    refine ⟨building, hsteps, hnames, fun goal hstop => ?_⟩
    have hne : names ≠ [] := closes_of_reads hstop [] [] rfl
    obtain ⟨prior, tag, inner, frame, outer, hbefore, hinner, hframes, hname⟩ :=
      hgrown.exists_start (by rwa [List.nil_append, ← hopen])
    have hgoal : goal.names = names.tail := openAfter_of_reads hstop
    refine ⟨prior, tag, inner, frame, outer, hbefore, hinner, hframes, hname, ?_⟩
    rw [hgoal, List.map_tail, ← hnames, hframes]
    rfl
  · rw [← exists_isDocument_iff hdecodes]
    constructor
    · rintro ⟨node, hnode⟩
      obtain ⟨-, root, hroot, -⟩ := parse_eq_ok_iff.1 hnode
      exact ⟨root, hroot⟩
    · rintro ⟨root, hroot⟩
      exact ⟨_, parse_eq_ok_iff.2 ⟨hfault, root, hroot, rfl⟩⟩
  · rw [← treeOf_eq_error_iff hdecodes hcloses]
    exact parseList_eq_error_iff hfault

/-- A second root after an element with text and a child. -/
theorem parse_second_root_by_first_offence :
    (Events.ofText (dropMark "<a>x<b/></a>\n<c/>y".toList)).fault = none ∧
    Decodes (eventsOf (dropMark "<a>x<b/></a>\n<c/>y".toList)) ∧
    ∃ position, parse "<a>x<b/></a>\n<c/>y" = .error ⟨.secondRoot "c", position⟩ := by
  have hfault : (Events.ofText (dropMark "<a>x<b/></a>\n<c/>y".toList)).fault = none := by
    decide +kernel
  have hevents : eventsOf (dropMark "<a>x<b/></a>\n<c/>y".toList) =
      [.start ⟨['a'], []⟩, .text ['x'], .empty ⟨['b'], []⟩, .stop, .text ['\n'],
        .empty ⟨['c'], []⟩, .text ['y']] := by
    decide +kernel
  have hdecodes : Decodes (eventsOf (dropMark "<a>x<b/></a>\n<c/>y".toList)) := by
    rw [hevents]
    refine ⟨fun tag htag => ?_, fun before raw after hsplit _ => ?_⟩
    · simp only [List.mem_cons, Event.start.injEq, Event.empty.injEq, reduceCtorEq, false_or,
        or_false, List.not_mem_nil] at htag
      rcases htag with rfl | rfl | rfl <;> exact ⟨[], Attribute.ofTag_nil _⟩
    · have hmem : Event.text raw ∈ before ++ .text raw :: after := by simp
      rw [← hsplit] at hmem
      simp only [List.mem_cons, Event.text.injEq, reduceCtorEq, false_or, or_false,
        List.not_mem_nil] at hmem
      rcases hmem with rfl | rfl | rfl <;>
        exact ⟨_, Reference.unescape_of_not_mem (by decide)⟩
  refine ⟨hfault, hdecodes, ?_⟩
  rw [(parse_decided_by_first_offence hfault hdecodes).2.2, hevents]
  decide +kernel

end LocaleLint.Markup
