import LocaleLint.Proofs.Markup.FirstFault

/-!
# Around the root

A document is an element with nothing of account around it: what comes before and behind the root
is `Silent`, blanks and constructs that are dropped. So a text is accepted exactly when it is the
source of an element between two such parts (`parse_eq_ok_iff_parts`), and silence joins silence.
The main result is `parse_between_asides`: blanks and comments around a document leave its tree as
it is, and a second element behind them is refused.

The seams need care, since blanks around a document merge with those at its ends into one text: a
silent part is therefore read together with a blank text that is pending before it
(`Silent.exists_reads`).
-/

set_option autoImplicit false

namespace LocaleLint.Markup

open Text (byteLength)

/-- Blanks and comments, in any order. -/
inductive Aside : List Char → Prop
  | nil : Aside []
  | blank {c : Char} {s : List Char} : Text.isMarkupBlank c = true → Aside s → Aside (c :: s)
  | comment {content s : List Char} : ¬['-', '-', '>'] <:+: content → Aside s →
      Aside (['<', '!', '-', '-'] ++ content ++ ['-', '-', '>'] ++ s)

/-- What has no effect outside of the root: ASCII blanks, and constructs that are dropped. -/
inductive Silent : List Char → Prop
  | nil : Silent []
  | blank {c : Char} {s : List Char} : Text.isAsciiBlank c = true → Silent s → Silent (c :: s)
  | dropped {source s : List Char} :
      (∀ rest names, Reads ⟨'<' :: source ++ rest, names⟩ [] ⟨rest, names⟩) → Silent s →
      Silent ('<' :: source ++ s)

/-- Whether `source` is that of the root: it is markup, and is read alike whatever follows it. -/
structure IsRootSource (source : List Char) (root : Element) : Prop where
  starts : source.head? = some '<'
  reads : ∃ events, Spells events [root.toContent] ∧
    ∀ rest, Reads ⟨source ++ rest, []⟩ events ⟨rest, []⟩

/-! ## Silence -/

/-- What has no effect has none either when more of the kind follows. -/
theorem Silent.append {s t : List Char} (hs : Silent s) (ht : Silent t) : Silent (s ++ t) := by
  induction hs with
  | nil => exact ht
  | blank hc _ ih => exact .blank hc ih
  | dropped hreads _ ih =>
    rw [List.append_assoc]
    exact .dropped hreads ih

/-- Blanks and comments have no effect outside of the root. -/
theorem Aside.silent {s : List Char} (h : Aside s) : Silent s := by
  induction h with
  | nil => exact .nil
  | blank hc _ ih => exact .blank (by rw [Text.isAsciiBlank, hc, Bool.true_or]) ih
  | comment hcontent _ ih => exact .dropped (fun rest names => reads_comment hcontent) ih

/-- Blanks have no effect outside of the root. -/
theorem silent_of_blank {s : List Char} (h : s.all Text.isAsciiBlank = true) : Silent s := by
  induction s with
  | nil => exact .nil
  | cons c s ih =>
    rw [List.all_cons, Bool.and_eq_true] at h
    exact .blank h.1 (ih h.2)

/-- No markup is among blanks. -/
theorem not_mem_of_blank {s : List Char} (h : s.all Text.isAsciiBlank = true) : '<' ∉ s := by
  intro hmem
  have hblank := List.all_eq_true.1 h _ hmem
  exact absurd hblank (by decide)

/-- A blank text that is pending is read where no text goes on. -/
theorem exists_reads_of_blank {pending : List Char} (h : pending.all Text.isAsciiBlank = true)
    {rest : List Char} (hrest : EndsText rest) (names : List (List Char)) :
    ∃ events, Blank events ∧ Reads ⟨pending ++ rest, names⟩ events ⟨rest, names⟩ := by
  by_cases hnone : pending = []
  · rw [hnone]
    exact ⟨[], blank_nil, .refl _⟩
  · exact ⟨_, blank_nil.concat h, reads_text hnone (not_mem_of_blank h) hrest⟩

/-- Silence is read as blank text, together with blanks that are pending before it. -/
theorem Silent.exists_reads {s : List Char} (h : Silent s) (pending : List Char)
    (hpending : pending.all Text.isAsciiBlank = true) {rest : List Char} (hrest : EndsText rest)
    (names : List (List Char)) :
    ∃ events, Blank events ∧ Reads ⟨pending ++ (s ++ rest), names⟩ events ⟨rest, names⟩ := by
  induction h generalizing pending with
  | nil => exact exists_reads_of_blank hpending hrest names
  | @blank c s hc _ ih =>
    have hmore : (pending ++ [c]).all Text.isAsciiBlank = true := by
      rw [List.all_append, hpending, List.all_cons, hc]
      rfl
    rw [List.cons_append, List.append_cons]
    exact ih (pending ++ [c]) hmore
  | @dropped source s hreads _ ih =>
    have hopens : EndsText ('<' :: source ++ (s ++ rest)) := fun c hc => (Option.some.inj hc).symm
    obtain ⟨before, hbefore, hfirst⟩ := exists_reads_of_blank hpending hopens names
    obtain ⟨after, hafter, hsecond⟩ := ih [] rfl
    refine ⟨before ++ after, ?_, ?_⟩
    · intro event hevent
      exact (List.mem_append.1 hevent).elim (hbefore event) (hafter event)
    · rw [List.append_assoc]
      exact hfirst.trans ((hreads _ names).trans hsecond)

/-! ## Silence in the source -/

/-- A token is dropped everywhere, or is a text, or gives an event that is no text. -/
theorem ofToken_cases {names outer : List (List Char)} {token : Token} {event : Option Event}
    (h : Events.ofToken names token = .ok (event, outer)) :
    (event = none ∧ ∀ others, Events.ofToken others token = .ok (none, others)) ∨
      (∃ content, token = .text content ∧ event = some (.text content)) ∨
      ∃ found, event = some found ∧ ∀ content, found ≠ .text content := by
  cases token with
  | comment content => cases h; exact .inl ⟨rfl, fun others => rfl⟩
  | instruction content => cases h; exact .inl ⟨rfl, fun others => rfl⟩
  | doctype content => cases h; exact .inl ⟨rfl, fun others => rfl⟩
  | text content => cases h; exact .inr (.inl ⟨content, rfl, rfl⟩)
  | cdata content => cases h; exact .inr (.inr ⟨_, rfl, by simp⟩)
  | startTag content =>
    simp only [Events.ofToken] at h
    split at h <;> cases h <;> exact .inr (.inr ⟨_, rfl, by simp⟩)
  | endTag content =>
    simp only [Events.ofToken] at h
    split at h
    · cases h
    · split at h <;> cases h
      exact .inr (.inr ⟨_, rfl, by simp⟩)

/-- A token that is dropped is dropped everywhere, and opens or closes nothing. -/
theorem ofToken_of_dropped {names outer : List (List Char)} {token : Token}
    (h : Events.ofToken names token = .ok (none, outer)) :
    outer = names ∧ ∀ others, Events.ofToken others token = .ok (none, others) := by
  rcases ofToken_cases h with ⟨-, hdropped⟩ | ⟨_, -, hevent⟩ | ⟨_, hevent, -⟩
  · have hnames := h.symm.trans (hdropped names)
    cases hnames
    exact ⟨rfl, hdropped⟩
  · cases hevent
  · cases hevent

/-- Only a text is read as text. -/
theorem ofToken_of_text {names outer : List (List Char)} {token : Token} {content : List Char}
    (h : Events.ofToken names token = .ok (some (.text content), outer)) :
    token = .text content ∧ outer = names := by
  rcases ofToken_cases h with ⟨hevent, -⟩ | ⟨_, rfl, -⟩ | ⟨_, hevent, hother⟩
  · cases hevent
  · cases h
    exact ⟨rfl, rfl⟩
  · cases hevent
    exact absurd rfl (hother content)

/-- What a reader takes for blank text is silent. -/
theorem Reads.exists_silent {reader goal : Reader} {events : List Event}
    (h : Reads reader events goal) (hblank : Blank events) :
    ∃ used, Silent used ∧ reader.rest = used ++ goal.rest ∧ goal.names = reader.names := by
  induction h with
  | refl reader => exact ⟨[], .nil, rfl, rfl⟩
  | @token c s rest token names outer event events goal hnext hevent _ ih =>
    obtain ⟨used, hused, hrest, hnames⟩ := ih fun event hevent =>
      hblank event (List.mem_append_right _ hevent)
    dsimp only at hrest hnames ⊢
    cases event with
    | none =>
      obtain ⟨rfl, hdropped⟩ := ofToken_of_dropped hevent
      rcases nextToken_cases hnext with ⟨rfl, -⟩ | ⟨rfl, source, -, rfl, hread⟩
      · cases hevent
      · refine ⟨'<' :: source ++ used, .dropped (fun rest names => ?_) hused, ?_, hnames⟩
        · exact .dropped (hread rest) (hdropped names)
        · rw [List.append_assoc, ← hrest]
          rfl
    | some event =>
      obtain ⟨content, rfl, hcontent⟩ := hblank event (List.mem_append_left _ List.mem_cons_self)
      obtain ⟨rfl, rfl⟩ := ofToken_of_text hevent
      refine ⟨content ++ used, (silent_of_blank hcontent).append hused, ?_, hnames⟩
      rw [List.append_assoc, ← hrest]
      exact (heads_of_nextToken hnext).1.symm

/-! ## The parts of a document -/

/-- A reader comes by the place between two of its events. -/
theorem Reads.split {reader goal : Reader} {first second : List Event}
    (h : Reads reader (first ++ second) goal) :
    ∃ middle, Reads reader first middle ∧ Reads middle second goal := by
  generalize hevents : first ++ second = events at h
  induction h generalizing first with
  | refl reader =>
    obtain ⟨rfl, rfl⟩ := List.append_eq_nil_iff.1 hevents
    exact ⟨reader, .refl _, .refl _⟩
  | @token c s rest token names outer event events goal hnext hevent htail ih =>
    cases first with
    | nil =>
      rw [List.nil_append] at hevents
      rw [hevents]
      exact ⟨_, .refl _, .token hnext hevent htail⟩
    | cons head first =>
      cases event with
      | none =>
        obtain ⟨middle, hfirst, hsecond⟩ := ih hevents
        exact ⟨middle, .token hnext hevent hfirst, hsecond⟩
      | some event =>
        obtain ⟨rfl, hrest⟩ := List.cons.inj hevents
        obtain ⟨middle, hfirst, hsecond⟩ := ih hrest
        exact ⟨middle, .token hnext hevent hfirst, hsecond⟩

/-- Where a reader meets a tag before any text there is markup in front of it. -/
theorem Reads.head?_of_opens {reader goal : Reader} {event : Event} {events : List Event}
    (h : Reads reader (event :: events) goal) (hopens : event.opens = true) :
    reader.rest.head? = some '<' := by
  generalize hall : event :: events = all at h
  cases h with
  | refl reader => cases hall
  | token hnext hevent _ =>
    rcases nextToken_cases hnext with ⟨rfl, -⟩ | ⟨rfl, -⟩
    · cases hevent
      obtain ⟨rfl, -⟩ := List.cons.inj hall
      cases hopens
    · rfl

/-- The events of one element begin and end with a tag. -/
theorem Spells.exists_ends {events : List Event} {root : Element}
    (h : Spells events [root.toContent]) :
    (∃ event rest, events = event :: rest ∧ event.opens = true) ∧
      ∀ content, events.getLast? ≠ some (.text content) := by
  rcases h.element_cases with ⟨tag, rfl, -⟩ | ⟨tag, inner, rfl, -⟩
  · exact ⟨⟨_, _, rfl, rfl⟩, by simp⟩
  · exact ⟨⟨_, _, rfl, rfl⟩, fun content => by rw [List.getLast?_concat]; simp⟩

/-- The source of an element between two silent parts is read up to where no text goes on. -/
theorem IsRootSource.exists_reads {lead source trail : List Char} {root : Element}
    (h : IsRootSource source root) (hlead : Silent lead) (htrail : Silent trail)
    (rest : List Char) (hrest : EndsText rest) :
    ∃ events, IsDocument events root ∧
      Reads ⟨lead ++ source ++ trail ++ rest, []⟩ events ⟨rest, []⟩ := by
  obtain ⟨hstarts, body, hbody, hread⟩ := h
  have hsource : EndsText (source ++ (trail ++ rest)) := by
    intro c hc
    rw [List.head?_append, hstarts, Option.some_or, Option.some.injEq] at hc
    exact hc.symm
  obtain ⟨before, hbefore, hfirst⟩ := hlead.exists_reads [] rfl hsource []
  obtain ⟨after, hafter, hthird⟩ := htrail.exists_reads [] rfl hrest []
  refine ⟨before ++ body ++ after, ⟨before, body, after, rfl, hbefore, hafter, hbody⟩, ?_⟩
  rw [List.append_assoc, List.append_assoc, List.append_assoc]
  exact hfirst.trans ((hread (trail ++ rest)).trans hthird)

/-- No text goes on at the end. -/
theorem endsText_nil : EndsText [] :=
  fun _ hc => nomatch hc

/-- A text is accepted exactly when it is the source of an element between two silent parts, and
its tree is that of the element. -/
theorem parse_eq_ok_iff_parts {text : String} {node : Node} :
    parse text = .ok node ↔
      ∃ lead source trail root, dropMark text.toList = lead ++ source ++ trail ∧ Silent lead ∧
        Silent trail ∧ IsRootSource source root ∧
        node = .mapping [(String.ofList root.name, root.tree)] := by
  rw [parse_eq_ok_iff]
  constructor
  · rintro ⟨hfault, root, ⟨lead, body, trail, hevents, hlead, htrail, hbody⟩, rfl⟩
    obtain ⟨⟨rest, names⟩, hreads, hend⟩ := Markup.exists_reads 0 ⟨dropMark text.toList, []⟩
    obtain rfl : rest = [] := hend hfault
    have hall : Reads ⟨dropMark text.toList, []⟩ (eventsOf (dropMark text.toList)) ⟨[], names⟩ :=
      hreads
    rw [hevents, List.append_assoc] at hall
    obtain ⟨⟨s, opened⟩, hfirst, hmore⟩ := hall.split
    obtain ⟨⟨t, left⟩, hsecond, hthird⟩ := hmore.split
    obtain ⟨before, hbefore, hs, rfl⟩ := hfirst.exists_silent hlead
    obtain ⟨after, hafter, ht, rfl⟩ := hthird.exists_silent htrail
    obtain ⟨source, hsource, hnone, hother⟩ := hsecond.exists_used
    obtain ⟨⟨event, events, hcons, hopens⟩, hlast⟩ := hbody.exists_ends
    have hnames : names = [] := (openAfter_of_reads hsecond).trans (openAfter_of_spells hbody [])
    dsimp only at hs ht hsource hother
    refine ⟨before, source, after, root, ?_, hbefore, hafter, ⟨?_, body, hbody, ?_⟩, rfl⟩
    · rw [hs, hsource, ht, List.append_nil, List.append_assoc]
    · have hhead := Reads.head?_of_opens (hcons ▸ hsecond) hopens
      obtain ⟨c, source, rfl⟩ := List.exists_cons_of_ne_nil fun hempty => by
        rw [hnone hempty] at hcons
        cases hcons
      rwa [hsource] at hhead
    · intro rest
      have hread := hother rest (.inr hlast)
      rwa [hnames] at hread
  · rintro ⟨lead, source, trail, root, htext, hlead, htrail, hsource, rfl⟩
    obtain ⟨events, hdocument, hreads⟩ := hsource.exists_reads hlead htrail [] endsText_nil
    rw [List.append_nil, ← htext] at hreads
    obtain ⟨rfl, hfault⟩ := eventsOf_of_reads hreads
    exact ⟨hfault, root, hdocument, rfl⟩

/-! ## Asides -/

/-- Silence and markup do not open with a byte order mark. -/
theorem dropMark_of_parts {lead source : List Char} (hlead : Silent lead)
    (hstarts : source.head? = some '<') (trail : List Char) :
    dropMark (lead ++ source ++ trail) = lead ++ source ++ trail := by
  apply dropMark_eq_self
  rw [List.append_assoc, List.head?_append, List.head?_append, hstarts]
  intro hmark
  cases hlead with
  | nil => exact absurd (Option.some.inj hmark) (by decide)
  | blank hc _ =>
    obtain rfl := Option.some.inj hmark
    exact absurd hc (by decide)
  | dropped _ _ => exact absurd (Option.some.inj hmark) (by decide)

/-- A complete element is refused where the root is complete, at its end. -/
theorem stopsAt_second_root {name : List Char} (hname : IsTagName name) (root : String × Node) :
    StopsAt ⟨['<'] ++ name ++ ['/', '>'], []⟩ ⟨[], some root⟩ (.secondRoot (String.ofList name))
      (byteLength (['<'] ++ name ++ ['/', '>'])) := by
  have hslash : Passes ['/'] := passes_of_plain (by simp [IsQuotation])
  have hnext : nextToken '<' (name ++ ['/', '>']) = .ok (.startTag (name ++ ['/']), []) := by
    have h := nextToken_of_name hname (hname.1.passes.append hslash) []
    rwa [List.append_assoc] at h
  have hevent : Events.ofToken [] (.startTag (name ++ ['/'])) =
      .ok (some (.empty ⟨name, []⟩), []) := by
    have htag := tag_of_written hname.1 .nil
    rw [List.append_nil] at htag
    rw [Events.ofToken, if_pos List.getLast?_concat, List.dropLast_concat, htag]
  have hlength := byteLength_of_nextToken hnext
  rw [Text.byteLength_nil, Nat.add_zero] at hlength
  have hstops : StopsAt ⟨'<' :: (name ++ ['/', '>']), []⟩ ⟨[], some root⟩
      (.secondRoot (String.ofList name)) _ := .event hnext hevent rfl
  rw [← hlength] at hstops
  exact hstops

/-- Blanks and comments around a document do not change its tree. When an element without content
follows them, it is refused as a second root, at its end. -/
theorem parse_between_asides {text before after : String} {node : Node}
    (hmark : text.toList.head? ≠ some Text.byteOrderMark) (h : parse text = .ok node)
    (hbefore : Aside before.toList) (hafter : Aside after.toList) :
    parse (before ++ text ++ after) = .ok node ∧
      ∀ name, IsTagName name →
        let whole := before ++ text ++ after ++ ("<" ++ String.ofList name ++ "/>")
        parse whole = .error ⟨.secondRoot (String.ofList name),
          Position.ofOffset whole.toList (byteLength whole.toList)⟩ := by
  obtain ⟨lead, source, trail, root, htext, hlead, htrail, hsource, rfl⟩ :=
    parse_eq_ok_iff_parts.1 h
  have hplain := dropMark_eq_self hmark
  have hlead' := hbefore.silent.append hlead
  have htrail' := htrail.append hafter.silent
  have hparts : (before ++ text ++ after).toList =
      before.toList ++ lead ++ source ++ (trail ++ after.toList) := by
    rw [String.toList_append, String.toList_append, ← hplain, htext]
    simp only [List.append_assoc]
  refine ⟨?_, fun name hname => ?_⟩
  · rw [parse_eq_ok_iff_parts, hparts, dropMark_of_parts hlead' hsource.starts]
    exact ⟨_, source, _, root, rfl, hlead', htrail', hsource, rfl⟩
  · intro whole
    have hwhole : whole.toList = before.toList ++ lead ++ source ++ (trail ++ after.toList) ++
        (['<'] ++ name ++ ['/', '>']) := by
      have hsecond : ("<" ++ String.ofList name ++ "/>").toList = ['<'] ++ name ++ ['/', '>'] := by
        simp [String.toList_append]
      rw [String.toList_append, hparts, hsecond]
    have hdrop : dropMark whole.toList = whole.toList := by
      rw [hwhole, List.append_assoc]
      exact dropMark_of_parts hlead' hsource.starts _
    obtain ⟨events, hdocument, hreads⟩ := hsource.exists_reads hlead' htrail'
      (['<'] ++ name ++ ['/', '>']) fun c hc => (Option.some.inj hc).symm
    obtain ⟨place, hstops, hplace⟩ :=
      (stopsAt_second_root hname _).of_reads hreads hdocument.steps_eq
    rw [← hwhole] at hstops hplace
    rw [parse, parseList_eq_error_iff_stopsAt rfl, hdrop]
    exact ⟨place, hstops, by rw [Nat.add_right_cancel hplace]⟩

/-- A document between form feeds, with blanks and comments around it that hold parts of their own
marks. -/
theorem parse_between_asides_of_form_feed :
    let text := "\x0c<?xml?><a>x</a>\x0c"
    let node : Node := .mapping [("a", .leaf "x")]
    let before := "\n<!--->--> "
    let after := " <!----->"
    text.toList.head? ≠ some Text.byteOrderMark ∧ parse text = .ok node ∧ Aside before.toList ∧
      Aside after.toList ∧ IsTagName ['b'] ∧ parse (before ++ text ++ after) = .ok node ∧
      parse (before ++ text ++ after ++ "<b/>") = .error ⟨.secondRoot "b", ⟨2, 41⟩⟩ := by
  intro text node before after
  have hmark : text.toList.head? ≠ some Text.byteOrderMark := by decide
  have hparse : parse text = .ok node := by decide +kernel
  have hbefore : Aside before.toList := by
    have hlist : before.toList =
        '\n' :: (['<', '!', '-', '-'] ++ ['-', '>'] ++ ['-', '-', '>'] ++ [' ']) := by decide
    rw [hlist]
    exact .blank rfl (.comment (by decide) (.blank rfl .nil))
  have hafter : Aside after.toList := by
    have hlist : after.toList =
        ' ' :: (['<', '!', '-', '-'] ++ ['-'] ++ ['-', '-', '>'] ++ []) := by decide
    rw [hlist]
    exact .blank rfl (.comment (by decide) .nil)
  have hname : IsTagName ['b'] := by simp [IsTagName, IsName, IsQuotation, Text.isMarkupBlank]
  obtain ⟨hsame, hsecond⟩ := parse_between_asides hmark hparse hbefore hafter
  have htag : "<" ++ String.ofList ['b'] ++ "/>" = "<b/>" := by decide
  have hplace : Position.ofOffset (before ++ text ++ after ++ "<b/>").toList
      (byteLength (before ++ text ++ after ++ "<b/>").toList) = ⟨2, 41⟩ := by decide +kernel
  have h := hsecond ['b'] hname
  rw [htag] at h
  exact ⟨hmark, hparse, hbefore, hafter, hname, hsame, h.trans (by rw [hplace])⟩

end LocaleLint.Markup
