import LocaleLint.Proofs.Json.Tokens
import LocaleLint.Proofs.Text.Lines
import LocaleLint.Report.Command

/-!
# Reading workflow commands

A runner reads a command from its front: the level up to the first space or to two colons, the
properties up to two colons, with commas between them, and then the message; escapes are undone in
each value by itself (`Command.read?`). The main result `commands_read_back` says that a notice is
read back from its command, whatever is written in it, and that a log of commands is read back
command by command.

A separator is never part of an escaped value (`isSeparator_of_mem_properties`), so the separators
that a runner finds are those that were written. The escapes can be written one kind after the
other, if that of the percent sign comes first (`flatMap_dataChar`).
-/

set_option autoImplicit false

namespace LocaleLint

namespace Command

/-! ## What a runner reads -/

/-- What a runner takes from a command. -/
structure Remark where
  level : Severity
  location : Option Location
  text : String
deriving DecidableEq, Repr

/-- The two characters after a percent sign, and what they stand for in a message. -/
def dataCodes : List (List Char × Char) :=
  [(['2', '5'], '%'), (['0', 'D'], '\r'), (['0', 'A'], '\n')]

/-- The codes in a property. -/
def propertyCodes : List (List Char × Char) :=
  dataCodes ++ [(['3', 'A'], ':'), (['2', 'C'], ',')]

/-- A text in which every percent sign with a code has been replaced. -/
def unescape (codes : List (List Char × Char)) (s : List Char) : List Char :=
  match s with
  | [] => []
  | c :: rest =>
    match if c = '%' then codes.lookup (rest.take 2) else none with
    | some meant => meant :: unescape codes (rest.drop 2)
    | none => c :: unescape codes rest
termination_by s.length
decreasing_by
  all_goals simp only [List.length_drop, List.length_cons]
  all_goals omega

/-- What stands before the first two colons, and what stands after them. -/
def cutColons : List Char → Option (List Char × List Char)
  | ':' :: ':' :: rest => some ([], rest)
  | c :: rest => (cutColons rest).map fun parts => (c :: parts.1, parts.2)
  | [] => none

/-- The level with a name. -/
def level? (name : List Char) : Option Severity :=
  [Severity.info, .warning, .error].find? fun level => level.commandLevel.toList = name

/-- The counter that decimal digits spell. -/
def count? (s : List Char) : Option Count :=
  if s.isEmpty then none
  else if s.all Text.isDigit then Count.ofNat? (Text.decimalValue s)
  else none

/-- The name of a property, up to the first equals sign, and its value. -/
def property (s : List Char) : String × List Char :=
  (String.ofList (s.takeWhile (· ≠ '=')), unescape propertyCodes ((s.dropWhile (· ≠ '=')).drop 1))

/-- The counter under a name, if the first property has that name, and the other properties. -/
def number? (name : String) (properties : List (String × List Char)) :
    Option (Option Count × List (String × List Char)) :=
  match properties with
  | [] => some (none, [])
  | first :: rest =>
    if first.1 = name then (count? first.2).map fun n => (some n, rest)
    else some (none, first :: rest)

/-- The place that properties name: a file, a line or none, a column or none, and nothing else. -/
def location? (properties : List (String × List Char)) : Option Location :=
  match properties with
  | [] => none
  | file :: rest =>
    if file.1 = "file" then
      match number? "line" rest with
      | none => none
      | some (line, rest) =>
        match number? "col" rest with
        | some (column, []) => some ⟨⟨String.ofList file.2⟩, line, column⟩
        | _ => none
    else none

/-- The place named by what follows a level: none, or properties with commas between them. -/
def place? (s : List Char) : Option (Option Location) :=
  match s with
  | [] => some none
  | _ :: properties => (location? ((properties.splitOn ',').map property)).map some

/-- Reads a command. -/
def read? (command : String) : Option Remark :=
  match command.toList with
  | ':' :: ':' :: rest => do
    let (head, data) ← cutColons rest
    let level ← level? (head.takeWhile (· ≠ ' '))
    let location ← place? (head.dropWhile (· ≠ ' '))
    some ⟨level, location, String.ofList (unescape dataCodes data)⟩
  | _ => none

/-! ## Escapes -/

/-- A way of writing characters of which `codes` are the codes: a character stands for itself if it
is no percent sign, or else for a percent sign and its code. -/
def Escapes (codes : List (List Char × Char)) (write : Char → List Char) : Prop :=
  ∀ c, (c ≠ '%' ∧ write c = [c]) ∨
    ∃ code, code.length = 2 ∧ write c = '%' :: code ∧ codes.lookup code = some c

/-- The characters of a message are escaped by the codes for messages. -/
theorem escapes_dataChar : Escapes dataCodes dataChar := by
  intro c
  unfold dataChar
  split_ifs with hpercent hreturn hbreak
  · exact .inr ⟨['2', '5'], rfl, rfl, hpercent ▸ rfl⟩
  · exact .inr ⟨['0', 'D'], rfl, rfl, hreturn ▸ rfl⟩
  · exact .inr ⟨['0', 'A'], rfl, rfl, hbreak ▸ rfl⟩
  · exact .inl ⟨hpercent, rfl⟩

/-- The characters of a property are escaped by the codes for properties. -/
theorem escapes_propertyChar : Escapes propertyCodes propertyChar := by
  intro c
  unfold propertyChar
  split_ifs with hcolon hcomma
  · exact .inr ⟨['3', 'A'], rfl, rfl, hcolon ▸ rfl⟩
  · exact .inr ⟨['2', 'C'], rfl, rfl, hcomma ▸ rfl⟩
  · refine (escapes_dataChar c).imp_right ?_
    rintro ⟨code, hlength, hwrite, hcode⟩
    refine ⟨code, hlength, hwrite, ?_⟩
    rw [propertyCodes, List.lookup_append, hcode, Option.some_or]

/-- Escaping is undone exactly. -/
theorem unescape_flatMap {codes : List (List Char × Char)} {write : Char → List Char}
    (h : Escapes codes write) (s : List Char) : unescape codes (s.flatMap write) = s := by
  induction s with
  | nil => rw [List.flatMap_nil, unescape]
  | cons c s ih =>
    rw [List.flatMap_cons]
    rcases h c with ⟨hc, hwrite⟩ | ⟨code, hlength, hwrite, hcode⟩
    · rw [hwrite, List.singleton_append, unescape, if_neg hc]
      exact congrArg (c :: ·) ih
    · rw [hwrite, List.cons_append, unescape, if_pos rfl, List.take_left' hlength, hcode,
        List.drop_left' hlength]
      exact congrArg (c :: ·) ih

/-- Where there is no percent sign there is nothing to replace. -/
theorem unescape_of_not_mem (codes : List (List Char × Char)) {s : List Char} (h : '%' ∉ s) :
    unescape codes s = s := by
  induction s with
  | nil => rw [unescape]
  | cons c s ih =>
    rw [List.mem_cons, not_or] at h
    rw [unescape, if_neg (Ne.symm h.1)]
    exact congrArg (c :: ·) (ih h.2)

/-- A text with `word` in place of every `c`. -/
def substitute (c : Char) (word s : List Char) : List Char :=
  s.flatMap fun d => if d = c then word else [d]

/-- The escapes of a message, written one kind after the other. The percent sign comes first, or
else those of the other escapes would be escaped. -/
theorem flatMap_dataChar (s : List Char) :
    s.flatMap dataChar =
      substitute '\n' ['%', '0', 'A'] (substitute '\r' ['%', '0', 'D']
        (substitute '%' ['%', '2', '5'] s)) := by
  simp only [substitute, List.flatMap_assoc]
  congr 1
  funext c
  unfold dataChar
  split_ifs with hpercent hreturn hbreak <;> simp_all

/-- In a property, two more kinds of escapes follow. -/
theorem flatMap_propertyChar (s : List Char) :
    s.flatMap propertyChar =
      substitute ',' ['%', '2', 'C'] (substitute ':' ['%', '3', 'A'] (s.flatMap dataChar)) := by
  simp only [substitute, List.flatMap_assoc]
  congr 1
  funext c
  unfold propertyChar dataChar
  split_ifs <;> simp_all

/-! ## Separators -/

/-- Whether a character ends a property, a command or a line. -/
def isSeparator (c : Char) : Bool :=
  c = ':' || c = ',' || c = '\r' || c = '\n'

/-- No separator is left in an escaped property. -/
theorem isSeparator_of_mem_propertyChar {c d : Char} (h : d ∈ propertyChar c) :
    isSeparator d = false := by
  unfold propertyChar dataChar at h
  split_ifs at h with hcolon hcomma hpercent hreturn hbreak
  case neg =>
    rw [List.mem_singleton.1 h]
    simp [isSeparator, hcolon, hcomma, hreturn, hbreak]
  all_goals
    simp only [List.mem_cons, List.not_mem_nil, or_false] at h
    rcases h with rfl | rfl | rfl <;> decide

/-- No line break is left in an escaped message. -/
theorem ne_break_of_mem_dataChar {c d : Char} (h : d ∈ dataChar c) : d ≠ '\r' ∧ d ≠ '\n' := by
  unfold dataChar at h
  split_ifs at h with hpercent hreturn hbreak
  case neg =>
    rw [List.mem_singleton.1 h]
    exact ⟨hreturn, hbreak⟩
  all_goals
    simp only [List.mem_cons, List.not_mem_nil, or_false] at h
    rcases h with rfl | rfl | rfl <;> decide

/-- No separator is in the text of a number. -/
theorem isSeparator_of_mem_toString {n : Nat} {c : Char} (h : c ∈ (toString n).toList) :
    isSeparator c = false := by
  have hdigit := Json.isDigit_of_mem_toString h
  cases hseparator : isSeparator c with
  | false => rfl
  | true =>
    simp only [isSeparator, Bool.or_eq_true, decide_eq_true_eq] at hseparator
    rcases hseparator with ((rfl | rfl) | rfl) | rfl <;> cases hdigit

/-- The name of a level holds neither a separator nor a space. -/
theorem plain_commandLevel (level : Severity) :
    ∀ c ∈ level.commandLevel.toList, isSeparator c = false ∧ c ≠ ' ' := by
  have hall : level.commandLevel.toList.all (fun c => !isSeparator c && c ≠ ' ') = true := by
    cases level <;> decide
  simpa using hall

/-- A property holds no separator. -/
theorem isSeparator_of_mem_properties {location : Location} {text : String}
    (htext : text ∈ properties location) : ∀ c ∈ text.toList, isSeparator c = false := by
  have hjoin {name value : String} (hname : name.toList.all (fun c => !isSeparator c) = true)
      (hvalue : ∀ c ∈ value.toList, isSeparator c = false) :
      ∀ c ∈ (name ++ value).toList, isSeparator c = false := by
    rw [String.toList_append]
    exact List.forall_mem_append.2 ⟨by simpa using hname, hvalue⟩
  have hpath : ∀ c ∈ (escapeProperty location.path.text).toList, isSeparator c = false := by
    intro c hc
    rw [escapeProperty, String.toList_ofList] at hc
    obtain ⟨d, -, hd⟩ := List.mem_flatMap.1 hc
    exact isSeparator_of_mem_propertyChar hd
  rw [properties, List.mem_cons, List.mem_append] at htext
  rcases htext with rfl | hline | hcolumn
  · exact hjoin (by decide) hpath
  · obtain ⟨line, -, rfl⟩ := Option.map_eq_some_iff.1 (Option.mem_toList.1 hline)
    exact hjoin (by decide) fun _ => isSeparator_of_mem_toString
  · obtain ⟨column, -, rfl⟩ := Option.map_eq_some_iff.1 (Option.mem_toList.1 hcolumn)
    exact hjoin (by decide) fun _ => isSeparator_of_mem_toString

/-! ## Parts of a command -/

/-- A text without colons is cut off at the first two. -/
theorem cutColons_append {before : List Char} (h : ':' ∉ before) (after : List Char) :
    cutColons (before ++ ':' :: ':' :: after) = some (before, after) := by
  induction before with
  | nil => rfl
  | cons c before ih =>
    rw [List.mem_cons, not_or] at h
    rw [List.cons_append, cutColons, ih h.2]
    · rfl
    · intro rest hc _
      exact h.1 hc.symm

/-- A severity is known from the name of its level. -/
theorem level?_commandLevel (level : Severity) : level? level.commandLevel.toList = some level := by
  cases level <;> decide

/-- A counter is read from its digits. -/
theorem count?_toString (n : Count) : count? (toString n.val).toList = some n := by
  have hdigits : (Nat.toDigits 10 n.val).all Text.isDigit = true :=
    List.all_eq_true.2 fun _ => Json.isDigit_of_mem_toDigits
  rw [Nat.toString_eq_ofList_toDigits, String.toList_ofList, count?,
    if_neg (by simp [Nat.toDigits_ne_nil]), if_pos hdigits, Json.decimalValue_toDigits]
  exact dif_pos n.val_le

/-- A property is read up to its first equals sign. -/
theorem property_append {name : List Char} (h : '=' ∉ name) (value : List Char) :
    property (name ++ '=' :: value) = (String.ofList name, unescape propertyCodes value) := by
  have hname : ∀ c ∈ name, decide (c ≠ '=') = true := by
    intro c hc
    simpa using ne_of_mem_of_not_mem hc h
  rw [property, List.takeWhile_append_of_pos hname, List.dropWhile_append_of_pos hname]
  simp

/-- The property for the file is cut at the first equals sign, which is not in its name. -/
theorem property_file (path : String) :
    property ("file=" ++ escapeProperty path).toList = ("file", path.toList) := by
  have hname : "file=".toList = "file".toList ++ ['='] := rfl
  have hvalue : unescape propertyCodes (escapeProperty path).toList = path.toList := by
    rw [escapeProperty, String.toList_ofList, unescape_flatMap escapes_propertyChar]
  rw [String.toList_append, hname, List.append_assoc, List.singleton_append,
    property_append (by decide), hvalue]
  rfl

/-- A property with a number is cut into its name and its digits. -/
theorem property_number {name : String} (h : '=' ∉ name.toList) (n : Nat) :
    property (name ++ "=" ++ toString n).toList = (name, (toString n).toList) := by
  have hplain : '%' ∉ (toString n).toList := Json.not_mem_toString (by decide) n
  have hequals : "=".toList = ['='] := rfl
  rw [String.toList_append, String.toList_append, hequals, List.append_assoc,
    List.singleton_append, property_append h, unescape_of_not_mem _ hplain, String.ofList_toList]

/-- A number is taken from the first property if this has its name. -/
theorem number?_cons {name : String} {value : List Char} {n : Count} (h : count? value = some n)
    (rest : List (String × List Char)) :
    number? name ((name, value) :: rest) = some (some n, rest) := by
  rw [number?, if_pos rfl, h, Option.map_some]

/-- No number is taken if the first property has another name. -/
theorem number?_of_ne {name : String} {first : String × List Char} (h : first.1 ≠ name)
    (rest : List (String × List Char)) :
    number? name (first :: rest) = some (none, first :: rest) := by
  rw [number?, if_neg h]

/-- A place is read back from its properties. -/
theorem location?_properties (location : Location) :
    location? ((properties location).map fun text => property text.toList) = some location := by
  obtain ⟨⟨path⟩, line, column⟩ := location
  have hline (n : Count) :
      property ("line=" ++ toString n.val).toList = ("line", (toString n.val).toList) := by
    have hname : "line=" = "line" ++ "=" := rfl
    rw [hname, property_number (by decide)]
  have hcolumn (n : Count) :
      property ("col=" ++ toString n.val).toList = ("col", (toString n.val).toList) := by
    have hname : "col=" = "col" ++ "=" := rfl
    rw [hname, property_number (by decide)]
  have hne : "col" ≠ "line" := by decide
  have hpath : String.ofList path.toList = path := String.ofList_toList
  rw [properties, List.map_cons, property_file, location?, if_pos rfl, hpath]
  cases line with
  | none =>
    cases column with
    | none => rfl
    | some column =>
      simp only [Option.map_none, Option.map_some, Option.toList, List.nil_append, List.map_cons,
        List.map_nil, hcolumn]
      rw [number?_of_ne hne]
      simp only [number?_cons (count?_toString column)]
  | some line =>
    cases column with
    | none =>
      simp only [Option.map_none, Option.map_some, Option.toList, List.append_nil, List.map_cons,
        List.map_nil, hline, number?_cons (count?_toString line)]
      rfl
    | some column =>
      simp only [Option.map_some, Option.toList, List.singleton_append, List.map_cons,
        List.map_nil, hline, hcolumn, number?_cons (count?_toString line),
        number?_cons (count?_toString column)]

/-! ## Commands -/

/-- The properties of a command with commas between them, after a space. A command without a place
has none. -/
def writtenProperties : Option Location → List Char
  | none => []
  | some location => ' ' :: [','].intercalate ((properties location).map String.toList)

/-- What stands between the first two colons of a command and the next two. -/
def head (notice : Notice) : List Char :=
  notice.severity.commandLevel.toList ++ writtenProperties notice.location

/-- A command is its head between pairs of colons, with the escaped message behind. -/
theorem toList_command (notice : Notice) :
    notice.command.toList =
      ':' :: ':' :: (head notice ++ ':' :: ':' :: notice.commandText.toList.flatMap dataChar) := by
  have hcolons : "::".toList = [':', ':'] := rfl
  have hspace : " ".toList = [' '] := rfl
  have hcomma : ",".toList = [','] := rfl
  cases hlocation : notice.location with
  | none =>
    simp [Notice.command, head, hlocation, writtenProperties, escapeData, hcolons]
  | some location =>
    simp [Notice.command, head, hlocation, writtenProperties, escapeData, hcolons, hspace, hcomma]

/-- What is in joined texts is a comma, or is in one of the texts. -/
theorem mem_intercalate_comma {texts : List (List Char)} {c : Char}
    (h : c ∈ [','].intercalate texts) : c = ',' ∨ ∃ text ∈ texts, c ∈ text := by
  induction texts with
  | nil => cases h
  | cons first rest ih =>
    cases rest with
    | nil => exact .inr ⟨first, List.mem_cons_self, by simpa using h⟩
    | cons next rest =>
      rw [List.intercalate_cons_cons, List.mem_append, List.mem_append, List.mem_singleton] at h
      rcases h with (hfirst | hcomma) | hrest
      · exact .inr ⟨first, List.mem_cons_self, hfirst⟩
      · exact .inl hcomma
      · rcases ih hrest with hcomma | ⟨text, htext, hc⟩
        · exact .inl hcomma
        · exact .inr ⟨text, List.mem_cons_of_mem _ htext, hc⟩

/-- Nothing in front of the message ends a command or a line. -/
theorem isSeparator_of_mem_head {notice : Notice} {c : Char} (h : c ∈ head notice) :
    c = ',' ∨ isSeparator c = false := by
  rcases List.mem_append.1 h with hlevel | hproperties
  · exact .inr (plain_commandLevel notice.severity c hlevel).1
  · cases hlocation : notice.location with
    | none =>
      rw [hlocation] at hproperties
      cases hproperties
    | some location =>
      rw [hlocation, writtenProperties, List.mem_cons] at hproperties
      rcases hproperties with rfl | hproperties
      · exact .inr rfl
      · refine (mem_intercalate_comma hproperties).imp_right ?_
        rintro ⟨_, htext, hc⟩
        obtain ⟨text, hmem, rfl⟩ := List.mem_map.1 htext
        exact isSeparator_of_mem_properties hmem c hc

/-- The head of a command holds no colon and no line break, so the colons behind it are found. -/
theorem not_mem_head (notice : Notice) : ':' ∉ head notice ∧ '\r' ∉ head notice ∧
    '\n' ∉ head notice := by
  refine ⟨fun h => ?_, fun h => ?_, fun h => ?_⟩
  all_goals
    have hseparator := isSeparator_of_mem_head h
    revert hseparator
    decide

/-- A command stands on one line. -/
theorem not_mem_command (notice : Notice) :
    '\r' ∉ notice.command.toList ∧ '\n' ∉ notice.command.toList := by
  obtain ⟨-, hreturn, hbreak⟩ := not_mem_head notice
  have hdata {c : Char} (hc : c ∈ notice.commandText.toList.flatMap dataChar) :
      c ≠ '\r' ∧ c ≠ '\n' := by
    obtain ⟨d, -, hd⟩ := List.mem_flatMap.1 hc
    exact ne_break_of_mem_dataChar hd
  rw [toList_command]
  simp only [List.mem_cons, List.mem_append, not_or]
  refine ⟨⟨by decide, by decide, hreturn, by decide, by decide, fun h => (hdata h).1 rfl⟩,
    by decide, by decide, hbreak, by decide, by decide, fun h => (hdata h).2 rfl⟩

/-- What a notice says in its command. -/
def remark (notice : Notice) : Remark where
  level := notice.severity
  location := notice.location
  text := "[" ++ notice.checkId.getD "intlxml" ++ ":" ++ notice.code ++ "] " ++ notice.message

/-- A place is read back from the properties that are written for it. -/
theorem place?_writtenProperties (location : Option Location) :
    place? (writtenProperties location) = some location := by
  cases location with
  | none => rfl
  | some location =>
    have hsplit : ([','].intercalate ((properties location).map String.toList)).splitOn ',' =
        (properties location).map String.toList := by
      refine List.splitOn_intercalate ',' ?_ (by simp [properties])
      intro _ htext hcomma
      obtain ⟨text, hmem, rfl⟩ := List.mem_map.1 htext
      cases isSeparator_of_mem_properties hmem ',' hcomma
    have hplace := location?_properties location
    rw [writtenProperties, place?, hsplit, List.map_map]
    exact congrArg (Option.map some) hplace

/-- The level ends where the properties start. -/
theorem level_of_head (notice : Notice) :
    (head notice).takeWhile (· ≠ ' ') = notice.severity.commandLevel.toList ∧
      (head notice).dropWhile (· ≠ ' ') = writtenProperties notice.location := by
  have hlevel : ∀ c ∈ notice.severity.commandLevel.toList, decide (c ≠ ' ') = true :=
    fun c hc => decide_eq_true (plain_commandLevel notice.severity c hc).2
  rw [head, List.takeWhile_append_of_pos hlevel, List.dropWhile_append_of_pos hlevel]
  cases notice.location with
  | none => exact ⟨List.append_nil _, rfl⟩
  | some location => exact ⟨List.append_nil _, rfl⟩

/-- A notice is read back from its command. -/
theorem read?_command (notice : Notice) : read? notice.command = some (remark notice) := by
  have hcut := cutColons_append (not_mem_head notice).1
    (notice.commandText.toList.flatMap dataChar)
  have htext : String.ofList (unescape dataCodes (notice.commandText.toList.flatMap dataChar)) =
      notice.commandText := by
    rw [unescape_flatMap escapes_dataChar, String.ofList_toList]
  obtain ⟨hlevel, hplace⟩ := level_of_head notice
  rw [read?, toList_command]
  simp only [hcut, Option.bind_eq_bind, Option.bind_some, htext, hlevel, level?_commandLevel,
    hplace, place?_writtenProperties]
  rfl

example : read? "::error file=a%2Cb%3A%3A.xml,col=7::[x:y] 50%2525::notice::" =
    some ⟨.error, some ⟨⟨"a,b::.xml"⟩, none, some 7⟩, "[x:y] 50%25::notice::"⟩ := by
  decide +kernel

/-! ## Logs -/

/-- **A command says what its notice says**, whatever stands in the notice's check, code, message
and path, and stands on one line; for a finding, that is its level, its place and its text. So a log
of commands is read back line by line as the notices that were written, without any that was not. -/
theorem commands_read_back :
    (∀ notice : Notice, '\r' ∉ notice.command.toList ∧ '\n' ∉ notice.command.toList ∧
      read? notice.command = some (remark notice)) ∧
    (∀ finding : Finding, read? finding.notice.command =
      some ⟨finding.severity, finding.location,
        "[" ++ finding.checkId ++ ":" ++ finding.code ++ "] " ++ finding.message⟩) ∧
    ∀ view : ReportView,
      (Text.lines (String.join (view.commands.map (· ++ "\n")))).map read? =
        view.notices.map fun notice => some (remark notice) := by
  refine ⟨fun notice => ⟨(not_mem_command notice).1, (not_mem_command notice).2,
    read?_command notice⟩, fun finding => read?_command finding.notice, fun view => ?_⟩
  have hlines : ∀ command ∈ view.commands, '\n' ∉ command.toList := by
    intro command hcommand
    obtain ⟨notice, -, rfl⟩ := List.mem_map.1 hcommand
    exact (not_mem_command notice).2
  rw [Text.lines_join hlines, ReportView.commands, List.map_map]
  exact List.map_congr_left fun notice _ => read?_command notice

end Command

end LocaleLint
