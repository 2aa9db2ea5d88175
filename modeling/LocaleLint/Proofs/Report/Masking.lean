import LocaleLint.Report.Masking
import Mathlib.Data.List.Infix

/-!
# What masking hides

A place in a value is a path of steps, and what shows there, besides the parts that further steps
lead to, is its head: the value itself if it has no parts, and else the number of its items or its
keys. A value is given by the heads at all places (`eq_of_headAt`).

Masking keeps the head at each place that does not vary between runs (`headAt_masked`), and where
a path comes to a place that varies for the first time, the mask is found if anything was there
(`at?_masked_of_varies`). Whether something was there is told by the head one step before, so both
together give all heads of a masked value. The main result is `masked_eq_iff`: masked values are
equal exactly when the heads are at all places that do not vary.
-/

set_option autoImplicit false

namespace LocaleLint.Json

/-! ## Places -/

/-- A step from a value to one of its parts. -/
inductive Step where
  | item (index : Nat)
  | member (index : Nat) (key : String)
deriving DecidableEq, Repr

/-- The part of a value that a step leads to. -/
def child? : Json → Step → Option Json
  | .array items, .item index => items[index]?
  | .object members, .member index key =>
    members[index]?.bind fun member => if member.1 = key then some member.2 else none
  | _, _ => none

/-- The value that a path leads to. -/
def at? : Json → List Step → Option Json
  | value, [] => some value
  | value, step :: path => (value.child? step).bind (at? · path)

/-- What shows of a value besides its parts. -/
inductive Head where
  | leaf (value : Json)
  | array (length : Nat)
  | object (keys : List String)

/-- What shows of the value besides its parts: all of it if it has none. -/
def head : Json → Head
  | .array items => .array items.length
  | .object members => .object (members.map Prod.fst)
  | value => .leaf value

/-- Whether a step leads on from a value with this head. -/
def Head.admits : Head → Step → Bool
  | .array length, .item index => decide (index < length)
  | .object keys, .member index key => decide (keys[index]? = some key)
  | _, _ => false

/-- What shows at the end of a path. -/
def headAt (value : Json) (path : List Step) : Option Head :=
  (value.at? path).map head

/-- The key of a member; an item has none. -/
def Step.key? : Step → Option String
  | .item _ => none
  | .member _ key => some key

/-- Whether a step leads to a time. -/
def Step.IsTime (step : Step) : Prop :=
  ∃ key ∈ timeKeys, step.key? = some key

instance (step : Step) : Decidable step.IsTime :=
  inferInstanceAs (Decidable (∃ key ∈ timeKeys, step.key? = some key))

/-- Whether this is the head of an object with all keys of a report. -/
def Head.IsReport : Head → Prop
  | .object keys => ∀ key ∈ reportKeys, key ∈ keys
  | _ => False

instance : (head : Head) → Decidable head.IsReport
  | .leaf _ => .isFalse id
  | .array _ => .isFalse id
  | .object keys => inferInstanceAs (Decidable (∀ key ∈ reportKeys, key ∈ keys))

/-- Whether a path leads to what differs between runs: to a time or into it, or to the version of
the tool of a report or into it. -/
def Varies (value : Json) (path : List Step) : Prop :=
  (∃ step ∈ path, step.IsTime) ∨
    value.head.IsReport ∧ [some "tool", some "version"] <+: path.map Step.key?

/-- What stands in place of the part that a step leads to. -/
def Step.mask (step : Step) : String :=
  if step.IsTime then timestampMask else versionMask

/-- A path that goes on leads on from where its front leads. -/
theorem at?_append (value : Json) (path rest : List Step) :
    value.at? (path ++ rest) = (value.at? path).bind (at? · rest) := by
  induction path generalizing value with
  | nil => rfl
  | cons step path ih =>
    rw [List.cons_append, at?, at?, Option.bind_assoc]
    exact congrArg _ (funext fun part => ih part)

/-- One more step leads on from where the steps before it lead. -/
theorem at?_append_singleton (value : Json) (path : List Step) (step : Step) :
    value.at? (path ++ [step]) = (value.at? path).bind (child? · step) := by
  rw [at?_append]
  refine congrArg _ (funext fun part => ?_)
  rw [at?]
  exact Option.bind_fun_some _

/-- What shows at the end of a path shows there from the first part on, too. -/
theorem headAt_cons {value part : Json} {step : Step} (h : value.child? step = some part)
    (path : List Step) : value.headAt (step :: path) = part.headAt path := by
  rw [headAt, at?, h, Option.bind_some, headAt]

/-- The step to a member by its index and key leads to its value. -/
theorem child?_member {members : List (String × Json)} {index : Nat} (h : index < members.length) :
    (object members).child? (.member index members[index].1) = some members[index].2 := by
  rw [child?, List.getElem?_eq_getElem h, Option.bind_some, if_pos rfl]

/-- The head of a value tells which steps lead to a part. -/
theorem isSome_child? (value : Json) (step : Step) :
    (value.child? step).isSome = value.head.admits step := by
  cases value with
  | array items =>
    cases step with
    | item index =>
      by_cases h : index < items.length <;> simp [child?, head, Head.admits, h]
    | member _ _ => rfl
  | object members =>
    cases step with
    | item _ => rfl
    | member index key =>
      rw [child?, head, Head.admits, List.getElem?_map]
      cases members[index]? with
      | none => rfl
      | some member =>
        by_cases h : member.1 = key
        · simp [h]
        · simp [h]
  | _ => cases step <;> rfl

/-- A part is smaller than what it is a part of. -/
theorem sizeOf_lt_of_child? {value part : Json} {step : Step} (h : value.child? step = some part) :
    sizeOf part < sizeOf value := by
  cases value with
  | array items =>
    cases step with
    | item index =>
      have hpart := List.sizeOf_lt_of_mem (List.mem_of_getElem? h)
      rw [array.sizeOf_spec]
      omega
    | member _ _ => cases h
  | object members =>
    cases step with
    | item _ => cases h
    | member index key =>
      obtain ⟨⟨found, value⟩, hmember, hfound⟩ := Option.bind_eq_some_iff.1 h
      obtain ⟨-, hvalue⟩ := Option.ite_none_right_eq_some.1 hfound
      obtain rfl : value = part := Option.some.inj hvalue
      have hmember := List.sizeOf_lt_of_mem (List.mem_of_getElem? hmember)
      rw [Prod.mk.sizeOf_spec] at hmember
      rw [object.sizeOf_spec]
      omega
  | _ => cases step <;> cases h

/-- What holds of a value when it holds of its parts holds of every value. -/
@[elab_as_elim]
theorem induction_child {motive : Json → Prop}
    (h : ∀ value, (∀ step part, value.child? step = some part → motive part) → motive value)
    (value : Json) : motive value :=
  h value fun _ part _ => induction_child h part
termination_by value
decreasing_by exact sizeOf_lt_of_child? ‹_›

/-- Values with the same head at each place are equal. -/
theorem eq_of_headAt {a b : Json} (h : ∀ path, a.headAt path = b.headAt path) : a = b := by
  induction a using induction_child generalizing b with
  | h a ih =>
  have hhead : a.head = b.head := Option.some.inj (h [])
  have hpart : ∀ step {part other}, a.child? step = some part → b.child? step = some other →
      part = other := by
    intro step part other ha hb
    refine ih step part ha fun path => ?_
    rw [← headAt_cons ha, ← headAt_cons hb, h]
  cases a with
  | array items =>
    cases b with
    | array others =>
      have hlength : items.length = others.length := by simpa [head] using hhead
      refine congrArg _ (List.ext_getElem hlength fun index hitem hother => ?_)
      exact hpart (.item index) (List.getElem?_eq_getElem hitem)
        (List.getElem?_eq_getElem hother)
    | _ => simp [head] at hhead
  | object members =>
    cases b with
    | object others =>
      have hkeys : members.map Prod.fst = others.map Prod.fst := by simpa [head] using hhead
      have hlength : members.length = others.length := by
        simpa using congrArg List.length hkeys
      refine congrArg _ (List.ext_getElem hlength fun index hmember hother => ?_)
      have hkey : others[index].1 = members[index].1 := by
        simpa [hmember, hother] using (congrArg (fun keys => keys[index]?) hkeys).symm
      refine Prod.ext hkey.symm (hpart _ (child?_member hmember) ?_)
      rw [← hkey]
      exact child?_member hother
    | _ => simp [head] at hhead
  | _ => cases b <;> simp_all [head]

/-! ## Changes of parts -/

/-- Whether a value becomes another by a change of each part that keeps the value's head. -/
structure ChangesParts (change : Step → Json → Json) (value result : Json) : Prop where
  head : result.head = value.head
  child? (step : Step) : result.child? step = (value.child? step).map (change step)

/-- The members with each value changed by a function of its key. -/
def mapMembers (f : String → Json → Json) (members : List (String × Json)) :
    List (String × Json) :=
  members.map fun member => (member.1, f member.1 member.2)

section

variable {change : Step → Json → Json}

/-- A change that leaves every part as it is makes no other value. -/
theorem changesParts_self {value : Json}
    (h : ∀ step part, value.child? step = some part → change step part = part) :
    ChangesParts change value value := by
  refine ⟨rfl, fun step => ?_⟩
  cases hpart : value.child? step with
  | none => rfl
  | some part => rw [Option.map_some, h step part hpart]

/-- A value without parts stays as it is. -/
theorem changesParts_leaf {value leaf : Json} (h : value.head = .leaf leaf) :
    ChangesParts change value value := by
  refine changesParts_self fun step part hpart => ?_
  have hnone := isSome_child? value step
  rw [h, hpart] at hnone
  cases step <;> cases hnone

/-- A change of all items alike changes the parts of an array. -/
theorem changesParts_array {f : Json → Json} (h : ∀ index, change (.item index) = f)
    (items : List Json) : ChangesParts change (array items) (array (items.map f)) := by
  refine ⟨by rw [head, head, List.length_map], fun step => ?_⟩
  cases step with
  | item index => rw [child?, child?, List.getElem?_map, h]
  | member _ _ => rfl

/-- A change of all members by their keys changes the parts of an object. -/
theorem changesParts_object {f : String → Json → Json}
    (h : ∀ index key, change (.member index key) = f key) (members : List (String × Json)) :
    ChangesParts change (object members) (object (mapMembers f members)) := by
  refine ⟨by rw [head, head, mapMembers, List.map_map]; rfl, fun step => ?_⟩
  cases step with
  | item _ => rfl
  | member index key =>
    rw [child?, child?, mapMembers, List.getElem?_map, h]
    cases members[index]? with
    | none => rfl
    | some member =>
      rw [Option.map_some, Option.bind_some, Option.bind_some]
      by_cases hkey : member.1 = key
      · rw [if_pos hkey, if_pos hkey, hkey]
        rfl
      · rw [if_neg hkey, if_neg hkey]
        rfl

end

/-- Times are masked in every item of a sequence. -/
theorem maskTimesInItems_eq_map (items : List Json) :
    maskTimesInItems items = items.map maskTimes := by
  induction items with
  | nil => rw [maskTimesInItems]; rfl
  | cons item rest ih => rw [maskTimesInItems, ih]; rfl

/-- A member under the key of a time is masked, and times are masked in every other. -/
theorem maskTimesInMembers_eq_mapMembers (members : List (String × Json)) :
    maskTimesInMembers members =
      mapMembers (fun key part =>
        if timeKeys.contains key then .string timestampMask else part.maskTimes) members := by
  induction members with
  | nil => rw [maskTimesInMembers]; rfl
  | cons member rest ih =>
    obtain ⟨key, value⟩ := member
    rw [maskTimesInMembers, ih]
    rfl

/-- Replacing a member changes the one under its key, and no other. -/
theorem replaceMember_eq_mapMembers (key : String) (f : Json → Json)
    (members : List (String × Json)) :
    replaceMember key f members =
      mapMembers (fun other part => if other = key then f part else part) members := by
  refine List.map_congr_left fun member _ => ?_
  by_cases h : member.1 = key
  · simp only [if_pos h]
  · simp only [if_neg h]

/-- Times are masked, and in other parts the times. -/
theorem changesParts_maskTimes (value : Json) :
    ChangesParts (fun step part => if step.IsTime then .string timestampMask else part.maskTimes)
      value value.maskTimes := by
  cases value with
  | array items =>
    rw [maskTimes, maskTimesInItems_eq_map]
    refine changesParts_array (fun index => funext fun part => if_neg ?_) items
    rintro ⟨key, -, hkey⟩
    cases hkey
  | object members =>
    rw [maskTimes, maskTimesInMembers_eq_mapMembers]
    refine changesParts_object (fun index key => funext fun part => ?_) members
    simp [Step.IsTime, Step.key?]
  | _ => simpa only [maskTimes] using changesParts_leaf rfl

/-- Masking the version changes the part under its key. -/
theorem changesParts_maskVersion (value : Json) :
    ChangesParts
      (fun step part => if step.key? = some "version" then .string versionMask else part)
      value value.maskVersion := by
  cases value with
  | array items =>
    refine changesParts_self fun step part hpart => ?_
    cases step with
    | item _ => rfl
    | member _ _ => cases hpart
  | object members =>
    rw [maskVersion, replaceMember_eq_mapMembers]
    refine changesParts_object (fun index key => funext fun part => ?_) members
    simp only [Step.key?, Option.some.injEq]
  | _ => exact changesParts_leaf rfl

/-- Members are those of a report exactly if the head of their object says so. -/
theorem isReport_iff (members : List (String × Json)) :
    isReport members = true ↔ (object members).head.IsReport := by
  simp [isReport, head, Head.IsReport]

/-- Masking the tool changes this part of a report, and nothing of other values. -/
theorem changesParts_maskTool (value : Json) :
    ChangesParts
      (fun step part =>
        if value.head.IsReport ∧ step.key? = some "tool" then part.maskVersion else part)
      value value.maskTool := by
  by_cases hreport : value.head.IsReport
  · cases value with
    | object members =>
      rw [maskTool, if_pos ((isReport_iff members).2 hreport), replaceMember_eq_mapMembers]
      refine changesParts_object (fun index key => funext fun part => ?_) members
      simp only [hreport, true_and, Step.key?, Option.some.injEq]
    | _ => cases hreport
  · have hsame : value.maskTool = value := by
      cases value with
      | object members => rw [maskTool, if_neg (mt (isReport_iff members).1 hreport)]
      | _ => rfl
    rw [hsame]
    exact changesParts_self fun step part _ => if_neg fun h => hreport h.1

/-! ## Masking at a place -/

/-- Masking times changes parts alone, never what else shows of a value. -/
theorem head_comp_maskTimes : head ∘ maskTimes = head :=
  funext fun value => (changesParts_maskTimes value).head

/-- Along a path without times masking them can be left to the end. -/
theorem at?_maskTimes {path : List Step} (h : ∀ step ∈ path, ¬step.IsTime) (value : Json) :
    value.maskTimes.at? path = (value.at? path).map maskTimes := by
  induction path generalizing value with
  | nil => rfl
  | cons step path ih =>
    obtain ⟨hstep, hpath⟩ := List.forall_mem_cons.1 h
    rw [at?, (changesParts_maskTimes value).child?, Option.bind_map, at?, Option.map_bind]
    refine congrArg _ (funext fun part => ?_)
    rw [Function.comp_apply, if_neg hstep, ih hpath, Function.comp_apply]

/-- At the first time on a path its mask is found if anything was there. -/
theorem at?_maskTimes_of_isTime {path : List Step} (h : ∀ step ∈ path, ¬step.IsTime) {step : Step}
    (htime : step.IsTime) (value : Json) :
    value.maskTimes.at? (path ++ [step]) =
      (value.at? (path ++ [step])).map fun _ => .string timestampMask := by
  rw [at?_append_singleton, at?_maskTimes h, Option.bind_map, at?_append_singleton, Option.map_bind]
  refine congrArg _ (funext fun part => ?_)
  rw [Function.comp_apply, (changesParts_maskTimes part).child?]
  simp only [if_pos htime, Function.comp_apply]

/-- Only the version of the tool changes. -/
theorem headAt_maskTool {value : Json} {path : List Step}
    (h : ¬(value.head.IsReport ∧ [some "tool", some "version"] <+: path.map Step.key?)) :
    value.maskTool.headAt path = value.headAt path := by
  cases path with
  | nil => exact congrArg some (changesParts_maskTool value).head
  | cons first path =>
    rw [headAt, headAt, at?, at?, (changesParts_maskTool value).child?]
    cases value.child? first with
    | none => rfl
    | some part =>
      rw [Option.map_some, Option.bind_some, Option.bind_some]
      by_cases htool : value.head.IsReport ∧ first.key? = some "tool"
      · rw [if_pos htool]
        cases path with
        | nil => exact congrArg some (changesParts_maskVersion part).head
        | cons second path =>
          have hsecond : second.key? ≠ some "version" := by
            intro hversion
            refine h ⟨htool.1, ?_⟩
            rw [List.map_cons, List.map_cons, htool.2, hversion]
            exact ⟨_, rfl⟩
          rw [at?, at?, (changesParts_maskVersion part).child?]
          simp only [if_neg hsecond, Option.map_id']
      · rw [if_neg htool]

/-- The version of the tool of a report is masked, if there is one. -/
theorem at?_maskTool {value : Json} {first second : Step} (hreport : value.head.IsReport)
    (hfirst : first.key? = some "tool") (hsecond : second.key? = some "version") :
    value.maskTool.at? [first, second] =
      (value.at? [first, second]).map fun _ => .string versionMask := by
  rw [at?, at?, (changesParts_maskTool value).child?]
  cases value.child? first with
  | none => rfl
  | some part =>
    rw [Option.map_some, Option.bind_some, Option.bind_some, if_pos ⟨hreport, hfirst⟩, at?, at?,
      (changesParts_maskVersion part).child?]
    cases part.child? second with
    | none => rfl
    | some inner =>
      rw [Option.map_some, if_pos hsecond]
      rfl

/-! ## What varies -/

/-- No value varies as a whole. -/
theorem not_varies_nil (value : Json) : ¬value.Varies [] := by
  simp [Varies]

/-- A path to what does not vary leads through no time. -/
theorem not_isTime_of_not_varies {value : Json} {path : List Step} (h : ¬value.Varies path) :
    ∀ step ∈ path, ¬step.IsTime :=
  fun step hstep htime => h (.inl ⟨step, hstep, htime⟩)

/-- Which places vary is told by the head of the whole value. -/
theorem varies_congr {a b : Json} (h : a.head = b.head) (path : List Step) :
    a.Varies path ↔ b.Varies path := by
  rw [Varies, Varies, h]

/-- A path to what varies comes to it at one of its steps. -/
theorem exists_of_varies {value : Json} {path : List Step} (h : value.Varies path) :
    ∃ outer step rest, path = outer ++ [step] ++ rest ∧ ¬value.Varies outer ∧
      value.Varies (outer ++ [step]) := by
  -- From the end of the path, since `Varies` asks about how a path starts.
  induction path using List.reverseRecOn with
  | nil => exact absurd h (not_varies_nil value)
  | append_singleton path step ih =>
    by_cases hpath : value.Varies path
    · obtain ⟨outer, first, rest, rfl, houter, hfirst⟩ := ih hpath
      exact ⟨outer, first, rest ++ [step], List.append_assoc _ _ _, houter, hfirst⟩
    · exact ⟨path, step, [], (List.append_nil _).symm, hpath, h⟩

/-- Besides times, nothing but the version of a report's tool is the first on a path to vary. -/
theorem tool_version_of_varies {value : Json} {path : List Step} {step : Step}
    (hpath : ¬value.Varies path) (h : value.Varies (path ++ [step])) (hstep : ¬step.IsTime) :
    value.head.IsReport ∧
      ∃ first, path = [first] ∧ first.key? = some "tool" ∧ step.key? = some "version" := by
  obtain ⟨other, hother, htime⟩ | ⟨hreport, hkeys⟩ := h
  · rcases List.mem_append.1 hother with hother | hother
    · exact absurd htime (not_isTime_of_not_varies hpath other hother)
    · rw [List.mem_singleton.1 hother] at htime
      exact absurd htime hstep
  · rw [List.map_append, List.map_singleton] at hkeys
    have hexact : [some "tool"] ++ [some "version"] = path.map Step.key? ++ [step.key?] :=
      (List.prefix_concat_iff.1 hkeys).resolve_right fun hshort => hpath (.inr ⟨hreport, hshort⟩)
    obtain ⟨htool, hversion⟩ := List.append_singleton_inj.1 hexact
    obtain ⟨first, hfirst, hkey⟩ := List.map_eq_singleton_iff.1 htool.symm
    exact ⟨hreport, first, hfirst, hkey, hversion.symm⟩

/-- The version of a tool further down does not vary. -/
theorem not_varies_nested {value : Json} {path : List Step} (hne : path ≠ [])
    (h : ¬value.Varies path) (tool version : Nat) :
    ¬value.Varies (path ++ [.member tool "tool", .member version "version"]) := by
  rintro (⟨step, hstep, htime⟩ | ⟨hreport, hkeys⟩)
  · rcases List.mem_append.1 hstep with hstep | hstep
    · exact not_isTime_of_not_varies h step hstep htime
    · simp only [List.mem_cons, List.not_mem_nil, or_false] at hstep
      rcases hstep with rfl | rfl
      · simp [Step.IsTime, Step.key?, timeKeys] at htime
      · simp [Step.IsTime, Step.key?, timeKeys] at htime
  · refine h (.inr ⟨hreport, ?_⟩)
    -- Two steps further down, the first two keys are those of the path itself or do not fit.
    cases path with
    | nil => exact absurd rfl hne
    | cons first path =>
      cases path with
      | nil => simp [List.cons_prefix_cons, Step.key?] at hkeys
      | cons second path => simpa [List.cons_prefix_cons] using hkeys

/-! ## Masked values -/

/-- Masking changes no place that does not vary. -/
theorem headAt_masked {value : Json} {path : List Step} (h : ¬value.Varies path) :
    value.masked.headAt path = value.headAt path := by
  rw [headAt, masked, at?_maskTimes (not_isTime_of_not_varies h), Option.map_map,
    head_comp_maskTimes]
  exact headAt_maskTool fun hversion => h (.inr hversion)

/-- The heads on the way tell whether a path leads on. -/
theorem isSome_at?_append_singleton {a b : Json} {path : List Step}
    (h : a.headAt path = b.headAt path) (step : Step) :
    (a.at? (path ++ [step])).isSome = (b.at? (path ++ [step])).isSome := by
  have hadmits : ∀ value : Json, (value.at? (path ++ [step])).isSome =
      (value.headAt path).any (·.admits step) := by
    intro value
    rw [at?_append_singleton, headAt]
    cases value.at? path with
    | none => rfl
    | some part => exact isSome_child? part step
  rw [hadmits, hadmits, h]

/-- Optional values that are there or missing alike stay so when each is replaced by the same. -/
theorem map_const_congr {α β : Type} {x y : Option α} (h : x.isSome = y.isSome) (b : β) :
    (x.map fun _ => b) = y.map fun _ => b := by
  match x, y, h with
  | none, none, _ => rfl
  | some _, some _, _ => rfl

/-- Where a path comes to what varies, the mask is found if anything was there. -/
theorem at?_masked_of_varies {value : Json} {path : List Step} {step : Step}
    (hpath : ¬value.Varies path) (h : value.Varies (path ++ [step])) :
    value.masked.at? (path ++ [step]) =
      (value.at? (path ++ [step])).map fun _ => .string step.mask := by
  have hsteps := not_isTime_of_not_varies hpath
  by_cases htime : step.IsTime
  · rw [masked, at?_maskTimes_of_isTime hsteps htime, Step.mask, if_pos htime]
    have hsame : value.maskTool.headAt path = value.headAt path :=
      headAt_maskTool fun hversion => hpath (.inr hversion)
    exact map_const_congr (isSome_at?_append_singleton hsame step) _
  · obtain ⟨hreport, first, rfl, htool, hversion⟩ := tool_version_of_varies hpath h htime
    have hall : ∀ other ∈ [first, step], ¬other.IsTime := by
      simpa using ⟨hsteps first (List.mem_singleton_self first), htime⟩
    rw [masked, List.singleton_append, at?_maskTimes hall, at?_maskTool hreport htool hversion,
      Option.map_map, Step.mask, if_neg htime]
    simp only [Function.comp_def, maskTimes]

/-- Masked values are equal if the heads are at all places that do not vary. -/
theorem masked_congr {a b : Json}
    (h : ∀ path, ¬a.Varies path → a.headAt path = b.headAt path) : a.masked = b.masked := by
  have hvaries : ∀ path, a.Varies path ↔ b.Varies path :=
    varies_congr (Option.some.inj (h [] (not_varies_nil a)))
  refine eq_of_headAt fun path => ?_
  by_cases hpath : a.Varies path
  · -- What is at the end of the path is looked up in the mask, which is the same on both sides.
    obtain ⟨outer, step, rest, rfl, houter, hstep⟩ := exists_of_varies hpath
    have hmasked : a.masked.at? (outer ++ [step]) = b.masked.at? (outer ++ [step]) := by
      rw [at?_masked_of_varies houter hstep,
        at?_masked_of_varies (mt (hvaries _).2 houter) ((hvaries _).1 hstep)]
      exact map_const_congr (isSome_at?_append_singleton (h outer houter) step) _
    rw [headAt, headAt, at?_append _ (outer ++ [step]), hmasked, ← at?_append]
  · rw [headAt_masked hpath, headAt_masked (mt (hvaries path).2 hpath), h path hpath]

/-- Masking hides exactly what varies between runs: the times at any depth, and in a report the
version of its tool. Masked values are equal when the heads are at all places that do not vary, and
these heads are kept; where something varies, its mask is found. The version of a tool further down
is kept, too. -/
theorem masked_eq_iff (a b : Json) :
    a.masked.masked = a.masked ∧
      (a.masked = b.masked ↔ ∀ path, ¬a.Varies path → a.headAt path = b.headAt path) ∧
      (∀ path, ¬a.Varies path → a.masked.headAt path = a.headAt path) ∧
      (∀ path step, ¬a.Varies path → a.Varies (path ++ [step]) →
        a.masked.at? (path ++ [step]) =
          (a.at? (path ++ [step])).map fun _ => .string step.mask) ∧
      ∀ path tool version, path ≠ [] → ¬a.Varies path →
        a.masked.headAt (path ++ [.member tool "tool", .member version "version"]) =
          a.headAt (path ++ [.member tool "tool", .member version "version"]) := by
  have hkept : ∀ value : Json, value.masked.head = value.head := fun value =>
    Option.some.inj (headAt_masked (not_varies_nil value))
  refine ⟨masked_congr fun path hpath => ?_, ⟨fun h path hpath => ?_, masked_congr⟩,
    fun path hpath => headAt_masked hpath,
    fun path step hpath hstep => at?_masked_of_varies hpath hstep,
    fun path tool version hne hpath => headAt_masked (not_varies_nested hne hpath tool version)⟩
  · exact headAt_masked (mt (varies_congr (hkept a) path).2 hpath)
  · have hhead : a.head = b.head := by rw [← hkept a, h, hkept b]
    rw [← headAt_masked hpath, h, headAt_masked (mt (varies_congr hhead path).2 hpath)]

/-- A finding in a report has a tool of its own. -/
example :
    let report (version time inner : String) : Json :=
      .object [("data", .null),
        ("findings", .array [.object [("tool", .object [("version", .string inner)]),
          ("started_at", .string time)]]),
        ("schema", .null), ("tool", .object [("version", .string version)]), ("verdict", .null)]
    (report "1" "2026-01-01" "2").masked = report versionMask timestampMask "2" :=
  rfl

end LocaleLint.Json
