import LocaleLint.Json.Reader
import LocaleLint.Proofs.Json.Tokens

/-!
# Reading a written value

A value that is written and read is the same value with the members of its objects in the order of
their keys (`parseWithin?_pretty`). The stack machine that reads the tokens of a value has nothing
to do with what is below the value on its stack (`readsValue`), so it is followed value by value:
the depth of a value is what the limit has to leave room for.
-/

set_option autoImplicit false

namespace LocaleLint.Json

/-! ## What is read back -/

mutual

/-- The value with the members of every object in the order of their keys. -/
def canonical : Json → Json
  | .null => .null
  | .bool value => .bool value
  | .int value => .int value
  | .float bits => .float bits
  | .string value => .string value
  | .array items => .array (canonicalItems items)
  | .object members => .object (Entries.sorted (canonicalMembers members))

/-- The items with the members of every object in the order of their keys. -/
def canonicalItems : List Json → List Json
  | [] => []
  | item :: rest => canonical item :: canonicalItems rest

/-- The members with those of every object in their values in the order of their keys. -/
def canonicalMembers : List (String × Json) → List (String × Json)
  | [] => []
  | (key, value) :: rest => (key, canonical value) :: canonicalMembers rest

end

/-- The canonical form of a sequence is made item by item. -/
theorem canonicalItems_eq_map (items : List Json) : canonicalItems items = items.map canonical := by
  induction items with
  | nil => rw [canonicalItems]; rfl
  | cons item rest ih => rw [canonicalItems, ih]; rfl

/-- The canonical form of the members is made value by value. -/
theorem canonicalMembers_eq_mapValues (members : List (String × Json)) :
    canonicalMembers members = Entries.mapValues canonical members := by
  induction members with
  | nil => rw [canonicalMembers]; rfl
  | cons member rest ih =>
    obtain ⟨key, value⟩ := member
    rw [canonicalMembers, ih]
    rfl

/-! ## The stack machine -/

namespace Expecting

variable {limit depth : Nat}

/-- Behind a token that is expected, reading goes on with the rest. -/
theorem run_cons {state next : Expecting} {token : Token} (h : state.step limit token = some next)
    (rest : List Token) : run limit state (token :: rest) = run limit next rest := by
  rw [run, h]

/-- Whether the tokens of a value are read as its canonical form wherever there is room for it. -/
def ReadsValue (limit depth : Nat) (value : Json) : Prop :=
  ∀ stack rest, stack.length + depth ≤ limit →
    run limit (.value stack) (tokens value ++ rest) = run limit (.after value.canonical stack) rest

/-- Every value has a first token, and this ends no array. -/
theorem exists_tokens_cons (value : Json) :
    ∃ token rest, tokens value = token :: rest ∧ token ≠ .arrayEnd := by
  cases value with
  | array items =>
    cases items with
    | nil => exact ⟨.arrayStart, _, by rw [tokens], by simp⟩
    | cons item rest => exact ⟨.arrayStart, _, by rw [tokens], by simp⟩
  | object members =>
    cases members with
    | nil => exact ⟨.objectStart, _, by rw [tokens], by simp⟩
    | cons member rest => exact ⟨.objectStart, _, by rw [tokens], by simp⟩
  | null => exact ⟨_, _, by rw [tokens], by simp⟩
  | bool value => exact ⟨_, _, by rw [tokens], by simp⟩
  | int value => exact ⟨_, _, by rw [tokens], by simp⟩
  | float bits => exact ⟨_, _, by rw [tokens], by simp⟩
  | string value => exact ⟨_, _, by rw [tokens], by simp⟩

/-- The first item of an array is read like any other value inside it. -/
theorem run_firstItem (stack : List Open) (value : Json) (rest : List Token) :
    run limit (.firstItem stack) (tokens value ++ rest) =
      run limit (.value (.array [] :: stack)) (tokens value ++ rest) := by
  obtain ⟨token, more, htokens, hne⟩ := exists_tokens_cons value
  have hstep : (firstItem stack).step limit token =
      (Expecting.value (.array [] :: stack)).step limit token := by
    cases token with
    | arrayEnd => exact absurd rfl hne
    | _ => rfl
  rw [htokens, List.cons_append, run, run, hstep]

/-- The items that follow the first of an array are read into it, up to its end. -/
theorem run_items {items : List Json} (h : ∀ item ∈ items, ReadsValue limit depth item)
    {stack : List Open} (hroom : stack.length + (depth + 1) ≤ limit) (done : List Json)
    (first : Json) (rest : List Token) :
    run limit (.after first (.array done :: stack)) (tokensOfItems items ++ .arrayEnd :: rest) =
      run limit (.after (.array (done.reverse ++ first :: items.map canonical)) stack) rest := by
  induction items generalizing done first with
  | nil =>
    rw [tokensOfItems, List.nil_append]
    apply run_cons
    simp [step, afterValue]
  | cons item items ih =>
    obtain ⟨hitem, hrest⟩ := List.forall_mem_cons.1 h
    have hcomma : (after first (.array done :: stack)).step limit .comma =
        some (.value (.array (first :: done) :: stack)) := rfl
    rw [tokensOfItems, List.cons_append, List.append_assoc, run_cons hcomma,
      hitem _ _ (by simp; omega), ih hrest]
    simp

/-- The members that follow the first of an object are read into it, up to its end, and sorted. -/
theorem run_members {members : List (String × Json)}
    (h : ∀ member ∈ members, ReadsValue limit depth member.2)
    {stack : List Open} (hroom : stack.length + (depth + 1) ≤ limit)
    (done : List (String × Json)) (key : String) (first : Json) (rest : List Token) :
    run limit (.after first (.object done key :: stack))
        (tokensOfMembers members ++ .objectEnd :: rest) =
      run limit (.after (.object (Entries.sorted (done.reverse ++ (key, first) ::
        Entries.mapValues canonical members))) stack) rest := by
  induction members generalizing done key first with
  | nil =>
    rw [tokensOfMembers, List.nil_append]
    apply run_cons
    simp [step, afterValue, Entries.mapValues]
  | cons member members ih =>
    obtain ⟨hmember, hrest⟩ := List.forall_mem_cons.1 h
    obtain ⟨name, value⟩ := member
    have hcomma : (after first (.object done key :: stack)).step limit .comma =
        some (.key ((key, first) :: done) stack) := rfl
    have hname : (Expecting.key ((key, first) :: done) stack).step limit (.scalar (.string name)) =
        some (.colon ((key, first) :: done) name stack) := rfl
    have hcolon : (colon ((key, first) :: done) name stack).step limit .colon =
        some (.value (.object ((key, first) :: done) name :: stack)) := rfl
    simp only [tokensOfMembers, List.cons_append, List.append_assoc]
    rw [run_cons hcomma, run_cons hname, run_cons hcolon, hmember _ _ (by simp; omega), ih hrest]
    simp [Entries.mapValues]

/-- A value is read as its canonical form, whatever stands below it on the stack. -/
theorem readsValue {value : Json} (h : Plain depth value) : ReadsValue limit depth value := by
  induction h with
  | null =>
    intro stack rest _
    rw [tokens, canonical]
    exact run_cons rfl rest
  | bool value =>
    intro stack rest _
    rw [tokens, canonical]
    exact run_cons rfl rest
  | int =>
    intro stack rest _
    rw [tokens, canonical]
    exact run_cons rfl rest
  | string value =>
    intro stack rest _
    rw [tokens, canonical]
    exact run_cons rfl rest
  | @array depth items _ ih =>
    intro stack rest hroom
    have hstart : (Expecting.value stack).step limit .arrayStart = some (.firstItem stack) :=
      if_pos (by omega)
    rw [canonical, canonicalItems_eq_map]
    cases items with
    | nil =>
      rw [tokens, List.cons_append, run_cons hstart]
      exact run_cons rfl rest
    | cons item items =>
      obtain ⟨hitem, hitems⟩ := List.forall_mem_cons.1 ih
      have hinside : (Open.array [] :: stack).length + depth ≤ limit := by simp; omega
      simp only [tokens, List.cons_append, List.append_assoc]
      rw [run_cons hstart, run_firstItem, hitem _ _ hinside, List.nil_append,
        run_items hitems hroom]
      rfl
  | @object depth members _ ih =>
    intro stack rest hroom
    have hstart : (Expecting.value stack).step limit .objectStart = some (.firstKey stack) :=
      if_pos (by omega)
    rw [canonical, canonicalMembers_eq_mapValues]
    cases members with
    | nil =>
      rw [tokens, List.cons_append, run_cons hstart]
      exact run_cons rfl rest
    | cons member members =>
      obtain ⟨hmember, hmembers⟩ := List.forall_mem_cons.1 ih
      obtain ⟨key, value⟩ := member
      have hkey : (firstKey stack).step limit (.scalar (.string key)) =
          some (.colon [] key stack) := rfl
      have hcolon : (colon [] key stack).step limit .colon =
          some (.value (.object [] key :: stack)) := rfl
      have hinside : (Open.object [] key :: stack).length + depth ≤ limit := by simp; omega
      simp only [tokens, List.cons_append, List.append_assoc]
      rw [run_cons hstart, run_cons hkey, run_cons hcolon, hmember _ _ hinside, List.nil_append,
        run_members hmembers hroom]
      rfl

end Expecting

/-- A value that is written is read as its canonical form. -/
theorem parseWithin?_pretty {limit depth : Nat} {value : Json} (h : Plain depth value)
    (hdepth : depth ≤ limit) : parseWithin? limit value.pretty = some value.canonical := by
  have hrun : Expecting.run limit (.value []) (tokens value ++ []) = _ :=
    Expecting.readsValue h [] [] (by simpa using hdepth)
  rw [List.append_nil] at hrun
  rw [parseWithin?, ofText_pretty h, Option.bind_some, ofTokens?, hrun]
  rfl

end LocaleLint.Json
