import LocaleLint.Entries

/-!
# Storing and grouping entries

What storing a value does to keyed entries in insertion order: what is found then (`get?_put`),
the keys it leaves, and the entries up to their order (`put_perm`, `putAll_perm`). Sorting entries
whose keys differ changes nothing in what is found (`lookup_sorted`), and entries that stand in the
order of their keys are left alone (`sorted_of_pairwise`). And what comes of gathering the
members of a list under their keys: one group for each key, in the order in which the keys
appear first, with the members of that key in order (`foldl_addToGroup`). Storing and gathering go
on unchanged when entries under some keys are left out (`filter_putAll`, `filter_grouped`) and when
values are replaced by what a function makes of them (`mapValues_putAll`, `mapValues_grouped`).
-/

set_option autoImplicit false

namespace LocaleLint.Entries

variable {α β : Type}

/-! ## Storing -/

/-- A key that is new is put behind the others. -/
theorem put_of_not_mem {entries : List (String × α)} {key : String} (value : α)
    (h : key ∉ entries.map Prod.fst) : put entries key value = entries ++ [(key, value)] := by
  induction entries with
  | nil => rfl
  | cons entry rest ih =>
    obtain ⟨k, v⟩ := entry
    simp only [List.map_cons, List.mem_cons, not_or] at h
    rw [put, if_neg (Ne.symm h.1), ih h.2, List.cons_append]

/-- A key keeps its place, and a new one comes last. -/
theorem keys_put (entries : List (String × α)) (key : String) (value : α) :
    (put entries key value).map Prod.fst =
      if key ∈ entries.map Prod.fst then entries.map Prod.fst
      else entries.map Prod.fst ++ [key] := by
  induction entries with
  | nil => simp [put]
  | cons entry rest ih =>
    obtain ⟨k, v⟩ := entry
    rw [put]
    by_cases h : k = key
    · simp [h]
    · simp only [if_neg h, List.map_cons, ih, List.mem_cons, Ne.symm h, false_or]
      split <;> simp

/-- A stored value is found under its key, and under every other key what was found before. -/
theorem get?_put (entries : List (String × α)) (key : String) (value : α) (other : String) :
    get? (put entries key value) other = if other = key then some value else get? entries other := by
  by_cases h : other = key
  · rw [if_pos h, h, get?_put_self]
  · rw [if_neg h]
    induction entries with
    | nil =>
      have hne : (other == key) = false := by simpa using h
      simp [put, get?, List.lookup_cons, hne]
    | cons entry rest ih =>
      obtain ⟨k, v⟩ := entry
      simp only [get?] at ih
      by_cases hk : k = key
      · have hne : (other == key) = false := by simpa using h
        simp [put, get?, hk, List.lookup_cons, hne]
      · simp only [put, if_neg hk, get?, List.lookup_cons, ih]

/-- Keys stay apart when an entry is put, since it takes the place of one with its key. -/
theorem nodup_keys_put {entries : List (String × α)} (key : String) (value : α)
    (h : (entries.map Prod.fst).Nodup) : ((put entries key value).map Prod.fst).Nodup := by
  rw [keys_put]
  split
  · exact h
  · next hkey =>
    refine List.nodup_append.2 ⟨h, by simp, fun other hother last hlast heq => hkey ?_⟩
    rw [← List.mem_singleton.1 hlast, ← heq]
    exact hother

/-- An entry that is there after one is put is the new one, or was there before. -/
theorem eq_or_mem_of_mem_put {entries : List (String × α)} {key : String} {value : α}
    {entry : String × α} (h : entry ∈ put entries key value) :
    entry = (key, value) ∨ entry ∈ entries := by
  induction entries with
  | nil => exact .inl (List.mem_singleton.1 h)
  | cons first rest ih =>
    obtain ⟨k, v⟩ := first
    rw [put] at h
    split at h
    · next hk =>
      subst hk
      exact (List.mem_cons.1 h).imp_right (List.mem_cons_of_mem _)
    · rcases List.mem_cons.1 h with rfl | hrest
      · exact .inr List.mem_cons_self
      · exact (ih hrest).imp_right (List.mem_cons_of_mem _)

/-- A changed value is stored in place of the one that was found. -/
theorem alter_eq_put (entries : List (String × α)) (key : String) (f : Option α → α) :
    alter entries key f = put entries key (f (get? entries key)) := by
  induction entries with
  | nil => rfl
  | cons entry rest ih =>
    obtain ⟨k, v⟩ := entry
    by_cases hk : k = key
    · simp [alter, put, get?, hk]
    · have hne : (key == k) = false := by simpa using Ne.symm hk
      rw [get?] at ih
      simp only [alter, put, if_neg hk, get?, List.lookup_cons, hne, ih]

/-- Storing a value replaces the entry of its key and keeps the others. -/
theorem put_perm {entries : List (String × α)} (key : String) (value : α)
    (h : (entries.map Prod.fst).Nodup) :
    (put entries key value).Perm
      (entries.filter (fun entry => entry.1 ≠ key) ++ [(key, value)]) := by
  induction entries with
  | nil => exact .refl _
  | cons entry rest ih =>
    obtain ⟨k, v⟩ := entry
    rw [List.map_cons, List.nodup_cons] at h
    rw [put]
    by_cases hk : k = key
    · have hrest : rest.filter (fun entry => entry.1 ≠ key) = rest := by
        refine List.filter_eq_self.2 fun other hother => ?_
        have hne : other.1 ≠ k := fun heq => h.1 (List.mem_map.2 ⟨other, hother, heq⟩)
        simpa [← hk] using hne
      rw [if_pos hk, List.filter_cons_of_neg (by simp [hk]), hrest, hk]
      exact (List.perm_append_singleton _ _).symm
    · rw [if_neg hk, List.filter_cons_of_pos (by simp [hk]), List.cons_append]
      exact (ih h.2).cons _

/-- Stores the values of a list in turn. -/
def putAll (entries news : List (String × α)) : List (String × α) :=
  news.foldl (fun entries new => put entries new.1 new.2) entries

/-- New keys come last, in order. -/
theorem putAll_of_disjoint {entries news : List (String × α)} (hnodup : (news.map Prod.fst).Nodup)
    (hnew : ∀ key ∈ news.map Prod.fst, key ∉ entries.map Prod.fst) :
    putAll entries news = entries ++ news := by
  induction news generalizing entries with
  | nil => simp [putAll]
  | cons new news ih =>
    rw [List.map_cons, List.nodup_cons] at hnodup
    have hput := put_of_not_mem new.2 (hnew new.1 (by simp))
    have hrest : putAll (entries ++ [new]) news = entries ++ [new] ++ news := by
      refine ih hnodup.2 fun key hkey hmem => ?_
      rw [List.map_append, List.mem_append] at hmem
      rcases hmem with hmem | hmem
      · exact hnew key (by simp [hkey]) hmem
      · exact hnodup.1 (by rwa [← List.mem_singleton.1 hmem])
    rw [putAll, List.foldl_cons, hput]
    simpa [putAll] using hrest

/-- Keys stay apart when entries are put one after another. -/
theorem nodup_keys_putAll {entries : List (String × α)} (news : List (String × α))
    (h : (entries.map Prod.fst).Nodup) : ((putAll entries news).map Prod.fst).Nodup := by
  induction news generalizing entries with
  | nil => exact h
  | cons new news ih => exact ih (nodup_keys_put new.1 new.2 h)

/-- Stored values replace the entries of their keys and keep the others. -/
theorem putAll_perm {entries news : List (String × α)} (hentries : (entries.map Prod.fst).Nodup)
    (hnews : (news.map Prod.fst).Nodup) :
    (putAll entries news).Perm
      (entries.filter (fun entry => entry.1 ∉ news.map Prod.fst) ++ news) := by
  induction news generalizing entries with
  | nil =>
    rw [List.append_nil, List.filter_eq_self.2 (by simp)]
    exact .refl _
  | cons new news ih =>
    obtain ⟨key, value⟩ := new
    rw [List.map_cons, List.nodup_cons] at hnews
    have hkeep : ((key, value) :: []).filter (fun entry => entry.1 ∉ news.map Prod.fst) =
        [(key, value)] := by
      rw [List.filter_cons_of_pos (by simpa using hnews.1), List.filter_nil]
    have hsplit : entries.filter (fun entry => entry.1 ∉ ((key, value) :: news).map Prod.fst) =
        (entries.filter (fun entry => entry.1 ≠ key)).filter
          (fun entry => entry.1 ∉ news.map Prod.fst) := by
      rw [List.filter_filter]
      refine List.filter_congr fun entry _ => ?_
      rw [List.map_cons, Bool.eq_iff_iff]
      simp [and_comm]
    rw [hsplit]
    refine (ih (nodup_keys_put key value hentries) hnews.2).trans ?_
    have hput := ((put_perm key value hentries).filter
      fun entry => entry.1 ∉ news.map Prod.fst).append_right news
    rwa [List.filter_append, hkeep, List.append_assoc, List.singleton_append] at hput

/-- Putting an entry and choosing entries by their keys can change places. -/
theorem filter_put (p : String → Bool) (entries : List (String × α)) (key : String) (value : α) :
    (put entries key value).filter (fun entry => p entry.1) =
      if p key then put (entries.filter fun entry => p entry.1) key value
      else entries.filter fun entry => p entry.1 := by
  induction entries with
  | nil => simp [put, List.filter_cons]
  | cons entry rest ih =>
    obtain ⟨k, v⟩ := entry
    by_cases hk : k = key
    · subst hk
      cases hp : p k <;> simp [put, hp]
    · cases hp : p k <;> cases hkey : p key <;> simp [put, hk, hp, hkey, ih]

/-- Entries that are stored under other keys do not matter to those that are looked at. -/
theorem filter_putAll (p : String → Bool) (entries news : List (String × α)) :
    (putAll entries news).filter (fun entry => p entry.1) =
      putAll (entries.filter fun entry => p entry.1) (news.filter fun entry => p entry.1) := by
  induction news generalizing entries with
  | nil => rfl
  | cons new news ih =>
    simp only [putAll] at ih
    rw [putAll, List.foldl_cons, ih, filter_put]
    cases hp : p new.1 <;> simp [hp, putAll]

/-- No entry has a value to change. -/
theorem mapValues_nil (f : α → β) : mapValues f [] = [] :=
  rfl

/-- Changing values changes the value of the first entry, and those of the rest. -/
theorem mapValues_cons (f : α → β) (entry : String × α) (rest : List (String × α)) :
    mapValues f (entry :: rest) = (entry.1, f entry.2) :: mapValues f rest :=
  rfl

/-- Values are changed in entries that are joined as they are in the parts. -/
theorem mapValues_append (f : α → β) (first second : List (String × α)) :
    mapValues f (first ++ second) = mapValues f first ++ mapValues f second :=
  List.map_append

/-- An entry can be put before or after all values are changed. -/
theorem mapValues_put (f : α → β) (entries : List (String × α)) (key : String) (value : α) :
    mapValues f (put entries key value) = put (mapValues f entries) key (f value) := by
  induction entries with
  | nil => rfl
  | cons entry rest ih =>
    obtain ⟨k, v⟩ := entry
    simp only [mapValues] at ih
    by_cases hk : k = key <;> simp [mapValues, put, hk, ih]

/-- Entries can be put before or after all values are changed. -/
theorem mapValues_putAll (f : α → β) (entries news : List (String × α)) :
    mapValues f (putAll entries news) = putAll (mapValues f entries) (mapValues f news) := by
  induction news generalizing entries with
  | nil => rfl
  | cons new news ih =>
    simp only [putAll] at ih
    rw [putAll, List.foldl_cons, ih, mapValues_put]
    rfl

/-! ## Sorting -/

/-- The first entry is what is looked up exactly if it has the key. -/
theorem lookup_cons_eq_ite {κ : Type} [BEq κ] [LawfulBEq κ] [DecidableEq κ] (entry : κ × α)
    (rest : List (κ × α)) (key : κ) :
    (entry :: rest).lookup key = if key = entry.1 then some entry.2 else rest.lookup key := by
  rw [List.lookup_cons]
  by_cases h : key = entry.1
  · simp [h]
  · have hne : (key == entry.1) = false := by simpa using h
    rw [hne, if_neg h]

/-- Putting an entry in its place in the order changes what is found under its key alone. -/
theorem lookup_putSorted (entries : List (String × α)) (key : String) (value : α)
    (other : String) :
    (putSorted entries key value).lookup other =
      if other = key then some value else entries.lookup other := by
  induction entries with
  | nil => rw [putSorted, lookup_cons_eq_ite]
  | cons entry rest ih =>
    obtain ⟨k, v⟩ := entry
    rw [putSorted]
    split
    · rw [lookup_cons_eq_ite]
    split
    · next hk =>
      subst hk
      rw [lookup_cons_eq_ite, lookup_cons_eq_ite]
      split <;> rfl
    · next hk =>
      rw [lookup_cons_eq_ite, lookup_cons_eq_ite, ih]
      by_cases hkey : other = key
      · rw [if_neg (by rintro rfl; exact hk hkey), if_pos hkey, if_pos hkey]
      · rw [if_neg hkey, if_neg hkey]

/-- An entry that is there after one is put in order is the new one, or was there before. -/
theorem mem_of_mem_putSorted {entries : List (String × α)} {key : String} {value : α}
    {member : String × α} (h : member ∈ putSorted entries key value) :
    member = (key, value) ∨ member ∈ entries := by
  induction entries with
  | nil => exact .inl (List.mem_singleton.1 h)
  | cons entry rest ih =>
    obtain ⟨k, v⟩ := entry
    rw [putSorted] at h
    split at h
    · exact List.mem_cons.1 h
    split at h
    · next hk =>
      rw [hk] at h
      exact (List.mem_cons.1 h).imp_right (List.mem_cons_of_mem _)
    · rcases List.mem_cons.1 h with rfl | h
      · exact .inr List.mem_cons_self
      · exact (ih h).imp_right (List.mem_cons_of_mem _)

/-- The keys go on ascending when a value is stored in their order. -/
theorem pairwise_keys_putSorted {entries : List (String × α)} (key : String) (value : α)
    (h : (entries.map Prod.fst).Pairwise (· < ·)) :
    ((putSorted entries key value).map Prod.fst).Pairwise (· < ·) := by
  induction entries with
  | nil => simp [putSorted]
  | cons entry rest ih =>
    obtain ⟨k, v⟩ := entry
    obtain ⟨hk, hrest⟩ := List.pairwise_cons.1 h
    rw [putSorted]
    split
    · next hlt =>
      refine List.pairwise_cons.2 ⟨fun later hlater => ?_, h⟩
      rcases List.mem_cons.1 hlater with rfl | hlater
      · exact hlt
      · exact String.lt_trans hlt (hk later hlater)
    · next hle =>
      split
      · exact h
      · next hne =>
        have hlt : k < key := Decidable.byContradiction fun hge =>
          hne (String.le_antisymm (String.not_lt.1 hle) (String.not_lt.1 hge))
        refine List.pairwise_cons.2 ⟨fun later hlater => ?_, ih hrest⟩
        obtain ⟨member, hmember, rfl⟩ := List.mem_map.1 hlater
        rcases mem_of_mem_putSorted hmember with rfl | hmember
        · exact hlt
        · exact hk member.1 (List.mem_map_of_mem hmember)

/-- Entries that are stored in the order of their keys, one after the other. -/
def putAllSorted (entries pairs : List (String × α)) : List (String × α) :=
  pairs.foldl (fun entries pair => putSorted entries pair.1 pair.2) entries

/-- An entry that is there after some are put in order is one of these, or was there before. -/
theorem mem_of_mem_putAllSorted {entries pairs : List (String × α)} {member : String × α}
    (h : member ∈ putAllSorted entries pairs) : member ∈ pairs ∨ member ∈ entries := by
  induction pairs generalizing entries with
  | nil => exact .inr h
  | cons pair pairs ih =>
    rcases ih h with hmem | hmem
    · exact .inl (List.mem_cons_of_mem _ hmem)
    · rcases mem_of_mem_putSorted hmem with rfl | hmem
      · exact .inl List.mem_cons_self
      · exact .inr hmem

/-- Sorting makes up no entries. -/
theorem mem_of_mem_sorted {pairs : List (String × α)} {member : String × α}
    (h : member ∈ sorted pairs) : member ∈ pairs :=
  (mem_of_mem_putAllSorted h).resolve_right List.not_mem_nil

/-- Of entries that are put in order the new ones are found first, if their keys differ. -/
theorem lookup_putAllSorted {pairs : List (String × α)} (h : (pairs.map Prod.fst).Nodup)
    (entries : List (String × α)) (key : String) :
    (putAllSorted entries pairs).lookup key =
      (pairs.lookup key).or (entries.lookup key) := by
  induction pairs generalizing entries with
  | nil => rfl
  | cons pair pairs ih =>
    rw [List.map_cons, List.nodup_cons] at h
    rw [putAllSorted, List.foldl_cons, ← putAllSorted, ih h.2, lookup_putSorted,
      lookup_cons_eq_ite]
    by_cases hkey : key = pair.1
    · have hnone : pairs.lookup key = none := by
        rw [List.lookup_eq_none_iff]
        intro other hother
        have hne : key ≠ other.1 := by
          intro hsame
          exact h.1 (hkey ▸ hsame ▸ List.mem_map_of_mem hother)
        simpa using hne
      rw [hnone, if_pos hkey, if_pos hkey]
      rfl
    · rw [if_neg hkey, if_neg hkey]

/-- Sorting changes nothing in what is found under the keys, if they differ. -/
theorem lookup_sorted {pairs : List (String × α)} (h : (pairs.map Prod.fst).Nodup)
    (key : String) : (sorted pairs).lookup key = pairs.lookup key := by
  have hstored := lookup_putAllSorted h [] key
  rwa [List.lookup_nil, Option.or_none] at hstored

/-- An entry whose key comes after all others is put at the end. -/
theorem putSorted_of_forall_lt {entries : List (String × α)} {key : String} (value : α)
    (h : ∀ entry ∈ entries, entry.1 < key) :
    putSorted entries key value = entries ++ [(key, value)] := by
  induction entries with
  | nil => rfl
  | cons entry rest ih =>
    obtain ⟨k, v⟩ := entry
    obtain ⟨hk, hrest⟩ := List.forall_mem_cons.1 h
    have hne : k ≠ key := by
      rintro rfl
      exact String.lt_irrefl k hk
    rw [putSorted, if_neg (String.lt_asymm hk), if_neg hne, ih hrest, List.cons_append]

/-- Entries that are in order already are put behind each other as they stand. -/
theorem putAllSorted_of_pairwise {entries pairs : List (String × α)}
    (h : ((entries ++ pairs).map Prod.fst).Pairwise (· < ·)) :
    putAllSorted entries pairs = entries ++ pairs := by
  induction pairs generalizing entries with
  | nil => exact (List.append_nil entries).symm
  | cons pair rest ih =>
    have hlt : ∀ entry ∈ entries, entry.1 < pair.1 := by
      intro entry hentry
      rw [List.map_append, List.pairwise_append] at h
      exact h.2.2 entry.1 (List.mem_map_of_mem hentry) pair.1 (by simp)
    rw [List.append_cons] at h ⊢
    rw [← ih h, ← putSorted_of_forall_lt _ hlt]
    rfl

/-- Entries that stand in the order of their keys are sorted. -/
theorem sorted_of_pairwise {pairs : List (String × α)} (h : (pairs.map Prod.fst).Pairwise (· < ·)) :
    sorted pairs = pairs :=
  putAllSorted_of_pairwise h

/-! ## Grouping -/

/-- Adds a member to the group of its key. -/
def addToGroup (groups : List (String × List α)) (member : String × α) :
    List (String × List α) :=
  alter groups member.1 fun earlier => earlier.getD [] ++ [member.2]

/-- The members of a list that have a key, in order. -/
def ofKey (members : List (String × α)) (key : String) : List α :=
  (members.filter fun member => member.1 = key).map Prod.snd

/-- One more member adds its value to those of its own key, and to no others. -/
theorem ofKey_concat (members : List (String × α)) (member : String × α) (key : String) :
    ofKey (members ++ [member]) key =
      if member.1 = key then ofKey members key ++ [member.2] else ofKey members key := by
  rw [ofKey, List.filter_append, List.map_append]
  split
  · next h => simp [ofKey, h]
  · next h => simp [ofKey, h]

/-- A member goes to the end of its group, or makes a group of its own after the others. -/
theorem addToGroup_map (keys : List String) (hnodup : keys.Nodup) (f : String → List α)
    (member : String × α) :
    addToGroup (keys.map fun key => (key, f key)) member =
      if member.1 ∈ keys then
        keys.map fun key => (key, if member.1 = key then f key ++ [member.2] else f key)
      else (keys.map fun key => (key, f key)) ++ [(member.1, [member.2])] := by
  induction keys with
  | nil => simp [addToGroup, alter]
  | cons key keys ih =>
    rw [List.nodup_cons] at hnodup
    have hrest := ih hnodup.2
    simp only [addToGroup] at hrest
    simp only [addToGroup, List.map_cons, alter]
    by_cases h : key = member.1
    · subst h
      have hkeep : keys.map (fun other => (other, f other)) =
          keys.map fun other => (other, if member.1 = other then f other ++ [member.2] else f other) := by
        refine List.map_congr_left fun other hother => ?_
        rw [if_neg]
        rintro rfl
        exact hnodup.1 hother
      simp [← hkeep]
    · simp only [if_neg h, hrest, List.mem_cons, Ne.symm h, false_or]
      split <;> simp

/-- Without repetitions the members stand in the order in which they stood. -/
theorem eraseDups_sublist [BEq α] (members : List α) : members.eraseDups.Sublist members := by
  cases members with
  | nil => exact .slnil
  | cons member rest =>
    rw [List.eraseDups_cons]
    exact ((eraseDups_sublist _).trans List.filter_sublist).cons_cons member
termination_by members.length
decreasing_by
  have := List.length_filter_le (fun other => !other == member) rest
  simp only [List.length_cons]
  omega

/-- Without repetitions the members are apart. -/
theorem nodup_eraseDups [BEq α] [LawfulBEq α] (members : List α) : members.eraseDups.Nodup := by
  cases members with
  | nil => simp
  | cons member rest =>
    rw [List.eraseDups_cons, List.nodup_cons]
    refine ⟨fun hmem => ?_, nodup_eraseDups _⟩
    simpa using List.mem_eraseDups.1 hmem
termination_by members.length
decreasing_by
  have := List.length_filter_le (fun other => !other == member) rest
  simp only [List.length_cons]
  omega

/-- One group for each key, in the order in which the keys appear first, with the members of
that key in order. -/
def grouped (members : List (String × α)) : List (String × List α) :=
  (members.map Prod.fst).eraseDups.map fun key => (key, ofKey members key)

/-- One more member, added to the groups of those before it. -/
theorem addToGroup_grouped (members : List (String × α)) (member : String × α) :
    addToGroup (grouped members) member = grouped (members ++ [member]) := by
  rw [grouped, addToGroup_map _ (nodup_eraseDups _), grouped, List.map_append,
    List.eraseDups_append]
  simp only [ofKey_concat, List.mem_eraseDups]
  split
  · next h => simp [List.removeAll, h]
  · next h =>
    have hnone : ofKey members member.1 = [] := by
      simp only [ofKey, List.map_eq_nil_iff, List.filter_eq_nil_iff, decide_eq_true_eq]
      exact fun other hother heq => h (heq ▸ List.mem_map_of_mem hother)
    have hkeep : (members.map Prod.fst).eraseDups.map (fun key => (key, ofKey members key)) =
        (members.map Prod.fst).eraseDups.map fun key =>
          (key, if member.1 = key then ofKey members key ++ [member.2] else ofKey members key) := by
      refine List.map_congr_left fun key hkey => ?_
      rw [if_neg]
      rintro rfl
      exact h (List.mem_eraseDups.1 hkey)
    simp [List.removeAll, h, hkeep, hnone, List.eraseDups_cons]

/-- Adding members to groups one by one groups them all. -/
theorem foldl_addToGroup_grouped (earlier members : List (String × α)) :
    members.foldl addToGroup (grouped earlier) = grouped (earlier ++ members) := by
  induction members generalizing earlier with
  | nil => rw [List.append_nil]; rfl
  | cons member members ih => rw [List.foldl_cons, addToGroup_grouped, ih, ← List.append_cons]

/-- Gathering members one after the other gives a group for each key. -/
theorem foldl_addToGroup (members : List (String × α)) :
    members.foldl addToGroup [] = grouped members :=
  foldl_addToGroup_grouped [] members

/-- The groups have the keys of the members, in the order in which these first appear. -/
theorem keys_grouped (members : List (String × α)) :
    (grouped members).map Prod.fst = (members.map Prod.fst).eraseDups := by
  rw [grouped, List.map_map]
  exact List.map_id' _

/-- Only where there are no members there are no groups. -/
theorem grouped_eq_nil_iff {members : List (String × α)} : grouped members = [] ↔ members = [] := by
  cases members with
  | nil => simp [grouped]
  | cons member rest => simp [grouped, List.eraseDups_cons]

/-- Adding a member and choosing groups by their keys can change places. -/
theorem filter_addToGroup (p : String → Bool) (groups : List (String × List α))
    (member : String × α) :
    (addToGroup groups member).filter (fun group => p group.1) =
      if p member.1 then addToGroup (groups.filter fun group => p group.1) member
      else groups.filter fun group => p group.1 := by
  induction groups with
  | nil => simp [addToGroup, alter, List.filter_cons]
  | cons group rest ih =>
    obtain ⟨key, members⟩ := group
    simp only [addToGroup] at ih
    by_cases hkey : key = member.1
    · subst hkey
      cases hp : p member.1 <;> simp [addToGroup, alter, hp]
    · cases hp : p key <;> cases hmember : p member.1 <;>
        simp [addToGroup, alter, hkey, hp, hmember, ih]

/-- Members with other keys do not matter to the groups that are looked at. -/
theorem filter_grouped (p : String → Bool) (members : List (String × α)) :
    (grouped members).filter (fun group => p group.1) =
      grouped (members.filter fun member => p member.1) := by
  have hfold (groups : List (String × List α)) :
      (members.foldl addToGroup groups).filter (fun group => p group.1) =
        (members.filter fun member => p member.1).foldl addToGroup
          (groups.filter fun group => p group.1) := by
    induction members generalizing groups with
    | nil => rfl
    | cons member members ih =>
      rw [List.foldl_cons, ih, filter_addToGroup]
      cases hp : p member.1 <;> simp [hp]
  rw [← foldl_addToGroup, ← foldl_addToGroup, hfold, List.filter_nil]

/-- Values can be changed before or after they are grouped. -/
theorem mapValues_grouped (f : α → β) (members : List (String × α)) :
    mapValues (List.map f) (grouped members) = grouped (mapValues f members) := by
  have hkeys : (mapValues f members).map Prod.fst = members.map Prod.fst := by
    simp [mapValues]
  have hgroup (key : String) : (ofKey members key).map f = ofKey (mapValues f members) key := by
    simp [ofKey, mapValues, List.filter_map, Function.comp_def]
  rw [grouped, grouped, hkeys, mapValues, List.map_map]
  exact List.map_congr_left fun key _ => congrArg (Prod.mk key) (hgroup key)

/-- What the members of one group give comes after what the other members give, up to order. -/
theorem addToGroup_flatMap_perm (f : α → List β) (groups : List (String × List α))
    (member : String × α) :
    ((addToGroup groups member).flatMap fun entry => entry.2.flatMap f).Perm
      ((groups.flatMap fun entry => entry.2.flatMap f) ++ f member.2) := by
  induction groups with
  | nil => simp [addToGroup, alter]
  | cons entry groups ih =>
    obtain ⟨key, earlier⟩ := entry
    simp only [addToGroup] at ih
    simp only [addToGroup, alter]
    by_cases h : key = member.1
    · simp only [if_pos h, List.flatMap_cons, Option.getD_some, List.flatMap_append,
        List.flatMap_nil, List.append_nil, List.append_assoc]
      exact List.perm_append_comm.append_left _
    · simp only [if_neg h, List.flatMap_cons, List.append_assoc]
      exact ih.append_left _

/-- Grouping keeps what the members give, up to order. -/
theorem grouped_flatMap_perm (f : α → List β) (members : List (String × α)) :
    ((grouped members).flatMap fun entry => entry.2.flatMap f).Perm
      (members.flatMap fun member => f member.2) := by
  have hfold (groups : List (String × List α)) :
      ((members.foldl addToGroup groups).flatMap fun entry => entry.2.flatMap f).Perm
        ((groups.flatMap fun entry => entry.2.flatMap f) ++
          members.flatMap fun member => f member.2) := by
    induction members generalizing groups with
    | nil => simp
    | cons member members ih =>
      have hfirst := addToGroup_flatMap_perm f groups member
      rw [List.foldl_cons, List.flatMap_cons, ← List.append_assoc]
      exact (ih _).trans (hfirst.append_right _)
  rw [← foldl_addToGroup]
  exact hfold []

end LocaleLint.Entries
