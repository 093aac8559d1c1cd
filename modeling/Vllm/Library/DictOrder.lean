import Vllm.Library.Dict
import Mathlib.Data.List.Perm.Basic
import Mathlib.Data.List.Nodup

/-!
# The order of a dictionary

Operations that speak about age: moving a key to the end and forgetting the oldest
entries. The entries with a key are, up to order, its entry and those without it;
so a list read off the entries changes by what is read off one of them.
-/

namespace Dict

variable {α β γ : Type} [DecidableEq α]

/-- A key has a value. -/
def contains (d : Dict α β) (a : α) : Bool := (d.get? a).isSome

omit [DecidableEq α] in
/-- The keys, oldest first. -/
def keys (d : Dict α β) : List α := d.entries.map Prod.fst

/-- How many keys have a value. -/
def size (d : Dict α β) : Nat := d.entries.length

omit [DecidableEq α] in
/-- Take out the newest entry. -/
def popLast (d : Dict α β) : Option ((α × β) × Dict α β) :=
  match d.entries.getLast? with
  | none => none
  | some e => some (e, ⟨d.entries.dropLast, d.nodup_keys.sublist ((List.dropLast_sublist _).map _)⟩)

/-- Make a key the newest one. -/
def moveToEnd (d : Dict α β) (a : α) : Dict α β :=
  match d.get? a with
  | some b => (d.erase a).insert a b
  | none => d

/-- Forget the oldest entries. -/
def drop (d : Dict α β) (n : Nat) : Dict α β where
  entries := d.entries.drop n
  nodup_keys := d.nodup_keys.sublist ((List.drop_sublist n _).map _)

/-- Remove several keys. -/
def eraseAll (d : Dict α β) (l : List α) : Dict α β := l.foldl erase d

variable {d : Dict α β} {a : α}

theorem contains_eq_true : d.contains a = true ↔ ∃ b, d.get? a = some b :=
  Option.isSome_iff_exists

theorem contains_eq_false : d.contains a = false ↔ d.get? a = none := by
  simp [contains]

theorem mem_keys : a ∈ d.keys ↔ ∃ b, d.get? a = some b := by
  constructor
  · intro h
    obtain ⟨⟨a', b⟩, he, rfl⟩ := List.mem_map.mp h
    exact ⟨b, d.mem_entries_iff.mp he⟩
  · rintro ⟨b, hb⟩
    exact List.mem_map.mpr ⟨(a, b), d.mem_entries_iff.mpr hb, rfl⟩

omit [DecidableEq α] in
/-- Nothing is taken out of a dictionary without entries only. -/
theorem popLast_eq_none (h : d.popLast = none) : d.entries = [] := by
  unfold popLast at h
  split at h
  next hlast => exact List.getLast?_eq_none_iff.mp hlast
  next => cases h

/-- The newest entry was there, and the rest is what is left without its key. -/
theorem popLast_eq_some {d d' : Dict α β} {e : α × β} (h : d.popLast = some (e, d')) :
    d.get? e.1 = some e.2 ∧ d' = d.erase e.1 := by
  unfold popLast at h
  split at h
  next => cases h
  next last hlast =>
    simp only [Option.some.injEq, Prod.mk.injEq] at h
    obtain ⟨rfl, rfl⟩ := h
    obtain ⟨front, hfront⟩ := List.getLast?_eq_some_iff.mp hlast
    have hnodup := d.nodup_keys
    rw [hfront, List.map_append, List.map_singleton, List.nodup_append] at hnodup
    refine ⟨d.mem_entries_iff.mp (List.mem_of_getLast? hlast), ?_⟩
    simp only [erase, Dict.mk.injEq, hfront, List.dropLast_concat, List.filter_append]
    rw [List.filter_eq_self.mpr, List.filter_eq_nil_iff.mpr, List.append_nil]
    · intro e' he'
      obtain rfl := List.mem_singleton.mp he'
      simp
    · intro e' he'
      simpa using hnodup.2.2 _ (List.mem_map_of_mem he') _ (List.mem_singleton_self _)

/-- Dictionaries of which at most one has a value under each key share no key. -/
theorem disjoint_keys {d' : Dict α γ}
    (h : ∀ a, (d.get? a).isSome.toNat + (d'.get? a).isSome.toNat ≤ 1) :
    d.keys.Disjoint d'.keys := by
  intro a ha ha'
  obtain ⟨b, hb⟩ := mem_keys.mp ha
  obtain ⟨b', hb'⟩ := mem_keys.mp ha'
  have := h a
  simp [hb, hb'] at this

@[simp] theorem get?_eraseAll (d : Dict α β) (l : List α) (a : α) :
    (d.eraseAll l).get? a = if a ∈ l then none else d.get? a := by
  induction l generalizing d with
  | nil => rfl
  | cons a' l ih =>
    have hrest := ih (d.erase a')
    rw [get?_erase] at hrest
    rw [eraseAll, List.foldl_cons, ← eraseAll, hrest]
    by_cases he : a = a'
    · simp [he]
    · simp only [List.mem_cons, he, false_or, if_false]

@[simp] theorem get?_moveToEnd (d : Dict α β) (a a' : α) :
    (d.moveToEnd a).get? a' = d.get? a' := by
  unfold moveToEnd
  cases h : d.get? a with
  | none => rfl
  | some b =>
    by_cases h' : a' = a
    · simp [h', h]
    · simp [h']

theorem filter_ne_eq_self {l : List (α × β)} (h : a ∉ l.map Prod.fst) :
    l.filter (fun e => e.1 ≠ a) = l := by
  refine List.filter_eq_self.mpr fun e he => decide_eq_true ?_
  rintro rfl
  exact h (List.mem_map_of_mem he)

/-- The entries with a key are its entry and those without it. -/
theorem entries_perm_of_get? {b : β} (h : d.get? a = some b) :
    d.entries.Perm ((a, b) :: (d.erase a).entries) := by
  obtain ⟨l, hl⟩ := d
  simp only [get?, erase] at h ⊢
  induction l with
  | nil => cases h
  | cons e l ih =>
    obtain ⟨a', b'⟩ := e
    simp only [List.map_cons, List.nodup_cons] at hl
    by_cases ha : a' = a
    · subst ha
      obtain rfl : b' = b := by simpa [findEntry] using h
      rw [List.filter_cons_of_neg (by simp), filter_ne_eq_self hl.1]
    · rw [List.filter_cons_of_pos (by simpa using ha)]
      exact ((ih hl.2 (by simpa [findEntry, ha] using h)).cons (a', b')).trans (.swap _ _ _)

/-- Removing a key that is absent changes nothing. -/
theorem erase_of_absent (h : d.get? a = none) : d.erase a = d := by
  obtain ⟨l, hl⟩ := d
  simp only [erase, Dict.mk.injEq]
  refine filter_ne_eq_self fun hm => ?_
  obtain ⟨b, hb⟩ := mem_keys (d := ⟨l, hl⟩) |>.mp hm
  rw [h] at hb
  cases hb

/-- A key that was absent is written at the end. -/
theorem entries_insert_of_absent (h : d.get? a = none) (b : β) :
    (d.insert a b).entries = d.entries ++ [(a, b)] := by
  obtain ⟨l, hl⟩ := d
  simp only [get?, insert] at h ⊢
  induction l with
  | nil => rfl
  | cons e l ih =>
    obtain ⟨a', b'⟩ := e
    by_cases ha : a' = a
    · simp [findEntry, ha] at h
    · simp only [List.map_cons, List.nodup_cons] at hl
      simp only [findEntry, ha, if_false] at h
      simp only [insertEntry, ha, if_false, List.cons_append, ih hl.2 h]

/-- The entries of a dictionary whose key was moved are the same ones. -/
theorem entries_moveToEnd_perm (d : Dict α β) (a : α) :
    (d.moveToEnd a).entries.Perm d.entries := by
  unfold moveToEnd
  cases h : d.get? a with
  | none => exact .refl _
  | some b =>
    simp only
    rw [entries_insert_of_absent (by simp)]
    exact (List.perm_append_singleton _ _).trans (entries_perm_of_get? h).symm

/-- What is read off the entries stays when a value changes in other respects only. -/
theorem map_insert_of_eq (g : α → β → γ) {b b' : β} (h : d.get? a = some b) (hg : g a b' = g a b) :
    (d.insert a b').entries.map (fun e => g e.1 e.2) = d.entries.map fun e => g e.1 e.2 := by
  obtain ⟨l, hl⟩ := d
  simp only [get?, insert] at h ⊢
  induction l with
  | nil => cases h
  | cons e l ih =>
    obtain ⟨a', b₀⟩ := e
    by_cases ha : a' = a
    · obtain rfl : b₀ = b := by simpa [findEntry, ha] using h
      simp [insertEntry, ha, hg]
    · simp only [List.map_cons, List.nodup_cons] at hl
      simp only [findEntry, ha, if_false] at h
      simp only [insertEntry, ha, if_false, List.map_cons, ih hl.2 h]

theorem size_erase {b : β} (h : d.get? a = some b) : d.size = (d.erase a).size + 1 := by
  simpa [size] using (entries_perm_of_get? h).length_eq

private theorem size_insert_of_absent (h : d.get? a = none) (b : β) :
    (d.insert a b).size = d.size + 1 := by
  simp [size, entries_insert_of_absent h]

theorem size_insert_le (d : Dict α β) (a : α) (b : β) : (d.insert a b).size ≤ d.size + 1 := by
  cases h : d.get? a with
  | none => exact Nat.le_of_eq (size_insert_of_absent h b)
  | some _ => exact Nat.le_succ_of_le (Nat.le_of_eq (length_entries_insert h b))

theorem size_erase_le (d : Dict α β) (a : α) : (d.erase a).size ≤ d.size :=
  List.length_filter_le _ _

@[simp] theorem size_moveToEnd (d : Dict α β) (a : α) : (d.moveToEnd a).size = d.size :=
  (entries_moveToEnd_perm d a).length_eq

omit [DecidableEq α] in
@[simp] theorem size_drop (d : Dict α β) (n : Nat) : (d.drop n).size = d.size - n := by
  simp [size, drop]

/-- Forgetting old entries gives no key a value it had not. -/
theorem get?_of_get?_drop {n : Nat} {b : β} (h : (d.drop n).get? a = some b) : d.get? a = some b :=
  d.mem_entries_iff.mp (List.mem_of_mem_drop ((d.drop n).mem_entries_iff.mpr h))

/-- The oldest key is present. -/
theorem get?_of_entries_eq_cons {b : β} {l : List (α × β)} (h : d.entries = (a, b) :: l) :
    d.get? a = some b :=
  d.mem_entries_iff.mp (h ▸ List.mem_cons_self)

/-- Removing the oldest key leaves the other entries. -/
theorem entries_erase_of_entries_eq_cons {b : β} {l : List (α × β)} (h : d.entries = (a, b) :: l) :
    (d.erase a).entries = l := by
  have hnodup := d.nodup_keys
  rw [h, List.map_cons, List.nodup_cons] at hnodup
  change d.entries.filter (fun e => e.1 ≠ a) = l
  rw [h, List.filter_cons_of_neg (by simp)]
  exact filter_ne_eq_self hnodup.1

/-- A dictionary with a value has an entry. -/
theorem size_pos {b : β} (h : d.get? a = some b) : 0 < d.size :=
  List.length_pos_of_mem (d.mem_entries_iff.mpr h)

/-- Changing all values of an entry list. -/
theorem findEntry_mapValues (f : β → γ) (l : List (α × β)) (a : α) :
    findEntry a (l.map fun e => (e.1, f e.2)) = (findEntry a l).map f := by
  induction l with
  | nil => rfl
  | cons e l ih =>
    rw [List.map_cons, findEntry, findEntry]
    split
    · rfl
    · exact ih

end Dict
