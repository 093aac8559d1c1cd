import Mathlib.Algebra.BigOperators.Group.List.Basic
import Mathlib.Data.List.Nodup

/-!
# Insertion-ordered dictionaries

A dictionary keeps its entries in the order of first insertion, with every key at
most once: writing to a key that is present replaces its value in place, writing
to a new key appends. Totals over the values change by what one entry changes.
-/

/-- A finite map with distinct keys, in insertion order. -/
structure Dict (α β : Type) where
  /-- The entries, oldest key first. -/
  entries : List (α × β)
  /-- Every key occurs once. -/
  nodup_keys : (entries.map Prod.fst).Nodup

namespace Dict

variable {α β : Type} [DecidableEq α]

/-- The dictionary without entries. -/
def empty : Dict α β := ⟨[], List.nodup_nil⟩

/-- The value under a key of an entry list. -/
def findEntry (a : α) : List (α × β) → Option β
  | [] => none
  | (a', b) :: l => if a' = a then some b else findEntry a l

/-- The value under a key. -/
def get? (d : Dict α β) (a : α) : Option β := findEntry a d.entries

/-- Write a value under a key of an entry list. -/
def insertEntry (a : α) (b : β) : List (α × β) → List (α × β)
  | [] => [(a, b)]
  | (a', b') :: l => if a' = a then (a, b) :: l else (a', b') :: insertEntry a b l

private theorem keys_insertEntry (a : α) (b : β) (l : List (α × β)) :
    (insertEntry a b l).map Prod.fst =
      if a ∈ l.map Prod.fst then l.map Prod.fst else l.map Prod.fst ++ [a] := by
  induction l with
  | nil => simp [insertEntry]
  | cons e l ih =>
    by_cases h : e.1 = a
    · simp [insertEntry, h]
    · simp only [insertEntry, h, ite_false, List.map_cons, ih, List.mem_cons, Ne.symm h, false_or]
      split <;> simp

/-- Write a value under a key. -/
def insert (d : Dict α β) (a : α) (b : β) : Dict α β where
  entries := insertEntry a b d.entries
  nodup_keys := by
    rw [keys_insertEntry]
    split
    · exact d.nodup_keys
    · rename_i h
      exact List.Nodup.append d.nodup_keys (List.nodup_singleton a) (by simpa using h)

/-- Remove a key and its value. -/
def erase (d : Dict α β) (a : α) : Dict α β where
  entries := d.entries.filter fun e => e.1 ≠ a
  nodup_keys := d.nodup_keys.sublist (List.filter_sublist.map _)

/-- Write all entries of another dictionary. -/
def update (d other : Dict α β) : Dict α β :=
  other.entries.foldl (fun d e => d.insert e.1 e.2) d

/-- The values, oldest key first. -/
def values (d : Dict α β) : List β := d.entries.map Prod.snd

/-- Take out the oldest entry. -/
def popFirst (d : Dict α β) : Option ((α × β) × Dict α β) :=
  match d with
  | ⟨[], _⟩ => none
  | ⟨e :: entries, h⟩ => some (e, ⟨entries, (List.nodup_cons.mp h).2⟩)

@[simp] theorem get?_empty (a : α) : (empty : Dict α β).get? a = none := rfl

private theorem findEntry_insertEntry (a a' : α) (b : β) (l : List (α × β)) :
    findEntry a' (insertEntry a b l) = if a' = a then some b else findEntry a' l := by
  induction l with
  | nil => simp [insertEntry, findEntry, eq_comm]
  | cons e l ih =>
    by_cases h : e.1 = a
    · by_cases h' : a = a'
      · simp [insertEntry, findEntry, h, h']
      · simp [insertEntry, findEntry, h, h', Ne.symm h']
    · by_cases h' : e.1 = a'
      · simp [insertEntry, findEntry, h', h' ▸ h]
      · simp [insertEntry, findEntry, h, h', ih]

@[simp] theorem get?_insert (d : Dict α β) (a a' : α) (b : β) :
    (d.insert a b).get? a' = if a' = a then some b else d.get? a' :=
  findEntry_insertEntry a a' b d.entries

private theorem findEntry_filter_ne (a a' : α) (l : List (α × β)) :
    findEntry a' (l.filter fun e => e.1 ≠ a) = if a' = a then none else findEntry a' l := by
  induction l with
  | nil => simp [findEntry]
  | cons e l ih =>
    simp only [ne_eq, decide_not] at ih
    by_cases h : e.1 = a
    · by_cases h' : a' = a
      · subst h'
        simpa [h] using ih
      · simp [h, h', ih, findEntry, Ne.symm h']
    · by_cases h' : e.1 = a'
      · simp [findEntry, h', h' ▸ h]
      · simp [findEntry, h, h', ih]

@[simp] theorem get?_erase (d : Dict α β) (a a' : α) :
    (d.erase a).get? a' = if a' = a then none else d.get? a' :=
  findEntry_filter_ne a a' d.entries

theorem findEntry_eq_some_iff {a : α} {b : β} {l : List (α × β)} (hl : (l.map Prod.fst).Nodup) :
    findEntry a l = some b ↔ (a, b) ∈ l := by
  induction l with
  | nil => simp [findEntry]
  | cons e l ih =>
    obtain ⟨a', b'⟩ := e
    simp only [List.map_cons, List.nodup_cons] at hl
    by_cases h : a' = a
    · subst h
      have hnot : (a', b) ∉ l := fun hm => hl.1 (List.mem_map_of_mem hm)
      simp [findEntry, hnot, eq_comm]
    · simp [findEntry, h, ih hl.2, Ne.symm h]

/-- Writing to a key that is present adds no entry. -/
theorem length_entries_insert {d : Dict α β} {a : α} {b₀ : β} (h : d.get? a = some b₀) (b : β) :
    (d.insert a b).entries.length = d.entries.length := by
  have hmem : a ∈ d.entries.map Prod.fst :=
    List.mem_map_of_mem (f := Prod.fst) ((findEntry_eq_some_iff d.nodup_keys).mp h)
  calc (d.insert a b).entries.length
    _ = ((insertEntry a b d.entries).map Prod.fst).length := (List.length_map Prod.fst).symm
    _ = (d.entries.map Prod.fst).length := by rw [keys_insertEntry, if_pos hmem]
    _ = d.entries.length := List.length_map Prod.fst

/-- The entries are the pairs of a key and the value under it. -/
theorem mem_entries_iff (d : Dict α β) {a : α} {b : β} : (a, b) ∈ d.entries ↔ d.get? a = some b :=
  (findEntry_eq_some_iff d.nodup_keys).symm

/-- A dictionary has no entries exactly when it has no value under any key. -/
theorem entries_eq_nil_iff (d : Dict α β) : d.entries = [] ↔ ∀ a, d.get? a = none := by
  constructor
  · intro h a
    simp [get?, h, findEntry]
  · intro h
    refine List.eq_nil_iff_forall_not_mem.mpr fun ⟨a, b⟩ he => ?_
    rw [mem_entries_iff, h a] at he
    cases he

theorem get?_foldl_insert (d : Dict α β) {l : List (α × β)} (hl : (l.map Prod.fst).Nodup) (a : α) :
    (l.foldl (fun d e => d.insert e.1 e.2) d).get? a = (findEntry a l).or (d.get? a) := by
  induction l generalizing d with
  | nil => simp [findEntry]
  | cons e l ih =>
    rw [List.map_cons, List.nodup_cons] at hl
    rw [List.foldl_cons, ih _ hl.2, get?_insert, findEntry]
    by_cases h : e.1 = a
    · subst h
      have hnone : findEntry e.1 l = none := by
        by_contra hne
        obtain ⟨b, hb⟩ := Option.ne_none_iff_exists'.mp hne
        exact hl.1 (List.mem_map.mpr ⟨(e.1, b), (findEntry_eq_some_iff hl.2).mp hb, rfl⟩)
      simp [hnone]
    · simp [h, Ne.symm h]

/-- Behind an update a key has the value of the other dictionary, if it has one there. -/
@[simp] theorem get?_update (d other : Dict α β) (a : α) :
    (d.update other).get? a = (other.get? a).or (d.get? a) :=
  get?_foldl_insert d other.nodup_keys a

private theorem insertEntry_filter_ne (a : α) (b : β) (l : List (α × β)) :
    (insertEntry a b l).filter (fun e => e.1 ≠ a) = l.filter fun e => e.1 ≠ a := by
  induction l with
  | nil => simp [insertEntry]
  | cons e l ih =>
    by_cases h : e.1 = a
    · simp [insertEntry, h]
    · simp only [ne_eq, decide_not] at ih
      simp [insertEntry, h, ih]

/-- Removing a key forgets what was written under it. -/
@[simp] theorem erase_insert (d : Dict α β) (a : α) (b : β) :
    (d.insert a b).erase a = d.erase a := by
  simp only [erase, insert, Dict.mk.injEq]
  exact insertEntry_filter_ne a b d.entries

@[simp] theorem erase_erase (d : Dict α β) (a : α) : (d.erase a).erase a = d.erase a := by
  simp [erase]

omit [DecidableEq α] in
/-- Nothing is taken out of a dictionary without entries only. -/
theorem popFirst_eq_none {d : Dict α β} (h : d.popFirst = none) : d.entries = [] := by
  obtain ⟨_ | ⟨e, l⟩, hl⟩ := d
  · rfl
  · cases h

/-- The oldest entry was there, and the rest is what is left without its key. -/
theorem popFirst_eq_some {d d' : Dict α β} {a : α} {b : β} (h : d.popFirst = some ((a, b), d')) :
    d.get? a = some b ∧ d' = d.erase a ∧ d.entries.length = d'.entries.length + 1 := by
  obtain ⟨_ | ⟨e, l⟩, hl⟩ := d
  · cases h
  · simp only [popFirst, Option.some.injEq, Prod.mk.injEq] at h
    obtain ⟨rfl, rfl⟩ := h
    have hnot : ∀ e ∈ l, e.1 ≠ a := by
      rintro e he rfl
      exact (List.nodup_cons.mp hl).1 (List.mem_map.mpr ⟨e, he, rfl⟩)
    refine ⟨by simp [get?, findEntry], ?_, rfl⟩
    have hfilter : l.filter (fun e => e.1 ≠ a) = l :=
      List.filter_eq_self.mpr fun e he => decide_eq_true (hnot e he)
    simp only [erase, Dict.mk.injEq, List.filter_cons, ne_eq, not_true_eq_false, decide_false,
      Bool.false_eq_true, if_false]
    exact hfilter.symm

/-- Every value is stored under itself. -/
def KeyedByValue (d : Dict α α) : Prop := ∀ a b, d.get? a = some b → a = b

/-- The values of such a dictionary are its keys. -/
theorem KeyedByValue.mem_values_iff {d : Dict α α} (h : d.KeyedByValue) {a : α} :
    a ∈ d.values ↔ d.get? a = some a := by
  constructor
  · intro ha
    obtain ⟨⟨a', b⟩, he, rfl⟩ := List.mem_map.mp ha
    have hget := d.mem_entries_iff.mp he
    obtain rfl := h _ _ hget
    exact hget
  · exact fun ha => List.mem_map.mpr ⟨(a, a), d.mem_entries_iff.mpr ha, rfl⟩

theorem keyedByValue_empty : (empty : Dict α α).KeyedByValue := by
  intro a b h
  simp at h

theorem KeyedByValue.insert {d : Dict α α} (h : d.KeyedByValue) (a : α) :
    (d.insert a a).KeyedByValue := by
  intro a' b hb
  rw [get?_insert] at hb
  split at hb
  · simp_all
  · exact h _ _ hb

theorem KeyedByValue.erase {d : Dict α α} (h : d.KeyedByValue) (a : α) :
    (d.erase a).KeyedByValue := by
  intro a' b hb
  rw [get?_erase] at hb
  split at hb
  · cases hb
  · exact h _ _ hb

/-! ## Totals over the entries -/

section Total

variable {M : Type} [AddCommMonoid M] (f : α → β → M)

/-- The sum of a function over all entries. -/
def total (d : Dict α β) : M := (d.entries.map fun e => f e.1 e.2).sum

/-- The contribution of one key, nothing when it is absent. -/
def share (d : Dict α β) (a : α) : M := ((d.get? a).map (f a)).getD 0

omit [DecidableEq α] in
@[simp] theorem total_empty : total f (empty : Dict α β) = 0 := rfl

/-- The total is one key's share and the total of the dictionary without the key. -/
theorem total_eq_share_add (d : Dict α β) (a : α) :
    total f d = share f d a + total f (d.erase a) := by
  obtain ⟨l, hl⟩ := d
  simp only [total, share, erase, get?]
  induction l with
  | nil => simp [findEntry]
  | cons e l ih =>
    simp only [List.map_cons, List.nodup_cons] at hl
    by_cases h : e.1 = a
    · subst h
      have hrest : (l.filter fun e' => e'.1 ≠ e.1) = l := by
        refine List.filter_eq_self.mpr fun e' he' => ?_
        simpa using fun hk : e'.1 = e.1 => hl.1 (hk ▸ List.mem_map_of_mem he')
      simp only [ne_eq, decide_not] at hrest
      simp [findEntry, hrest]
    · have ih' := ih hl.2
      simp only [ne_eq, decide_not] at ih'
      simp [findEntry, h, ih', add_left_comm]

/-- Two functions that agree on all keys but one have the same rest. -/
theorem total_erase_congr {g : α → β → M} {d : Dict α β} {a : α}
    (h : ∀ a' b, a' ≠ a → f a' b = g a' b) : total f (d.erase a) = total g (d.erase a) := by
  refine congrArg List.sum (List.map_congr_left fun e he => h _ _ ?_)
  simpa using (List.mem_filter.mp he).2

/-- Writing a key replaces its share of the total. -/
theorem total_insert (d : Dict α β) (a : α) (b : β) :
    total f (d.insert a b) = f a b + total f (d.erase a) := by
  rw [total_eq_share_add f _ a, erase_insert]
  simp [share]

end Total

end Dict
