import Mathlib.Data.List.Basic

/-!
# Selection by a mask

Indexing a sequence by a mask of Booleans keeps the elements whose entry is set, in
order. Sequences that are selected by one mask stay aligned with each other.
-/

namespace Select

variable {α β γ : Type}

/-- The elements whose entry in the mask is set. -/
def select : List Bool → List α → List α
  | true :: mask, a :: l => a :: select mask l
  | false :: mask, _ :: l => select mask l
  | _, _ => []

/-- The entries that are not set. -/
abbrev complement (mask : List Bool) : List Bool := mask.map (!·)

/-- Replace the elements whose entry in the mask is set. -/
def fill (mask : List Bool) (l : List α) (a : α) : List α :=
  mask.zipWith (fun set b => if set then a else b) l

@[simp] theorem select_nil (mask : List Bool) : select mask ([] : List α) = [] := by
  cases mask with
  | nil => rfl
  | cons b mask => cases b <;> rfl

/-- Selecting commutes with mapping. -/
theorem select_map (mask : List Bool) (l : List α) (f : α → β) :
    select mask (l.map f) = (select mask l).map f := by
  induction mask generalizing l with
  | nil => rfl
  | cons b mask ih =>
    cases l with
    | nil => simp
    | cons a l => cases b <;> simp [select, ih]

/-- Sequences selected by one mask stay aligned. -/
theorem select_zip (mask : List Bool) (l : List α) (l' : List β) :
    select mask (l.zip l') = (select mask l).zip (select mask l') := by
  induction mask generalizing l l' with
  | nil => rfl
  | cons b mask ih =>
    cases l with
    | nil => simp
    | cons a l =>
      cases l' with
      | nil => simp
      | cons a' l' => cases b <;> simp [select, ih]

/-- Sequences of one length selected by one mask have one length. -/
theorem length_select_congr (mask : List Bool) {l : List α} {l' : List β}
    (h : l.length = l'.length) : (select mask l).length = (select mask l').length := by
  induction mask generalizing l l' with
  | nil => rfl
  | cons b mask ih =>
    cases l with
    | nil => simp [List.length_eq_zero_iff.mp h.symm]
    | cons a l =>
      cases l' with
      | nil => simp at h
      | cons a' l' =>
        have htail : (select mask l).length = (select mask l').length := ih (by simpa using h)
        cases b <;> simp [select, htail]

/-- A mask that is set everywhere selects everything. -/
theorem select_replicate (l : List α) : select (List.replicate l.length true) l = l := by
  induction l with
  | nil => rfl
  | cons a l ih => rw [List.length_cons, List.replicate_succ, select, ih]

/-- What is selected is there. -/
theorem mem_of_mem_select {mask : List Bool} {l : List α} {a : α} (h : a ∈ select mask l) :
    a ∈ l := by
  induction mask generalizing l with
  | nil => cases h
  | cons b mask ih =>
    cases l with
    | nil => simp at h
    | cons a' l =>
      cases b with
      | true =>
        rcases List.mem_cons.mp h with rfl | h
        · exact List.mem_cons_self
        · exact List.mem_cons_of_mem _ (ih h)
      | false => exact List.mem_cons_of_mem _ (ih h)

/-- What is selected stands in order. -/
theorem select_sublist (mask : List Bool) (l : List α) : (select mask l).Sublist l := by
  induction mask generalizing l with
  | nil => exact List.nil_sublist l
  | cons b mask ih =>
    cases l with
    | nil => simp
    | cons a l =>
      cases b with
      | true => exact (ih l).cons_cons a
      | false => exact (ih l).cons a

/-- An element is selected or it is left. -/
theorem select_perm {mask : List Bool} {l : List α} (h : mask.length = l.length) :
    (select mask l ++ select (complement mask) l).Perm l := by
  induction mask generalizing l with
  | nil =>
    rw [List.length_eq_zero_iff.mp h.symm]
    exact .nil
  | cons b mask ih =>
    cases l with
    | nil => simp at h
    | cons a l =>
      have hrest := ih (l := l) (by simpa using h)
      cases b with
      | true => exact hrest.cons a
      | false => exact List.perm_middle.trans (hrest.cons a)

/-- An entry of the mask says whether the element is selected, and where. -/
theorem getElem?_select (mask : List Bool) (l : List α) {i : Nat} {a : α}
    (hmask : mask[i]? = some true) (hl : l[i]? = some a) :
    (select mask l)[(mask.take i).count true]? = some a := by
  induction mask generalizing l i with
  | nil => simp at hmask
  | cons b mask ih =>
    cases l with
    | nil => simp at hl
    | cons a' l =>
      cases i with
      | zero =>
        obtain rfl : b = true := by simpa using hmask
        simpa [select] using hl
      | succ i =>
        have hrest := ih l (i := i) (by simpa using hmask) (by simpa using hl)
        cases b <;> simpa [select] using hrest

/-- The length of what is selected. -/
theorem length_select {mask : List Bool} {l : List α} (h : mask.length = l.length) :
    (select mask l).length = mask.count true := by
  induction mask generalizing l with
  | nil => rfl
  | cons b mask ih =>
    cases l with
    | nil => simp at h
    | cons a l =>
      have hrest := ih (l := l) (by simpa using h)
      cases b <;> simp [select, hrest]

/-- Selecting after a part of a sequence. -/
theorem select_append {mask mask' : List Bool} {l l' : List α} (h : mask.length = l.length) :
    select (mask ++ mask') (l ++ l') = select mask l ++ select mask' l' := by
  induction mask generalizing l with
  | nil =>
    rw [List.length_eq_zero_iff.mp h.symm]
    rfl
  | cons b mask ih =>
    cases l with
    | nil => simp at h
    | cons a l =>
      have hrest := ih (l := l) (by simpa using h)
      cases b <;> simp [select, hrest]

/-- A mask that is set nowhere selects nothing. -/
theorem select_replicate_false (n : Nat) (l : List α) : select (List.replicate n false) l = [] := by
  induction n generalizing l with
  | zero => rfl
  | succ n ih =>
    cases l with
    | nil => simp
    | cons a l => exact ih l

/-- Selecting the elements of blocks by the marks of the blocks. -/
theorem select_flatMap_replicate (mask : List Bool) (blocks : List (List α)) :
    select ((mask.zip blocks).flatMap fun e => List.replicate e.2.length e.1) blocks.flatten =
      (select mask blocks).flatten := by
  induction mask generalizing blocks with
  | nil => rfl
  | cons b mask ih =>
    cases blocks with
    | nil => simp
    | cons block blocks =>
      rw [List.zip_cons_cons, List.flatMap_cons, List.flatten_cons,
        select_append List.length_replicate, ih]
      cases b with
      | true => rw [select_replicate, select, List.flatten_cons]
      | false => rw [select_replicate_false, select, List.nil_append]

/-- The marks of the elements that are not selected. -/
theorem complement_flatMap_replicate (mask : List Bool) (blocks : List (List α)) :
    complement ((mask.zip blocks).flatMap fun e => List.replicate e.2.length e.1) =
      ((complement mask).zip blocks).flatMap fun e => List.replicate e.2.length e.1 := by
  induction mask generalizing blocks with
  | nil => rfl
  | cons b mask ih =>
    cases blocks with
    | nil => rfl
    | cons block blocks =>
      have hrest := ih blocks
      unfold complement at hrest ⊢
      rw [List.zip_cons_cons, List.flatMap_cons, List.map_append, hrest, List.map_cons,
        List.zip_cons_cons, List.flatMap_cons, List.map_replicate]

/-- There is a mark for each element. -/
theorem length_flatMap_replicate {mask : List Bool} {blocks : List (List α)}
    (h : mask.length = blocks.length) :
    ((mask.zip blocks).flatMap fun e => List.replicate e.2.length e.1).length =
      blocks.flatten.length := by
  induction mask generalizing blocks with
  | nil =>
    rw [List.length_eq_zero_iff.mp h.symm]
    rfl
  | cons b mask ih =>
    cases blocks with
    | nil => simp at h
    | cons block blocks =>
      rw [List.zip_cons_cons, List.flatMap_cons, List.length_append, ih (by simpa using h),
        List.length_replicate, List.flatten_cons, List.length_append]

/-- Where the blocks that are not selected are empty, the others have all elements. -/
theorem flatten_select_of_empty {mask : List Bool} {blocks : List (List α)}
    (h : mask.length = blocks.length)
    (hempty : ∀ block ∈ select (complement mask) blocks, block = []) :
    (select mask blocks).flatten = blocks.flatten := by
  induction mask generalizing blocks with
  | nil =>
    rw [List.length_eq_zero_iff.mp h.symm]
    rfl
  | cons b mask ih =>
    cases blocks with
    | nil => simp at h
    | cons block blocks =>
      cases b with
      | true =>
        rw [select, List.flatten_cons, List.flatten_cons, ih (by simpa using h) hempty]
      | false =>
        have hblock : block = [] := hempty block List.mem_cons_self
        rw [select, List.flatten_cons, hblock, List.nil_append]
        exact ih (by simpa using h) fun block' hblock' =>
          hempty block' (List.mem_cons_of_mem _ hblock')

/-- Filling by a mask that was computed element by element. -/
theorem fill_map (p : β → Bool) (f : α → γ) (l : List α) (l' : List β) (c : γ) :
    fill (complement (l'.map p)) (l.map f) c =
      (l.zip l').map fun e => if p e.2 then f e.1 else c := by
  induction l generalizing l' with
  | nil => cases l' <;> rfl
  | cons a l ih =>
    cases l' with
    | nil => rfl
    | cons b l' =>
      have htail := ih l'
      simp only [fill, complement] at htail ⊢
      simp only [List.map_cons, List.zipWith_cons_cons, List.zip_cons_cons, htail]
      cases p b <;> rfl

end Select
