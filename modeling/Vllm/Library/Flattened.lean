import Mathlib.Algebra.BigOperators.Group.List.Basic
import Mathlib.Algebra.GroupWithZero.Nat
import Mathlib.Algebra.Ring.Int.Defs

/-!
# Flattened arrays

Arrays that hold a number of entries for each element of a list, one element behind the other,
and the operations on whole arrays that make them: repeating, running sums, assignments under a
mask and at indices, and cutting into rows.
-/

namespace Flattened

variable {α β γ ε : Type}

/-- Every entry as often as its count says. -/
def repeatEach (xs : List α) (counts : List Int) : List α :=
  (xs.zip counts).flatMap fun e => List.replicate e.2.toNat e.1

/-- The running sums behind a start. -/
def cumsum (start : Int) : List Int → List Int
  | [] => []
  | x :: xs => (start + x) :: cumsum (start + x) xs

/-- Write values, in order, where a mask holds. -/
def assignMask : List Bool → List α → List α → List α
  | true :: mask, _ :: xs, value :: values => value :: assignMask mask xs values
  | _ :: mask, x :: xs, values => x :: assignMask mask xs values
  | _, xs, _ => xs

/-- Write values at indices. -/
def scatter (xs : List α) (indices : List Int) (values : List α) : List α :=
  (indices.zip values).foldl (fun xs e => xs.set e.1.toNat e.2) xs

/-- Cut into a number of rows of the same length. -/
def view (rows : Nat) (xs : List α) : List (List α) :=
  (List.range rows).map fun i => (xs.drop (i * (xs.length / rows))).take (xs.length / rows)

/-! ## Running sums -/

/-- The running sums behind a start, at an index. -/
theorem getElem?_cumsum (start : Int) (xs : List Int) {k : Nat} (hk : k ≤ xs.length) :
    (start :: cumsum start xs)[k]? = some (start + (xs.take k).sum) := by
  induction xs generalizing start k with
  | nil =>
    obtain rfl : k = 0 := by simpa using hk
    simp
  | cons x xs ih =>
    cases k with
    | zero => simp
    | succ k =>
      rw [List.getElem?_cons_succ, cumsum, ih (start + x) (Nat.le_of_succ_le_succ hk),
        List.take_succ_cons, List.sum_cons, Int.add_assoc]

@[simp] theorem length_cumsum (start : Int) (xs : List Int) :
    (cumsum start xs).length = xs.length := by
  induction xs generalizing start with
  | nil => rfl
  | cons x xs ih => rw [cumsum, List.length_cons, ih, List.length_cons]

/-- The last running sum is the whole sum. -/
theorem getLast?_cumsum (start : Int) {xs : List Int} (hne : xs ≠ []) :
    (cumsum start xs).getLast? = some (start + xs.sum) := by
  have hlast := getElem?_cumsum start xs le_rfl
  obtain ⟨x, rest, rfl⟩ := List.exists_cons_of_ne_nil hne
  rw [List.length_cons, List.getElem?_cons_succ, ← List.length_cons, List.take_length] at hlast
  rw [List.getLast?_eq_getElem?, length_cumsum, List.length_cons, Nat.add_sub_cancel]
  exact hlast

/-- The differences of the running sums. -/
theorem zipWith_sub_cumsum (start : Int) (xs : List Int) :
    List.zipWith (· - ·) (cumsum start xs) (start :: cumsum start xs) = xs := by
  induction xs generalizing start with
  | nil => rfl
  | cons x xs ih =>
    rw [cumsum, List.zipWith_cons_cons, ih]
    congr 1
    omega

theorem cumsum_append (start : Int) (xs ys : List Int) :
    cumsum start (xs ++ ys) = cumsum start xs ++ cumsum (start + xs.sum) ys := by
  induction xs generalizing start with
  | nil => simp [cumsum]
  | cons x xs ih =>
    rw [List.cons_append, cumsum, ih, cumsum, List.sum_cons, Int.add_assoc, List.cons_append]

/-- The running sums of positive numbers ascend. -/
theorem pairwise_cumsum (start : Int) {xs : List Int} (hpos : ∀ x ∈ xs, 0 < x) :
    (start :: cumsum start xs).Pairwise (· < ·) := by
  induction xs generalizing start with
  | nil => exact List.pairwise_singleton _ _
  | cons x xs ih =>
    have hx := hpos x List.mem_cons_self
    have hrest := ih (start + x) fun y hy => hpos y (List.mem_cons_of_mem _ hy)
    refine List.pairwise_cons.mpr ⟨fun y hy => ?_, hrest⟩
    rcases List.mem_cons.mp hy with rfl | hy
    · omega
    · have := (List.pairwise_cons.mp hrest).1 y hy
      omega

/-- In an ascending list, a number lies between two neighbours at one index only. -/
theorem between_unique {xs : List Int} (h : xs.Pairwise (· < ·)) {i i' : Nat}
    {start stop start' stop' t : Int} (hstart : xs[i]? = some start)
    (hstop : xs[i + 1]? = some stop) (hstart' : xs[i']? = some start')
    (hstop' : xs[i' + 1]? = some stop') (ht : start ≤ t ∧ t < stop)
    (ht' : start' ≤ t ∧ t < stop') : i = i' := by
  have hle : ∀ {j j' : Nat} {x x' : Int}, xs[j]? = some x → xs[j']? = some x' → j ≤ j' →
      x ≤ x' := by
    intro j j' x x' hj hj' hjj
    obtain ⟨hlt, rfl⟩ := List.getElem?_eq_some_iff.mp hj
    obtain ⟨hlt', rfl⟩ := List.getElem?_eq_some_iff.mp hj'
    rcases Nat.eq_or_lt_of_le hjj with rfl | hjj
    · exact Int.le_refl _
    · exact Int.le_of_lt (List.pairwise_iff_getElem.mp h j j' hlt hlt' hjj)
  rcases Nat.lt_trichotomy i i' with hlt | heq | hlt
  · have := hle hstop hstart' hlt
    omega
  · exact heq
  · have := hle hstop' hstart hlt
    omega

/-- Sums of counts. -/
theorem sum_map_natCast (size : ε → Nat) (l : List ε) :
    (l.map fun e => (size e : Int)).sum = ((l.map size).sum : Nat) := by
  induction l with
  | nil => rfl
  | cons e l ih => rw [List.map_cons, List.sum_cons, ih, List.map_cons, List.sum_cons,
      Int.natCast_add]

/-! ## Arrays of a list -/

variable {l : List ε} {size : ε → Nat}

/-- Repeated entries, element by element. -/
theorem repeatEach_map (f : ε → α) (size : ε → Nat) (l : List ε) :
    repeatEach (l.map f) (l.map fun e => (size e : Int))
      = l.flatMap fun e => List.replicate (size e) (f e) := by
  induction l with
  | nil => rfl
  | cons e l ih =>
    simp only [repeatEach, List.map_cons, List.zip_cons_cons, List.flatMap_cons] at ih ⊢
    rw [ih, Int.toNat_natCast]

/-- Combining two arrays of the same shape, element by element. -/
theorem zipWith_flatMap {f : α → β → γ} {g : ε → List α} {h : ε → List β}
    (hlen : ∀ e ∈ l, (g e).length = (h e).length) : List.zipWith f (l.flatMap g) (l.flatMap h)
      = l.flatMap fun e => List.zipWith f (g e) (h e) := by
  induction l with
  | nil => rfl
  | cons e l ih =>
    rw [List.flatMap_cons, List.flatMap_cons, List.zipWith_append (hlen e List.mem_cons_self),
      ih fun e he => hlen e (List.mem_cons_of_mem _ he), List.flatMap_cons]

/-- A range over the whole array, less the offsets of the elements, is a range for each. -/
theorem zipWith_range_offsets (start : Nat) (size : ε → Nat) (l : List ε) :
    List.zipWith (fun x offset : Int => x - offset)
        ((List.range' start (l.map size).sum).map fun i : Nat => (i : Int))
        (repeatEach (List.zipWith (· - ·) (cumsum start (l.map fun e => (size e : Int)))
          (l.map fun e => (size e : Int))) (l.map fun e => (size e : Int)))
      = l.flatMap fun e => (List.range (size e)).map fun i : Nat => (i : Int) := by
  induction l generalizing start with
  | nil => rfl
  | cons e l ih =>
    have hrest := ih (start + size e)
    simp only [repeatEach, List.map_cons, List.sum_cons, cumsum, List.zipWith_cons_cons,
      List.zip_cons_cons, List.flatMap_cons, Int.toNat_natCast] at hrest ⊢
    rw [← List.range'_append_1, List.map_append, List.zipWith_append (by simp),
      Int.natCast_add] at *
    rw [hrest]
    refine congrArg (· ++ _) (List.ext_getElem (by simp) fun i hi hi' => ?_)
    simp only [List.getElem_zipWith, List.getElem_map, List.getElem_range',
      List.getElem_replicate, List.getElem_range]
    omega

/-- Values for the first entries of the elements. -/
theorem assignMask_first (size : ε → Nat) (xs : ε → List α) (value : ε → α)
    (hsize : ∀ e ∈ l, 0 < size e) (hlen : ∀ e ∈ l, (xs e).length = size e) :
    assignMask (l.flatMap fun e =>
          (List.range (size e)).map fun i : Nat => decide ((i : Int) = 0))
        (l.flatMap xs) (l.map value)
      = l.flatMap fun e => value e :: (xs e).tail := by
  have hskip : ∀ (n : Nat) (ys rest : List α) (mask : List Bool) (values : List α),
      ys.length = n → assignMask (List.replicate n false ++ mask) (ys ++ rest) values
        = ys ++ assignMask mask rest values := by
    intro n
    induction n with
    | zero =>
      intro ys rest mask values hys
      obtain rfl := List.eq_nil_of_length_eq_zero hys
      rfl
    | succ n ih =>
      intro ys rest mask values hys
      obtain ⟨y, ys, rfl⟩ := List.exists_cons_of_length_eq_add_one hys
      simp only [List.replicate_succ, List.cons_append, assignMask]
      rw [ih ys rest mask values (by simpa using hys)]
  induction l with
  | nil => rfl
  | cons e l ih =>
    obtain ⟨n, hn⟩ : ∃ n, size e = n + 1 := ⟨size e - 1, by
      have := hsize e List.mem_cons_self
      omega⟩
    have hmask : (List.range (size e)).map (fun i : Nat => decide ((i : Int) = 0))
        = true :: List.replicate n false := by
      rw [hn, List.range_succ_eq_map, List.map_cons, List.map_map]
      refine congrArg₂ List.cons rfl (List.eq_replicate_iff.mpr ⟨by simp, ?_⟩)
      intro b hb
      obtain ⟨i, -, rfl⟩ := List.mem_map.mp hb
      simp only [Function.comp_apply, decide_eq_false_iff_not]
      omega
    have hxs := hlen e List.mem_cons_self
    rw [hn] at hxs
    obtain ⟨x, ys, hxs'⟩ := List.exists_cons_of_length_eq_add_one hxs
    rw [List.flatMap_cons, List.flatMap_cons, List.flatMap_cons, hmask, List.map_cons, hxs']
    simp only [List.cons_append, assignMask, List.tail_cons]
    rw [hskip n ys _ _ _ (by rw [hxs'] at hxs; simpa using hxs),
      ih (fun e he => hsize e (List.mem_cons_of_mem _ he))
        fun e he => hlen e (List.mem_cons_of_mem _ he)]

/-- Values for the last entries of the elements. -/
theorem scatter_last (size : ε → Nat) (base : α) (value : ε → α) (hsize : ∀ e ∈ l, 0 < size e) :
    scatter (List.replicate (l.map size).sum base)
        ((cumsum 0 (l.map fun e => (size e : Int))).map (· - 1)) (l.map value)
      = l.flatMap fun e => List.replicate (size e - 1) base ++ [value e] := by
  suffices hloop : ∀ done : List α, scatter (done ++ List.replicate (l.map size).sum base)
      ((cumsum done.length (l.map fun e => (size e : Int))).map (· - 1)) (l.map value)
        = done ++ l.flatMap fun e => List.replicate (size e - 1) base ++ [value e] from
    hloop []
  induction l with
  | nil => intro done; simp [scatter, cumsum]
  | cons e l ih =>
    intro done
    have hpos := hsize e List.mem_cons_self
    have hrest := ih (fun e he => hsize e (List.mem_cons_of_mem _ he))
      (done ++ (List.replicate (size e - 1) base ++ [value e]))
    have hset : (done ++ List.replicate (size e + (l.map size).sum) base).set
        (done.length + size e - 1) (value e)
          = done ++ (List.replicate (size e - 1) base ++ [value e])
            ++ List.replicate (l.map size).sum base := by
      obtain ⟨n, hn⟩ : ∃ n, size e = n + 1 := ⟨size e - 1, by omega⟩
      rw [hn, Nat.add_right_comm, ← Nat.add_assoc, Nat.add_sub_cancel, Nat.add_sub_cancel,
        List.set_append_right _ _ (by omega), Nat.add_sub_cancel_left, List.append_assoc,
        List.append_assoc, Nat.add_right_comm, Nat.add_assoc, ← List.replicate_append_replicate,
        List.set_append_right _ _ (by simp), List.length_replicate, Nat.sub_self,
        Nat.add_comm 1, List.replicate_succ, List.set_cons_zero, List.singleton_append]
    have hlength : ((done ++ (List.replicate (size e - 1) base ++ [value e])).length : Int)
        = done.length + size e := by
      simp only [List.length_append, List.length_replicate, List.length_singleton]
      omega
    have hindex : ((done.length : Int) + size e - 1).toNat = done.length + size e - 1 := by omega
    rw [hlength] at hrest
    simp only [scatter, List.map_cons, List.sum_cons, cumsum, List.zip_cons_cons,
      List.foldl_cons, hindex] at hrest ⊢
    rw [hset, hrest, List.flatMap_cons, List.append_assoc done]

/-- Cutting an array with equally many entries for each element gives one row for each. -/
theorem view_flatMap {n : Nat} (g : ε → List α) (hlen : ∀ e ∈ l, (g e).length = n) :
    view l.length (l.flatMap g) = l.map g := by
  have htotal : (l.flatMap g).length = l.length * n := by
    rw [List.length_flatMap, List.map_congr_left hlen, List.map_const', List.sum_replicate_nat]
  rcases Nat.eq_zero_or_pos l.length with hnil | hpos
  · rw [List.eq_nil_of_length_eq_zero hnil]
    rfl
  have hcols : (l.flatMap g).length / l.length = n := by
    rw [htotal, Nat.mul_div_cancel_left _ hpos]
  rw [view, hcols]
  clear htotal hcols hpos
  induction l with
  | nil => rfl
  | cons e l ih =>
    have he := hlen e List.mem_cons_self
    rw [List.length_cons, List.range_succ_eq_map, List.map_cons, List.map_map, List.map_cons,
      List.flatMap_cons]
    refine congrArg₂ List.cons ?_ ?_
    · rw [Nat.zero_mul, List.drop_zero, List.take_left' he]
    · rw [← ih fun e he => hlen e (List.mem_cons_of_mem _ he)]
      refine List.map_congr_left fun i _ => ?_
      rw [Function.comp_apply, Nat.succ_mul, Nat.add_comm, ← List.drop_drop, List.drop_left' he]

end Flattened
