import Mathlib.Algebra.BigOperators.Group.List.Basic
import Mathlib.Data.List.Basic

/-!
# Sums over ranks

An all-reduce adds the vectors of all ranks entry by entry. When each rank contributes a
vector that is zero but at its own entry, every rank gets the values of all of them.
-/

namespace AllReduce

variable {M : Type} [AddMonoid M]

/-- The vector of one rank: zero but at its own entry. -/
def contribution (size rank : Nat) (x : M) : List M := (List.replicate size 0).set rank x

/-- The entrywise sum of some vectors. -/
def allReduce (size : Nat) (vectors : List (List M)) : List M :=
  vectors.foldl (List.zipWith (· + ·)) (List.replicate size 0)

/-- The vectors of all ranks. -/
def contributions (values : List M) : List (List M) :=
  values.mapIdx fun rank x => contribution values.length rank x

/-- Adding zeros changes nothing. -/
theorem zipWith_add_zero (l : List M) :
    List.zipWith (· + ·) l (List.replicate l.length 0) = l := by
  induction l with
  | nil => rfl
  | cons a l ih =>
    rw [List.length_cons, List.replicate_succ, List.zipWith_cons_cons, ih, add_zero]

/-- A contribution in front of zeros and behind zeros. -/
theorem contribution_append (before after : Nat) (x : M) :
    contribution (before + (after + 1)) before x =
      List.replicate before 0 ++ x :: List.replicate after 0 := by
  rw [contribution, List.replicate_add,
    List.set_append_right _ _ (Nat.le_of_eq List.length_replicate), List.length_replicate,
    Nat.sub_self]
  rfl

/-- The next contribution fills the first entry that is still zero. -/
theorem zipWith_contribution (filled : List M) (after : Nat) (x : M) :
    List.zipWith (· + ·) (filled ++ List.replicate (after + 1) 0)
        (contribution (filled.length + (after + 1)) filled.length x) =
      filled ++ [x] ++ List.replicate after 0 := by
  have hzeros := zipWith_add_zero (List.replicate after (0 : M))
  rw [List.length_replicate] at hzeros
  rw [contribution_append, List.zipWith_append (List.length_replicate ..).symm,
    zipWith_add_zero, List.replicate_succ, List.zipWith_cons_cons, hzeros, zero_add,
    List.append_assoc, List.singleton_append]

/-- The sum of all contributions lists the values of the ranks. -/
theorem allReduce_contributions (values : List M) :
    allReduce values.length (contributions values) = values := by
  suffices h : ∀ filled rest : List M,
      (rest.mapIdx fun i x =>
        contribution (filled.length + rest.length) (filled.length + i) x).foldl
          (List.zipWith (· + ·)) (filled ++ List.replicate rest.length 0) = filled ++ rest by
    simpa [allReduce, contributions] using h [] values
  intro filled rest
  induction rest generalizing filled with
  | nil => simp
  | cons x rest ih =>
    have hnext := ih (filled ++ [x])
    rw [List.mapIdx_cons, List.foldl_cons, Nat.add_zero, List.length_cons, zipWith_contribution]
    simp only [List.length_append, List.length_singleton, List.append_assoc,
      List.singleton_append] at hnext ⊢
    have hlater : (fun i (y : M) => contribution (filled.length + (rest.length + 1))
        (filled.length + (i + 1)) y) = fun i y =>
          contribution (filled.length + 1 + rest.length) (filled.length + 1 + i) y := by
      funext i y
      rw [Nat.add_right_comm, Nat.add_assoc, Nat.add_right_comm filled.length 1 i, Nat.add_assoc]
    rw [hlater]
    exact hnext

end AllReduce
