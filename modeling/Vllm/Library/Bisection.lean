import Mathlib.Order.Bounds.Defs
import Mathlib.Algebra.Order.Group.Int
import Mathlib.Data.Int.ConditionallyCompleteOrder
import Mathlib.Order.ConditionallyCompleteLattice.Basic
import Vllm.Library.Checked
import Vllm.Library.FallibleState

/-!
# The largest affordable length

Costs that depend on a length and either fail alike at every length or grow with it, and
the search by halving for the largest length that passes a test. The search is written in
any monad; where every test changes the state only as an invariant allows, its result is
that of the pure search, which is the greatest length that passes.
-/

namespace Bisection

open Checked FallibleState

variable {ε α σ : Type}

/-! ## Costs that grow -/

/-- The cost fails in the same way at every length, or grows with the length. -/
def Grows (cost : Int → Except ε Int) : Prop :=
  (∃ e, ∀ l, cost l = .error e) ∨ ∃ g : Int → Int, Monotone g ∧ ∀ l, cost l = .ok (g l)

/-- A cost that does not depend on the length. -/
theorem grows_const (x : Except ε Int) : Grows fun _ => x := by
  rcases x with e | n
  · exact .inl ⟨e, fun _ => rfl⟩
  · exact .inr ⟨fun _ => n, monotone_const, fun _ => rfl⟩

/-- A growing number without failures. -/
theorem grows_ok {g : Int → Int} (hg : Monotone g) :
    Grows fun l => (.ok (g l) : Except ε Int) :=
  .inr ⟨g, hg, fun _ => rfl⟩

/-- A computation that does not depend on the length, before a cost that grows. -/
theorem Grows.after {x : Except ε α} {cost : α → Int → Except ε Int}
    (h : ∀ a, x = .ok a → Grows (cost a)) : Grows fun l => x >>= fun a => cost a l := by
  rcases x with e | a
  · exact .inl ⟨e, fun _ => rfl⟩
  · exact h a rfl

/-- A cost that grows with another one. -/
theorem Grows.comp {cost next : Int → Except ε Int} (h : Grows cost) (hnext : Grows next) :
    Grows fun l => cost l >>= next := by
  rcases h with ⟨e, he⟩ | ⟨g, hg, hok⟩
  · exact .inl ⟨e, fun l => by simp only [he]; rfl⟩
  rcases hnext with ⟨e, he⟩ | ⟨g', hg', hok'⟩
  · exact .inl ⟨e, fun l => by simp only [hok]; exact he _⟩
  · exact .inr ⟨g' ∘ g, hg'.comp hg, fun l => by simp only [hok]; exact hok' _⟩

/-- Two costs that grow, joined by an operation that is monotone in both. -/
theorem Grows.join {cost cost' : Int → Except ε Int} (h : Grows cost) (h' : Grows cost')
    {op : Int → Int → Int} (hop : ∀ {a b c d : Int}, a ≤ b → c ≤ d → op a c ≤ op b d) :
    Grows fun l => cost l >>= fun a => cost' l >>= fun b => .ok (op a b) := by
  rcases h with ⟨e, he⟩ | ⟨g, hg, hok⟩
  · exact .inl ⟨e, fun l => by simp only [he]; rfl⟩
  rcases h' with ⟨e, he⟩ | ⟨g', hg', hok'⟩
  · exact .inl ⟨e, fun l => by simp only [hok, he]; rfl⟩
  · refine .inr ⟨fun l => op (g l) (g' l), fun a b hab => hop (hg hab) (hg' hab), fun l => ?_⟩
    simp only [hok, hok']
    rfl

/-- The costs of a list's elements, joined from the right. -/
def total (op : Int → Int → Int) (unit : Int) (cost : α → Except ε Int) :
    List α → Except ε Int
  | [] => .ok unit
  | a :: l => do
    let n ← cost a
    let rest ← total op unit cost l
    .ok (op n rest)

/-- A total of growing costs grows. -/
theorem Grows.total {cost : Int → α → Except ε Int} {op : Int → Int → Int} {unit : Int}
    (hop : ∀ {a b c d : Int}, a ≤ b → c ≤ d → op a c ≤ op b d) {l : List α}
    (h : ∀ a ∈ l, Grows fun n => cost n a) :
    Grows fun n => total op unit (cost n) l := by
  induction l with
  | nil => exact grows_const _
  | cons a l ih =>
    have hrest := ih fun b hb => h b (List.mem_cons_of_mem _ hb)
    exact (h a List.mem_cons_self).join hrest hop

/-! ## The search -/

/-- The last length in a range that passes a test, found by halving the range; the length
`result` is known to pass. -/
def searchM {m : Type → Type} [Monad m] (passes : Int → m Bool) (left right result : Int) :
    m Int :=
  if left ≤ right then do
    if ← passes ((left + right) / 2) then
      searchM passes ((left + right) / 2 + 1) right ((left + right) / 2)
    else
      searchM passes left ((left + right) / 2 - 1) result
  else
    pure result
termination_by (right + 1 - left).toNat

/-- The search with a test that has no effects. -/
def search (passes : Int → Bool) (left right result : Int) : Int :=
  if left ≤ right then
    if passes ((left + right) / 2) then
      search passes ((left + right) / 2 + 1) right ((left + right) / 2)
    else
      search passes left ((left + right) / 2 - 1) result
  else
    result
termination_by (right + 1 - left).toNat

/-- Where a shorter length passes whenever a longer one does, the search returns the
greatest length of the whole range that passes: nothing above the part that is left passes,
and the length kept so far reaches up to that part. -/
theorem search_isGreatest {passes : Int → Bool} {lo hi left right result : Int}
    (hmono : ∀ a b, a ≤ b → passes b → passes a) (hresult : lo ≤ result ∧ result ≤ hi)
    (hpasses : passes result) (hleft : lo ≤ left) (hreach : left - 1 ≤ result)
    (hright : right ≤ hi) (habove : ∀ a, right < a → passes a → hi < a) :
    IsGreatest {a | (lo ≤ a ∧ a ≤ hi) ∧ passes a} (search passes left right result) := by
  induction left, right, result using search.induct passes with
  | case1 left right result hle hmid ih =>
    rw [search, if_pos hle, if_pos hmid]
    exact ih (by omega) hmid (by omega) (by omega) hright habove
  | case2 left right result hle hmid ih =>
    rw [search, if_pos hle, if_neg hmid]
    refine ih hresult hpasses hleft hreach (by omega) fun a ha hpass => ?_
    exact absurd (hmono _ a (by omega) hpass) hmid
  | case3 left right result hle =>
    rw [search, if_neg hle]
    refine ⟨⟨hresult, hpasses⟩, ?_⟩
    rintro a ⟨⟨_, hhi⟩, hpass⟩
    by_contra hlt
    have habs := habove a (by omega) hpass
    omega

/-- Where every test succeeds and keeps an invariant of the state, so does the search, with
the result of the pure search. -/
theorem run_searchM {I : σ → Prop} {passes : Int → ExceptT ε (StateM σ) Bool}
    {passes' : Int → Bool}
    (h : ∀ a s, I s → ∃ s', (passes a).run s = (.ok (passes' a), s') ∧ I s')
    (left right result : Int) {s : σ} (hs : I s) :
    ∃ s', (searchM passes left right result).run s
      = (.ok (search passes' left right result), s') ∧ I s' := by
  induction left, right, result using search.induct passes' generalizing s with
  | case1 left right result hle hmid ih =>
    obtain ⟨s₁, hrun, hs₁⟩ := h ((left + right) / 2) s hs
    obtain ⟨s₂, hrest, hs₂⟩ := ih hs₁
    refine ⟨s₂, ?_, hs₂⟩
    rw [search, if_pos hle, if_pos hmid, searchM, if_pos hle]
    simp only [run_bind, hrun, hmid, if_true]
    exact hrest
  | case2 left right result hle hmid ih =>
    obtain ⟨s₁, hrun, hs₁⟩ := h ((left + right) / 2) s hs
    obtain ⟨s₂, hrest, hs₂⟩ := ih hs₁
    refine ⟨s₂, ?_, hs₂⟩
    rw [search, if_pos hle, if_neg hmid, searchM, if_pos hle]
    simp only [run_bind, hrun, if_neg hmid]
    exact hrest
  | case3 left right result hle =>
    refine ⟨s, ?_, hs⟩
    rw [search, if_neg hle, searchM, if_neg hle]
    rfl

end Bisection
