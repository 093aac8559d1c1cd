import Mathlib.Order.Lattice.Nat
import Mathlib.Order.MinMax

/-!
# Agreement on the weakest mode

Each of several parties picks a mode and a size that it can run in. They agree on the weakest
of the modes and on one of the sizes. If a party can take over the mode of another at its own
size whenever that mode is not stronger than its own, and the sizes of one mode fit everybody
who runs in it, then all of them can run as agreed.
-/

namespace WeakestMode

variable {Party Mode Size : Type} [LinearOrder Mode]

/-- The rules that make the choices of the parties exchangeable. -/
structure Exchangeable (Runs : Party → Mode → Size → Prop) : Prop where
  /-- A weaker mode that somebody runs in is open to everybody. -/
  weaken : ∀ {r r' m m' p p'}, Runs r m p → Runs r' m' p' → m ≤ m' → Runs r' m p'
  /-- The sizes of a mode are open to all that run in it. -/
  resize : ∀ {r r' m p p'}, Runs r m p → Runs r' m p' → Runs r m p'

/-- Everybody can run in a mode that one party picked and that is not stronger than any other
pick, at a size that one party picked. -/
theorem Exchangeable.agreed {Runs : Party → Mode → Size → Prop} (h : Exchangeable Runs)
    {parties : List Party} {mode : Party → Mode} {size : Party → Size}
    (hruns : ∀ r ∈ parties, Runs r (mode r) (size r)) {weakest chosen r : Party}
    (hweakest : weakest ∈ parties) (hleast : ∀ r ∈ parties, mode weakest ≤ mode r)
    (hchosen : chosen ∈ parties) (hr : r ∈ parties) : Runs r (mode weakest) (size chosen) := by
  have hall : ∀ r ∈ parties, Runs r (mode weakest) (size r) := fun r hr =>
    h.weaken (hruns weakest hweakest) (hruns r hr) (hleast r hr)
  exact h.resize (hall r hr) (hall chosen hchosen)

/-- Some element has the least value. -/
theorem exists_min? {α : Type} {l : List α} (hl : l ≠ []) (f : α → Nat) :
    ∃ w ∈ l, (l.map f).min? = some (f w) ∧ ∀ a ∈ l, f w ≤ f a := by
  obtain ⟨m, hm⟩ := Option.isSome_iff_exists.mp
    (List.isSome_min?_of_ne_nil (List.map_eq_nil_iff.not.mpr hl : l.map f ≠ []))
  obtain ⟨hmem, hle⟩ := List.min?_eq_some_iff.mp hm
  obtain ⟨w, hw, rfl⟩ := List.mem_map.mp hmem
  exact ⟨w, hw, hm, fun a ha => hle _ (List.mem_map_of_mem ha)⟩

/-- Some element has the largest value. -/
theorem exists_max? {α : Type} {l : List α} (hl : l ≠ []) (f : α → Nat) :
    ∃ w ∈ l, (l.map f).max? = some (f w) ∧ ∀ a ∈ l, f a ≤ f w := by
  obtain ⟨m, hm⟩ := Option.isSome_iff_exists.mp
    (List.isSome_max?_of_ne_nil (List.map_eq_nil_iff.not.mpr hl : l.map f ≠ []))
  obtain ⟨hmem, hle⟩ := List.max?_eq_some_iff.mp hm
  obtain ⟨w, hw, rfl⟩ := List.mem_map.mp hmem
  exact ⟨w, hw, hm, fun a ha => hle _ (List.mem_map_of_mem ha)⟩

end WeakestMode
