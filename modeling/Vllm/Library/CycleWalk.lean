import Vllm.Library.Checked
import Vllm.Library.DictOrder
import Mathlib.Data.Finset.Card
import Mathlib.Data.Set.Function
import Mathlib.Logic.Equiv.Basic

/-!
# Permuting rows in place by swaps

A dictionary says for some positions where the row found there belongs. Each cycle of it is
walked from the position it is entered at: the row there is swapped to its place, the place is
marked as done, and the row that came back is looked at next. When the dictionary permutes its
keys, the walks end and every row is where it belongs.
-/

namespace CycleWalk

open Checked

variable {β ε ρ : Type}

/-- Where the row at a position belongs; a row without entry stays. -/
def target (m : Dict Nat Nat) (k : Nat) : Nat := (m.get? k).getD k

@[simp] theorem target_insert (m : Dict Nat Nat) (k k' : Nat) :
    target (m.insert k k) k' = if k' = k then k else target m k' := by
  simp only [target, Dict.get?_insert]
  split <;> simp_all

/-- The walk along one cycle from a position, with the place of the row that is there. It is
cut off after a number of swaps. -/
def followCycle (swap : β → Nat → Nat → Except ε β) (cutOff : ε) :
    Nat → Nat → Nat → Dict Nat Nat → β → Except ε (Dict Nat Nat × β)
  | 0, src, dst, m, b => if src = dst then .ok (m, b) else .error cutOff
  | fuel + 1, src, dst, m, b =>
    if src = dst then
      .ok (m, b)
    else do
      let b ← swap b src dst
      followCycle swap cutOff fuel src (target m dst) (m.insert dst dst) b

/-- The walks from all positions of the dictionary, in its order. -/
def permute (swap : β → Nat → Nat → Except ε β) (cutOff : ε) (m : Dict Nat Nat) (b : β) :
    Except ε (Dict Nat Nat × β) :=
  m.keys.foldlM (fun s src => followCycle swap cutOff m.size src (target s.1 src) s.1 s.2) (m, b)

/-- A swap of two positions below a bound succeeds, keeps an invariant and exchanges the two
rows. -/
def Swaps (swap : β → Nat → Nat → Except ε β) (I : β → Prop) (row : β → Nat → ρ) (n : Nat) :
    Prop :=
  ∀ b i j, I b → i < n → j < n → ∃ b', swap b i j = .ok b' ∧ I b' ∧
    ∀ k, row b' k = if k = j then row b i else if k = i then row b j else row b k

/-- The rows of some positions still have to be moved, by a permutation of these positions,
to become the rows wanted; all others are as wanted. -/
structure Arranged (row : Nat → ρ) (wanted : Nat → ρ) (S : Finset Nat) (dest : Nat → Nat) :
    Prop where
  maps : ∀ k ∈ S, dest k ∈ S
  inj : ∀ k ∈ S, ∀ k' ∈ S, dest k = dest k' → k = k'
  rows : ∀ k ∈ S, wanted (dest k) = row k
  done : ∀ k ∉ S, row k = wanted k

variable {row row' wanted : Nat → ρ} {S : Finset Nat} {dest dest' : Nat → Nat} {src : Nat}

theorem Arranged.congr (h : Arranged row wanted S dest) (heq : ∀ k ∈ S, dest' k = dest k) :
    Arranged row wanted S dest' where
  maps := fun k hk => heq k hk ▸ h.maps k hk
  inj := fun k hk k' hk' hdest => h.inj k hk k' hk' (by rwa [← heq k hk, ← heq k' hk'])
  rows := fun k hk => heq k hk ▸ h.rows k hk
  done := h.done

/-- A row that stays need not be looked at again. -/
theorem Arranged.erase (h : Arranged row wanted S dest) (hsrc : src ∈ S) (hdest : dest src = src) :
    Arranged row wanted (S.erase src) dest where
  maps := by
    intro k hk
    obtain ⟨hne, hk⟩ := Finset.mem_erase.mp hk
    refine Finset.mem_erase.mpr ⟨fun heq => hne ?_, h.maps k hk⟩
    exact h.inj k hk src hsrc (heq.trans hdest.symm)
  inj := fun k hk k' hk' =>
    h.inj k (Finset.mem_of_mem_erase hk) k' (Finset.mem_of_mem_erase hk')
  rows := fun k hk => h.rows k (Finset.mem_of_mem_erase hk)
  done := by
    intro k hk
    by_cases hks : k = src
    · rw [hks, ← h.rows src hsrc, hdest]
    · exact h.done k fun hmem => hk (Finset.mem_erase.mpr ⟨hks, hmem⟩)

/-- A row swapped to its place. -/
theorem Arranged.swap (h : Arranged row wanted S dest) (hsrc : src ∈ S)
    (hrow : ∀ k, row' k = if k = dest src then row src else if k = src then row (dest src)
      else row k) : Arranged row' wanted S (dest ∘ Equiv.swap src (dest src)) := by
  have hdst := h.maps src hsrc
  have hmem : ∀ k ∈ S, Equiv.swap src (dest src) k ∈ S := by
    intro k hk
    rw [Equiv.swap_apply_def]
    split_ifs <;> assumption
  refine ⟨fun k hk => h.maps _ (hmem k hk), fun k hk k' hk' heq => ?_, fun k hk => ?_,
    fun k hk => ?_⟩
  · exact (Equiv.swap src (dest src)).injective (h.inj _ (hmem k hk) _ (hmem k' hk') heq)
  · rw [Function.comp_apply, h.rows _ (hmem k hk), hrow, Equiv.swap_apply_def]
    split_ifs with h₁ h₂ h₃
    · rw [← h₂, ← h₁]
    · rfl
    · rfl
    · rfl
  · have hne : k ≠ dest src := fun heq => hk (heq ▸ hdst)
    have hne' : k ≠ src := fun heq => hk (heq ▸ hsrc)
    rw [hrow, if_neg hne, if_neg hne', h.done k hk]

/-- The positions whose rows still have to move. -/
def pending (S : Finset Nat) (dest : Nat → Nat) : Finset Nat := S.filter fun k => dest k ≠ k

/-- Swapping a row to its place leaves fewer rows to move. -/
theorem Arranged.card_pending_swap (h : Arranged row wanted S dest) (hsrc : src ∈ S)
    (hne : src ≠ dest src) :
    (pending S (dest ∘ Equiv.swap src (dest src))).card < (pending S dest).card := by
  have hdst := h.maps src hsrc
  have hmoves : dest (dest src) ≠ dest src := fun heq => hne (h.inj _ hdst _ hsrc heq).symm
  refine Finset.card_lt_card (Finset.ssubset_iff_of_subset ?_ |>.mpr ⟨dest src, ?_, ?_⟩)
  · intro k hk
    obtain ⟨hk, hmove⟩ := Finset.mem_filter.mp hk
    refine Finset.mem_filter.mpr ⟨hk, ?_⟩
    rw [Function.comp_apply, Equiv.swap_apply_def] at hmove
    split_ifs at hmove with h₁ h₂
    · rw [h₁]
      exact hne.symm
    · rw [h₂]
      exact hmoves
    · exact hmove
  · exact Finset.mem_filter.mpr ⟨hdst, hmoves⟩
  · simp [pending]

variable {swap : β → Nat → Nat → Except ε β} {cutOff : ε} {I : β → Prop}
  {rowOf : β → Nat → ρ} {n : Nat}

/-- The walk along a cycle ends with the row at its first position in place. -/
theorem followCycle_spec (hswap : Swaps swap I rowOf n) (hn : ∀ k ∈ S, k < n)
    (hsrc : src ∈ S) {fuel : Nat} {m : Dict Nat Nat} {b : β} (hI : I b)
    (h : Arranged (rowOf b) wanted S dest) (hm : ∀ k ∈ S, k ≠ src → target m k = dest k)
    (hfuel : (pending S dest).card ≤ fuel) :
    ∃ m' b' dest', followCycle swap cutOff fuel src (dest src) m b = .ok (m', b') ∧ I b' ∧
      Arranged (rowOf b') wanted S dest' ∧ dest' src = src ∧
      ∀ k ∈ S, k ≠ src → target m' k = dest' k := by
  induction fuel generalizing m b dest with
  | zero =>
    have hfix : dest src = src := by
      by_contra hne
      have hmem : src ∈ pending S dest := Finset.mem_filter.mpr ⟨hsrc, hne⟩
      exact absurd (Finset.card_pos.mpr ⟨src, hmem⟩) (by omega)
    exact ⟨m, b, dest, if_pos hfix.symm, hI, h, hfix, hm⟩
  | succ fuel ih =>
    by_cases hfix : src = dest src
    · exact ⟨m, b, dest, if_pos hfix, hI, h, hfix.symm, hm⟩
    obtain ⟨b₁, hb₁, hI₁, hrows⟩ := hswap b src (dest src) hI (hn _ hsrc) (hn _ (h.maps _ hsrc))
    have hsteps := h.card_pending_swap hsrc hfix
    have hnext := ih hI₁ (h.swap hsrc hrows)
      (m := m.insert (dest src) (dest src)) (fun k hk hks => ?_) (by omega)
    · obtain ⟨m', b', dest', hrun, hrest⟩ := hnext
      refine ⟨m', b', dest', ?_, hrest⟩
      rw [followCycle, if_neg hfix]
      refine bind_ok_iff.mpr ⟨b₁, hb₁, ?_⟩
      rw [hm _ (h.maps _ hsrc) (Ne.symm hfix)]
      simpa using hrun
    · rw [target_insert, Function.comp_apply, Equiv.swap_apply_def, if_neg hks]
      split_ifs with hk'
      · rfl
      · exact hm k hk hks

/-- Where the dictionary permutes its keys, the walks from all of them move every row to
where it belongs. -/
theorem permute_spec (cutOff : ε) (hswap : Swaps swap I rowOf n) {m : Dict Nat Nat} {b : β}
    (hI : I b)
    (hn : ∀ k ∈ m.keys, k < n) (hmaps : ∀ k ∈ m.keys, target m k ∈ m.keys)
    (hinj : ∀ k ∈ m.keys, ∀ k' ∈ m.keys, target m k = target m k' → k = k') :
    ∃ m' b', permute swap cutOff m b = .ok (m', b') ∧ I b' ∧
      (∀ k ∈ m.keys, rowOf b' (target m k) = rowOf b k) ∧
      ∀ k ∉ m.keys, rowOf b' k = rowOf b k := by
  have hmem : ∀ k, k ∈ m.keys.toFinset ↔ k ∈ m.keys := fun _ => List.mem_toFinset
  -- the rows wanted at the end, read off backwards from the dictionary
  let wanted : Nat → ρ := fun p => if p ∈ m.keys then
    rowOf b (Function.invFunOn (target m) {k | k ∈ m.keys} p) else rowOf b p
  have hinjOn : Set.InjOn (target m) {k | k ∈ m.keys} := fun k hk k' hk' => hinj k hk k' hk'
  have hwanted : ∀ k ∈ m.keys, wanted (target m k) = rowOf b k := by
    intro k hk
    have hinv : Function.invFunOn (target m) {k | k ∈ m.keys} (target m k) = k :=
      hinjOn.leftInvOn_invFunOn hk
    refine (if_pos (hmaps k hk)).trans ?_
    rw [hinv]
  have hrest : ∀ k ∉ m.keys, wanted k = rowOf b k := fun k hk => if_neg hk
  have hstart : Arranged (rowOf b) wanted m.keys.toFinset (target m) := by
    refine ⟨fun k hk => ?_, fun k hk k' hk' => ?_, fun k hk => ?_, fun k hk => ?_⟩
    · rw [hmem] at hk ⊢
      exact hmaps k hk
    · rw [hmem] at hk hk'
      exact hinj k hk k' hk'
    · rw [hmem] at hk
      exact hwanted k hk
    · rw [hmem] at hk
      exact (hrest k hk).symm
  have hsize : m.keys.toFinset.card ≤ m.size := by
    rw [Dict.size, ← List.length_map Prod.fst]
    exact List.toFinset_card_le _
  have hall : ∀ k ∈ m.keys.toFinset, k < n := fun k hk => hn k ((hmem k).mp hk)
  suffices hloop : ∀ (l : List Nat) (m' : Dict Nat Nat) (b' : β), l.Nodup → I b' →
      l.toFinset.card ≤ m.size → (∀ k ∈ l.toFinset, k < n) →
      Arranged (rowOf b') wanted l.toFinset (target m') →
      ∃ m'' b'', l.foldlM (fun s src =>
        followCycle swap cutOff m.size src (target s.1 src) s.1 s.2) (m', b') = .ok (m'', b'') ∧
        I b'' ∧ ∀ k, rowOf b'' k = wanted k by
    obtain ⟨m', b', hrun, hI', hrows⟩ := hloop m.keys m b m.nodup_keys hI hsize hall hstart
    refine ⟨m', b', hrun, hI', fun k hk => ?_, fun k hk => ?_⟩
    · rw [hrows, hwanted k hk]
    · rw [hrows, hrest k hk]
  intro l
  induction l with
  | nil => exact fun m' b' _ hI' _ _ h => ⟨m', b', rfl, hI', fun k => h.done k (by simp)⟩
  | cons src l ih =>
    intro m' b' hnodup hI' hcard hbound h
    obtain ⟨hnot, hnodup⟩ := List.nodup_cons.mp hnodup
    have hsrc : src ∈ (src :: l).toFinset := by simp
    have hpending : (pending (src :: l).toFinset (target m')).card ≤ m.size :=
      (Finset.card_filter_le _ _).trans hcard
    obtain ⟨m₁, b₁, dest', hrun, hI₁, h₁, hfix, hm₁⟩ :=
      followCycle_spec hswap hbound hsrc hI' h (fun _ _ _ => rfl) hpending
    have herase : (src :: l).toFinset.erase src = l.toFinset := by
      rw [List.toFinset_cons, Finset.erase_insert (by simpa using hnot)]
    have hleft := h₁.erase hsrc hfix
    rw [herase] at hleft
    have hsub : ∀ k ∈ l.toFinset, k ∈ (src :: l).toFinset ∧ k ≠ src := by
      intro k hk
      rw [← herase] at hk
      exact (Finset.mem_erase.mp hk).symm
    obtain ⟨m₂, b₂, hrun₂, hI₂, hrows⟩ := ih m₁ b₁ hnodup hI₁
      ((Finset.card_le_card fun k hk => (hsub k hk).1).trans hcard)
      (fun k hk => hbound k (hsub k hk).1)
      (hleft.congr fun k hk => hm₁ k (hsub k hk).1 (hsub k hk).2)
    refine ⟨m₂, b₂, ?_, hI₂, hrows⟩
    rw [List.foldlM_cons]
    exact bind_ok_iff.mpr ⟨(m₁, b₁), hrun, hrun₂⟩

end CycleWalk
