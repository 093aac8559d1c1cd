import Vllm.Library.Dict
import Mathlib.Logic.Function.Basic

/-!
# Countdowns over keys

Two dictionaries that tell when the last of several expected arrivals of a key came.
The first holds the arrivals that remain, the whole number for an absent key. The
second holds those that may come before the last one, so that an absent key is at
its last. Both are told by how often each key arrived so far.
-/

namespace Countdown

variable {α : Type} [DecidableEq α]

/-- Counts after one more arrival of a key. -/
def tick (m : α → Nat) (a : α) : α → Nat := Function.update m a (m a + 1)

theorem tick_self (m : α → Nat) (a : α) : tick m a a = m a + 1 :=
  Function.update_self ..

theorem tick_of_ne (m : α → Nat) {a b : α} (h : b ≠ a) : tick m a b = m b :=
  Function.update_of_ne h ..

/-- The counts after a list of arrivals, taken from the first one on. -/
theorem tick_add_count (m : α → Nat) (a : α) (l : List α) :
    (fun b => tick m a b + l.count b) = fun b => m b + (a :: l).count b := by
  funext b
  by_cases h : b = a
  · subst h
    rw [tick_self, List.count_cons_self]
    omega
  · rw [tick_of_ne m h, List.count_cons_of_ne (Ne.symm h)]

/-! ## The arrivals that remain -/

/-- One arrival: at zero the latch of the key opens and the key is forgotten. -/
def arrive (n : Int) (s : Dict α Int × List α) (a : α) : Dict α Int × List α :=
  let remaining := (s.1.get? a).getD n
  let d := s.1.insert a (remaining - 1)
  if remaining - 1 = 0 then (d.erase a, s.2.insert a) else (d, s.2)

/-- The dictionary after so many arrivals of each key, in rounds of `n`. -/
def Remaining (n : Nat) (m : α → Nat) (d : Dict α Int) : Prop :=
  ∀ a, d.get? a = if m a % n = 0 then none else some ((n : Int) - (m a % n : Nat))

theorem remaining_empty (n : Nat) : Remaining n (fun _ => 0) (Dict.empty : Dict α Int) := by
  intro a
  simp

variable {n : Nat} {m : α → Nat} {d : Dict α Int}

/-- The number looked up at an arrival. -/
theorem Remaining.getD_get? (h : Remaining n m d) (a : α) :
    (d.get? a).getD (n : Int) = (n : Int) - (m a % n : Nat) := by
  rw [h a]
  split
  · next hz => simp [hz]
  · rfl

private theorem mod_succ_eq_zero_iff (hn : 0 < n) (k : Nat) : (k + 1) % n = 0 ↔ k % n + 1 = n := by
  have hlt := Nat.mod_lt k hn
  have hk : (k + 1) % n = (k % n + 1) % n := by rw [Nat.mod_add_mod]
  rw [hk]
  constructor
  · intro hz
    by_contra hne
    rw [Nat.mod_eq_of_lt (by omega)] at hz
    omega
  · intro heq
    rw [heq, Nat.mod_self]

private theorem mod_succ_of_ne (hn : 0 < n) {k : Nat} (h : (k + 1) % n ≠ 0) :
    (k + 1) % n = k % n + 1 := by
  have hlt := Nat.mod_lt k hn
  have hne : k % n + 1 ≠ n := fun heq => h ((mod_succ_eq_zero_iff hn k).mpr heq)
  rw [← Nat.mod_add_mod, Nat.mod_eq_of_lt (by omega)]

/-- One arrival counts one more for its key. -/
theorem Remaining.arrive (h : Remaining n m d) (hn : 0 < n) (o : List α) (a : α) :
    Remaining n (tick m a) (arrive n (d, o) a).1 := by
  have hlt := Nat.mod_lt (m a) hn
  have hget := h.getD_get? a
  intro b
  by_cases hb : b = a
  · subst hb
    rw [tick_self]
    by_cases hz : (m b + 1) % n = 0
    · have hlast := (mod_succ_eq_zero_iff hn (m b)).mp hz
      have hzero : (d.get? b).getD (n : Int) - 1 = 0 := by omega
      simp [Countdown.arrive, hzero, hz]
    · have hstep := mod_succ_of_ne hn hz
      have hne := mt (mod_succ_eq_zero_iff hn (m b)).mpr hz
      have hpos : (d.get? b).getD (n : Int) - 1 ≠ 0 := by omega
      simp only [Countdown.arrive, hpos, if_false, Dict.get?_insert, if_true, hz]
      rw [hget, hstep]
      congr 1
      omega
  · rw [tick_of_ne m hb, ← h b]
    simp only [Countdown.arrive]
    split <;> simp [hb]

/-- An arrival opens the latch of its key exactly when it completes a round. -/
theorem Remaining.mem_arrive (h : Remaining n m d) (hn : 0 < n) (o : List α) (a b : α) :
    b ∈ (Countdown.arrive n (d, o) a).2 ↔ b ∈ o ∨ b = a ∧ (m a + 1) % n = 0 := by
  have hlt := Nat.mod_lt (m a) hn
  have hget := h.getD_get? a
  have hiff : (d.get? a).getD (n : Int) - 1 = 0 ↔ (m a + 1) % n = 0 := by
    rw [mod_succ_eq_zero_iff hn, hget]
    omega
  simp only [Countdown.arrive, hiff]
  split
  · next hz => simp [hz, or_comm]
  · next hz => simp [hz]

/-- A round is complete between two counts when the number of whole rounds grows. -/
theorem div_lt_div_succ_iff (k l : Nat) :
    k / n < (k + 1 + l) / n ↔ (k + 1) % n = 0 ∨ (k + 1) / n < (k + 1 + l) / n := by
  have hle : (k + 1) / n ≤ (k + 1 + l) / n := Nat.div_le_div_right (by omega)
  rw [Nat.succ_div]
  by_cases hdvd : n ∣ k + 1
  · have hz := Nat.mod_eq_zero_of_dvd hdvd
    have hle' : k / n + 1 ≤ (k + 1 + l) / n := by
      have := hle
      rwa [Nat.succ_div, if_pos hdvd] at this
    simp only [if_pos hdvd, hz, true_or, iff_true]
    omega
  · have hz : (k + 1) % n ≠ 0 := fun hz => hdvd (Nat.dvd_of_mod_eq_zero hz)
    simp [if_neg hdvd, hz]

/-- A list of arrivals: the counts grow by the occurrences, and the latches that open are
those whose number of whole rounds grows. -/
theorem Remaining.foldl_arrive (h : Remaining n m d) (hn : 0 < n) (o l : List α) :
    Remaining n (fun a => m a + l.count a) (l.foldl (Countdown.arrive n) (d, o)).1 ∧
      ∀ b, b ∈ (l.foldl (Countdown.arrive n) (d, o)).2 ↔
        b ∈ o ∨ m b / n < (m b + l.count b) / n := by
  induction l generalizing m d o with
  | nil => exact ⟨by simpa using h, by simp⟩
  | cons a l ih =>
    have hcount := tick_add_count m a l
    obtain ⟨hrest, hmem⟩ := ih (h.arrive hn o a) (Countdown.arrive n (d, o) a).2
    refine ⟨?_, fun b => ?_⟩
    · rw [hcount] at hrest
      exact hrest
    · rw [List.foldl_cons, hmem b, h.mem_arrive hn o a b]
      have hb := congrFun hcount b
      rw [← hb]
      by_cases heq : b = a
      · subst heq
        rw [tick_self, div_lt_div_succ_iff (m b), or_assoc]
        simp
      · rw [tick_of_ne m heq]
        simp [heq]

/-! ## The arrivals before the last -/

/-- The dictionary of the arrivals that may still come before the last of `need`. -/
def Owes (need m : α → Nat) (d : Dict α Nat) : Prop :=
  ∀ a, d.get? a = if m a + 1 < need a then some (need a - 1 - m a) else none

variable {need : α → Nat} {e : Dict α Nat} {a : α} {k : Nat}

theorem owes_empty : Owes (fun _ => 0) (fun _ => 0) (Dict.empty : Dict α Nat) := by
  intro a
  simp

/-- A number that is held is positive. -/
theorem Owes.pos (h : Owes need m e) (hk : e.get? a = some k) : 0 < k := by
  rw [h a] at hk
  split at hk
  · obtain rfl := Option.some.inj hk
    omega
  · cases hk

/-- An absent key is at its last arrival, or behind it. -/
theorem Owes.get?_eq_none_iff (h : Owes need m e) : e.get? a = none ↔ need a ≤ m a + 1 := by
  rw [h a]
  split <;> simp <;> omega

/-- An arrival at an absent key changes nothing. -/
theorem Owes.tick_of_none (h : Owes need m e) (ha : e.get? a = none) :
    Owes need (tick m a) e := by
  have hle := h.get?_eq_none_iff.mp ha
  intro b
  by_cases hb : b = a
  · subst hb
    rw [tick_self, ha, if_neg (by omega)]
  · rw [tick_of_ne m hb]
    exact h b

/-- The arrival next to the last one removes the key. -/
theorem Owes.tick_of_one (h : Owes need m e) (ha : e.get? a = some 1) :
    Owes need (tick m a) (e.erase a) := by
  intro b
  by_cases hb : b = a
  · subst hb
    rw [h b] at ha
    split at ha
    · have heq := Option.some.inj ha
      rw [tick_self, Dict.get?_erase, if_pos rfl, if_neg (by omega)]
    · cases ha
  · rw [tick_of_ne m hb, Dict.get?_erase, if_neg hb]
    exact h b

/-- An earlier arrival counts the key down. -/
theorem Owes.tick_of_some (h : Owes need m e) (ha : e.get? a = some k) (hk : k ≠ 1) :
    Owes need (tick m a) (e.insert a (k - 1)) := by
  have hpos := h.pos ha
  intro b
  by_cases hb : b = a
  · subst hb
    rw [h b] at ha
    split at ha
    · have heq := Option.some.inj ha
      rw [tick_self, Dict.get?_insert, if_pos rfl, if_pos (by omega)]
      congr 1
      omega
    · cases ha
  · rw [tick_of_ne m hb, Dict.get?_insert, if_neg hb]
    exact h b

end Countdown
