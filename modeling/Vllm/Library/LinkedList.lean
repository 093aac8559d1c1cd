import Mathlib.Data.List.Chain
import Mathlib.Data.List.Nodup
import Mathlib.Logic.Function.Basic

/-!
# Doubly linked lists

Nodes are linked by two partial maps. A list of nodes is represented when its
consecutive nodes point at each other and nothing else has a link, so the two maps
are inverse to one another. Taking a segment out between two nodes that stay, and
putting one in before a node, keep a list represented; both are stated for any
change of the links that does the right thing to each node, in whatever order the
links were written.
-/

namespace LinkedList

variable {α : Type}

/-- Forward and backward links. -/
structure Links (α : Type) where
  /-- The node after a node. -/
  next : α → Option α
  /-- The node before a node. -/
  prev : α → Option α

/-- Two nodes that point at each other. -/
def Links.Adjacent (k : Links α) (a b : α) : Prop := k.next a = some b ∧ k.prev b = some a

section Write

variable [DecidableEq α]

/-- Make two nodes point at each other. -/
def Links.join (k : Links α) (a b : α) : Links α where
  next := Function.update k.next a (some b)
  prev := Function.update k.prev b (some a)

/-- Remove both links of a node. -/
def Links.clear (k : Links α) (a : α) : Links α where
  next := Function.update k.next a none
  prev := Function.update k.prev a none

/-- Join every node of a list to the one after it. -/
def Links.joinAll (k : Links α) : List α → Links α
  | [] => k
  | [_] => k
  | a :: b :: l => (k.join a b).joinAll (b :: l)

/-- Remove the links of all nodes of a list. -/
def Links.clearAll (k : Links α) (l : List α) : Links α := l.foldl Links.clear k

theorem next_clearAll (k : Links α) (l : List α) (a : α) :
    (k.clearAll l).next a = if a ∈ l then none else k.next a := by
  induction l generalizing k with
  | nil => simp [Links.clearAll]
  | cons b l ih =>
    simp only [Links.clearAll, List.foldl_cons] at ih ⊢
    rw [ih]
    by_cases h : a = b <;> simp [Links.clear, h]

theorem prev_clearAll (k : Links α) (l : List α) (a : α) :
    (k.clearAll l).prev a = if a ∈ l then none else k.prev a := by
  induction l generalizing k with
  | nil => simp [Links.clearAll]
  | cons b l ih =>
    simp only [Links.clearAll, List.foldl_cons] at ih ⊢
    rw [ih]
    by_cases h : a = b <;> simp [Links.clear, h]

theorem next_joinAll_of_not_mem (k : Links α) {l : List α} {a : α} (h : a ∉ l.dropLast) :
    (k.joinAll l).next a = k.next a := by
  induction k, l using Links.joinAll.induct with
  | case1 => rfl
  | case2 => rfl
  | case3 k b c l ih =>
    rw [List.dropLast_cons_of_ne_nil (by simp), List.mem_cons, not_or] at h
    rw [Links.joinAll, ih h.2]
    simp [Links.join, h.1]

theorem prev_joinAll_of_not_mem (k : Links α) {l : List α} {a : α} (h : a ∉ l.tail) :
    (k.joinAll l).prev a = k.prev a := by
  induction k, l using Links.joinAll.induct with
  | case1 => rfl
  | case2 => rfl
  | case3 k b c l ih =>
    rw [List.tail_cons, List.mem_cons, not_or] at h
    rw [Links.joinAll, ih h.2]
    simp [Links.join, h.1]

/-- Joining the nodes of a list without repetitions links the whole list. -/
theorem isChain_joinAll (k : Links α) {l : List α} (h : l.Nodup) :
    l.IsChain (k.joinAll l).Adjacent := by
  induction k, l using Links.joinAll.induct with
  | case1 => exact .nil
  | case2 => exact .singleton _
  | case3 k a b l ih =>
    have hb := (List.nodup_cons.mp h).2
    refine .cons_cons ⟨?_, ?_⟩ (ih hb)
    · rw [Links.joinAll, next_joinAll_of_not_mem _ fun hm =>
        (List.nodup_cons.mp h).1 (List.dropLast_subset _ hm)]
      simp [Links.join]
    · rw [Links.joinAll, prev_joinAll_of_not_mem _ fun hm => (List.nodup_cons.mp hb).1 hm]
      simp [Links.join]

end Write

/-- A list of nodes is linked from end to end and nothing else has a link. -/
structure Represents (k : Links α) (l : List α) : Prop where
  /-- No node occurs twice. -/
  nodup : l.Nodup
  /-- Consecutive nodes point at each other. -/
  linked : l.IsChain k.Adjacent
  /-- Only a node with a successor in the list has a forward link. -/
  next_off : ∀ a, a ∉ l.dropLast → k.next a = none
  /-- Only a node with a predecessor in the list has a backward link. -/
  prev_off : ∀ a, a ∉ l.tail → k.prev a = none

namespace Represents

variable {k k' : Links α} {l : List α}

/-- Inside a represented list every node is adjacent to the one after it. -/
theorem adjacent (h : Represents k l) (xs : List α) (a b : α) (ys : List α)
    (hl : l = xs ++ a :: b :: ys) :
    k.Adjacent a b := by
  have hc := h.linked
  rw [hl, List.isChain_append] at hc
  exact (List.isChain_cons_cons.mp hc.2.1).1

/-- A node with a successor in the list is adjacent to some node. -/
theorem exists_adjacent (h : Represents k l) {a : α} (ha : a ∈ l.dropLast) :
    ∃ b, k.Adjacent a b := by
  obtain ⟨xs, ys, hs⟩ := List.append_of_mem ha
  rcases List.eq_nil_or_concat' l with rfl | ⟨m, c, rfl⟩
  · simp at ha
  · rw [List.dropLast_concat] at hs
    subst hs
    cases ys with
    | nil => exact ⟨c, h.adjacent xs a c [] (by simp)⟩
    | cons b ys => exact ⟨b, h.adjacent xs a b (ys ++ [c]) (by simp)⟩

/-- A node with a predecessor in the list is adjacent to some node. -/
theorem exists_adjacent' (h : Represents k l) {b : α} (hb : b ∈ l.tail) :
    ∃ a, k.Adjacent a b := by
  obtain ⟨xs, ys, hs⟩ := List.append_of_mem hb
  cases l with
  | nil => simp at hb
  | cons c l =>
    rw [List.tail_cons] at hs
    subst hs
    rcases List.eq_nil_or_concat' xs with rfl | ⟨zs, d, rfl⟩
    · exact ⟨c, h.adjacent [] c b ys rfl⟩
    · exact ⟨d, h.adjacent (c :: zs) d b ys (by simp)⟩

/-- The forward and the backward links are inverse to one another. -/
theorem next_eq_iff (h : Represents k l) (a b : α) : k.next a = some b ↔ k.prev b = some a := by
  constructor
  · intro hn
    have ha : a ∈ l.dropLast := by
      by_contra hc
      simp [h.next_off a hc] at hn
    obtain ⟨c, hc⟩ := h.exists_adjacent ha
    obtain rfl : c = b := by simpa [hc.1] using hn
    exact hc.2
  · intro hp
    have hb : b ∈ l.tail := by
      by_contra hc
      simp [h.prev_off b hc] at hp
    obtain ⟨c, hc⟩ := h.exists_adjacent' hb
    obtain rfl : c = a := by simpa [hc.2] using hp
    exact hc.1

/-- A segment between two nodes is taken out: the two are joined, the segment's nodes
lose their links, and all other links stay. -/
theorem unlink {xs ys zs : List α} {p n : α} (h : Represents k (xs ++ [p] ++ ys ++ n :: zs))
    (hjoin : k'.Adjacent p n) (hcut : ∀ x ∈ ys, k'.next x = none ∧ k'.prev x = none)
    (hnext : ∀ a, a ≠ p → a ∉ ys → k'.next a = k.next a)
    (hprev : ∀ b, b ≠ n → b ∉ ys → k'.prev b = k.prev b) :
    Represents k' (xs ++ [p] ++ n :: zs) := by
  -- the nodes kept before, the segment and the nodes kept after are apart
  have hbefore : ∀ a ∈ xs ++ [p], ∀ b ∈ ys ++ n :: zs, a ≠ b := by
    have hnd := h.nodup
    rw [List.append_assoc] at hnd
    exact (List.nodup_append.mp hnd).2.2
  have hafter : ∀ a ∈ xs ++ [p] ++ ys, ∀ b ∈ n :: zs, a ≠ b := (List.nodup_append.mp h.nodup).2.2
  refine ⟨h.nodup.sublist (by simp), List.isChain_append.mpr ⟨?_, ?_, ?_⟩, ?_, ?_⟩
  · have hchain := h.linked
    rw [List.append_assoc] at hchain
    refine hchain.left_of_append.imp_of_mem_imp fun a b ha hb hab => ?_
    have hap : a ≠ p := by
      rintro rfl
      obtain ⟨c, rest, hc⟩ : ∃ c rest, ys ++ n :: zs = c :: rest := by
        cases ys <;> exact ⟨_, _, rfl⟩
      have hadj := h.adjacent xs a c rest (by simp [← hc])
      have hbc : b = c := by simpa [hab.1] using hadj.1
      exact hbefore b hb b (by simp [hc, hbc]) rfl
    have ha' : a ∉ ys := fun hm => hbefore a ha a (by simp [hm]) rfl
    have hb' : b ∉ ys := fun hm => hbefore b hb b (by simp [hm]) rfl
    have hbn : b ≠ n := fun hn => hbefore b hb n (by simp) hn
    exact ⟨(hnext a hap ha').trans hab.1, (hprev b hbn hb').trans hab.2⟩
  · refine h.linked.right_of_append.imp_of_mem_imp fun a b ha hb hab => ?_
    have hbn : b ≠ n := by
      rintro rfl
      obtain ⟨rest, c, hc⟩ : ∃ rest c, xs ++ [p] ++ ys = rest ++ [c] := by
        rcases List.eq_nil_or_concat' ys with rfl | ⟨ys, c, rfl⟩
        · exact ⟨xs, p, by simp⟩
        · exact ⟨xs ++ [p] ++ ys, c, by simp⟩
      have hadj := h.adjacent rest c b zs (by rw [hc]; simp)
      have hac : a = c := by simpa [hab.2] using hadj.2
      exact hafter a (by rw [hc, hac]; simp) a ha rfl
    have ha' : a ∉ ys := fun hm => hafter a (by simp [hm]) a ha rfl
    have hb' : b ∉ ys := fun hm => hafter b (by simp [hm]) b hb rfl
    have hap : a ≠ p := fun hp => hafter p (by simp) a ha hp.symm
    exact ⟨(hnext a hap ha').trans hab.1, (hprev b hbn hb').trans hab.2⟩
  · simpa using hjoin
  · intro a ha
    by_cases hy : a ∈ ys
    · exact (hcut a hy).1
    · rw [List.dropLast_append_of_ne_nil (by simp)] at ha
      rw [hnext a (by rintro rfl; simp at ha) hy]
      refine h.next_off a ?_
      rw [List.dropLast_append_of_ne_nil (by simp)]
      simp only [List.mem_append, not_or] at ha ⊢
      exact ⟨⟨ha.1, hy⟩, ha.2⟩
  · intro b hb
    by_cases hy : b ∈ ys
    · exact (hcut b hy).2
    · rw [List.tail_append_of_ne_nil (by simp)] at hb
      rw [hprev b (by rintro rfl; simp at hb) hy]
      refine h.prev_off b ?_
      rw [List.append_assoc, List.tail_append_of_ne_nil (by simp)]
      simp only [List.mem_append, not_or] at hb ⊢
      exact ⟨hb.1, hy, hb.2⟩

/-- New nodes are put in between two neighbours: they are linked to one another and to
the two, and all other links stay. -/
theorem insert {xs ys zs : List α} {p n : α} (h : Represents k (xs ++ [p] ++ n :: zs))
    (hnd : (xs ++ [p] ++ ys ++ n :: zs).Nodup) (hchain : (p :: (ys ++ [n])).IsChain k'.Adjacent)
    (hnext : ∀ a, a ∉ p :: ys → k'.next a = k.next a)
    (hprev : ∀ b, b ∉ ys ++ [n] → k'.prev b = k.prev b) :
    Represents k' (xs ++ [p] ++ ys ++ n :: zs) := by
  have hbefore : ∀ a ∈ xs ++ [p], ∀ b ∈ ys ++ n :: zs, a ≠ b := by
    have hnd' := hnd
    rw [List.append_assoc] at hnd'
    exact (List.nodup_append.mp hnd').2.2
  have hafter : ∀ a ∈ xs ++ [p] ++ ys, ∀ b ∈ n :: zs, a ≠ b := (List.nodup_append.mp hnd).2.2
  have hpn : k.Adjacent p n := h.adjacent xs p n zs (by simp)
  have hfront : (xs ++ [p]).IsChain k'.Adjacent := by
    refine h.linked.left_of_append.imp_of_mem_imp fun a b ha hb hab => ?_
    have hap : a ≠ p := by
      rintro rfl
      have hbn : b = n := by simpa [hab.1] using hpn.1
      exact hbefore b hb n (by simp) hbn
    refine ⟨(hnext a fun hm => ?_).trans hab.1, (hprev b fun hm => ?_).trans hab.2⟩
    · rcases List.mem_cons.mp hm with hm | hm
      · exact hap hm
      · exact hbefore a ha a (by simp [hm]) rfl
    · exact hbefore b hb b (by simp at hm ⊢; tauto) rfl
  have hback : (n :: zs).IsChain k'.Adjacent := by
    refine h.linked.right_of_append.imp_of_mem_imp fun a b ha hb hab => ?_
    have hbn : b ≠ n := by
      rintro rfl
      have hap : a = p := by simpa [hab.2] using hpn.2
      exact hafter p (by simp) a ha hap.symm
    refine ⟨(hnext a fun hm => ?_).trans hab.1, (hprev b fun hm => ?_).trans hab.2⟩
    · exact hafter a (by simp at hm ⊢; tauto) a ha rfl
    · rcases List.mem_append.mp hm with hm | hm
      · exact hafter b (by simp [hm]) b hb rfl
      · exact hbn (by simpa using hm)
  refine ⟨hnd, ?_, ?_, ?_⟩
  · have hmid : (xs ++ p :: (ys ++ [n])).IsChain k'.Adjacent :=
      List.isChain_split.mpr ⟨hfront, hchain⟩
    have hall : ((xs ++ p :: ys) ++ n :: zs).IsChain k'.Adjacent :=
      List.isChain_split.mpr ⟨by simpa using hmid, hback⟩
    simpa using hall
  · intro a ha
    rw [List.dropLast_append_of_ne_nil (by simp)] at ha
    have hoff := h.next_off a
    rw [List.dropLast_append_of_ne_nil (by simp)] at hoff
    simp only [List.mem_append, not_or] at ha hoff
    rw [hnext a (by simp at ha ⊢; tauto)]
    exact hoff ⟨ha.1.1, ha.2⟩
  · intro b hb
    rw [List.append_assoc, List.tail_append_of_ne_nil (by simp)] at hb
    have hoff := h.prev_off b
    rw [List.tail_append_of_ne_nil (by simp)] at hoff
    simp only [List.mem_append, not_or] at hb hoff
    rw [hprev b (by simp at hb ⊢; tauto)]
    exact hoff ⟨hb.1, hb.2.2⟩

end Represents

end LinkedList
