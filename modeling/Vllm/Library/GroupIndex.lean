import Vllm.Library.Dict
import Mathlib.Logic.Function.Basic

/-!
# Members listed by group

An index lists, under each key, the members that belong to it. A member is listed under the key
of its group and nowhere else, once, and a key without members is not in the index.
-/

namespace GroupIndex

variable {K A : Type} [DecidableEq K] [DecidableEq A]

/-- The members under a key. -/
def members (index : Dict K (List A)) (k : K) : List A := (index.get? k).getD []

/-- List a member under a key. -/
def append (index : Dict K (List A)) (k : K) (a : A) : Dict K (List A) :=
  index.insert k (members index k ++ [a])

/-- Drop a member from a key, and the key with its last member. -/
def remove (index : Dict K (List A)) (k : K) (a : A) : Dict K (List A) :=
  let left := (members index k).erase a
  if left = [] then index.erase k else index.insert k left

/-- Every member is listed, once, under the key of its group. -/
structure Lists (index : Dict K (List A)) (group : A → Option K) : Prop where
  nonempty : ∀ k, index.get? k ≠ some []
  nodup : ∀ k, (members index k).Nodup
  mem_iff : ∀ k a, a ∈ members index k ↔ group a = some k

variable {index : Dict K (List A)} {group : A → Option K}

omit [DecidableEq A] in
private theorem members_insert (index : Dict K (List A)) (k k' : K) (l : List A) :
    members (index.insert k l) k' = if k' = k then l else members index k' := by
  unfold members
  rw [Dict.get?_insert]
  split <;> rfl

omit [DecidableEq A] in
theorem members_erase (index : Dict K (List A)) (k k' : K) :
    members (index.erase k) k' = if k' = k then [] else members index k' := by
  unfold members
  rw [Dict.get?_erase]
  split <;> rfl

private theorem members_remove (index : Dict K (List A)) (k k' : K) (a : A) :
    members (remove index k a) k' =
      if k' = k then (members index k).erase a else members index k' := by
  simp only [remove]
  split
  · rename_i hnil
    rw [members_erase, hnil]
  · rw [members_insert]

omit [DecidableEq A] in
theorem lists_empty : Lists (Dict.empty : Dict K (List A)) fun _ => none where
  nonempty _ h := by simp at h
  nodup k := by simp [members]
  mem_iff k a := by simp [members]

/-- A new member. -/
theorem Lists.append (h : Lists index group) {a : A} (ha : group a = none) (k : K) :
    Lists (append index k a) (Function.update group a (some k)) := by
  have hnot : a ∉ members index k := fun hmem => by
    rw [(h.mem_iff k a).mp hmem] at ha
    cases ha
  refine ⟨fun k' hk' => ?_, fun k' => ?_, fun k' a' => ?_⟩
  · simp only [GroupIndex.append, Dict.get?_insert] at hk'
    split at hk'
    · simp at hk'
    · exact h.nonempty k' hk'
  · rw [GroupIndex.append, members_insert]
    split
    · exact List.nodup_append.mpr ⟨h.nodup k, List.nodup_singleton a, fun x hx y hy => by
        rw [List.mem_singleton.mp hy]
        exact fun hxy => hnot (hxy ▸ hx)⟩
    · exact h.nodup k'
  · rw [GroupIndex.append, members_insert, Function.update_apply]
    by_cases ha' : a' = a
    · subst ha'
      rw [if_pos rfl]
      by_cases hk : k' = k
      · simp [hk]
      · rw [if_neg hk, h.mem_iff, ha]
        simp [Ne.symm hk]
    · rw [if_neg ha']
      split
      · rename_i hk
        subst hk
        simp [ha', h.mem_iff]
      · exact h.mem_iff k' a'

/-- A member that leaves its group. -/
theorem Lists.remove (h : Lists index group) {a : A} {k : K} (ha : group a = some k) :
    Lists (remove index k a) (Function.update group a none) := by
  refine ⟨fun k' hk' => ?_, fun k' => ?_, fun k' a' => ?_⟩
  · simp only [GroupIndex.remove] at hk'
    split at hk'
    · rw [Dict.get?_erase] at hk'
      split at hk'
      · cases hk'
      · exact h.nonempty k' hk'
    · rename_i hleft
      rw [Dict.get?_insert] at hk'
      split at hk'
      · exact hleft (Option.some.inj hk')
      · exact h.nonempty k' hk'
  · rw [members_remove]
    split
    · exact (h.nodup k).erase a
    · exact h.nodup k'
  · rw [members_remove, Function.update_apply]
    by_cases ha' : a' = a
    · subst ha'
      rw [if_pos rfl]
      split
      · exact iff_of_false (h.nodup k).not_mem_erase (fun he => (by cases he))
      · rename_i hk
        refine iff_of_false (fun hmem => hk ?_) (fun he => (by cases he))
        exact Option.some.inj (((h.mem_iff k' a').mp hmem).symm.trans ha)
    · rw [if_neg ha']
      split
      · rename_i hk
        subst hk
        rw [List.mem_erase_of_ne ha', h.mem_iff]
      · exact h.mem_iff k' a'

omit [DecidableEq A] in
/-- A group that leaves. -/
theorem Lists.erase (h : Lists index group) (k : K) :
    Lists (index.erase k) fun a => if group a = some k then none else group a := by
  refine ⟨fun k' hk' => ?_, fun k' => ?_, fun k' a => ?_⟩
  · rw [Dict.get?_erase] at hk'
    split at hk'
    · cases hk'
    · exact h.nonempty k' hk'
  · rw [members_erase]
    split
    · exact List.nodup_nil
    · exact h.nodup k'
  · rw [members_erase]
    by_cases hk : k' = k
    · subst hk
      rw [if_pos rfl]
      refine iff_of_false List.not_mem_nil fun he => ?_
      split at he
      · cases he
      · rename_i hne
        exact hne he
    · rw [if_neg hk, h.mem_iff]
      split
      · rename_i hgroup
        rw [hgroup]
        simp [Ne.symm hk]
      · rfl

end GroupIndex
