import Vllm.Worker.BatchRun
import Vllm.Library.Slots

/-!
# The state of logits processors

A logits processor keeps a table by the index of the batch and replays the update of each step:
additions first, then the removed indices that were not refilled, then the moves and swaps. The
updates are those of a table of slots.
-/

namespace Vllm.Worker

open Checked InputBatch Slots

variable {F T V : Type}

/-! ## The processors -/

/-- The table entry that an added request asks for. -/
abbrev NewState (F V : Type) := SamplingParams F → Option (List TokenId) → List TokenId → V

/-- An added request in `process_dict_updates`. -/
def dictAdded (newState : NewState F (Option T)) (reqEntries : Dict Nat T) (a : AddedRequest F) :
    Dict Nat T :=
  match newState a.params a.promptTokIds a.outputTokIds with
  | some state => reqEntries.insert a.index state
  | none => reqEntries.erase a.index

/-- A moved request in `process_dict_updates`. -/
def dictMoved (reqEntries : Dict Nat T) (m : MovedRequest) : Dict Nat T :=
  let aEntry := reqEntries.get? m.adx
  let reqEntries := reqEntries.erase m.adx
  let bEntry := reqEntries.get? m.bdx
  let reqEntries := reqEntries.erase m.bdx
  let reqEntries := match aEntry with
    | some entry => reqEntries.insert m.bdx entry
    | none => reqEntries
  match bEntry with
  | some entry => if m.direct = .swap then reqEntries.insert m.adx entry else reqEntries
  | none => reqEntries

/-- `process_dict_updates`. Whether something changed only decides on a copy to the device. -/
def processDictUpdates (newState : NewState F (Option T)) (reqEntries : Dict Nat T) :
    Option (BatchUpdate F) → Dict Nat T
  | none => reqEntries
  | some update =>
    let reqEntries := update.added.foldl (dictAdded newState) reqEntries
    if reqEntries.entries = [] then reqEntries
    else update.moved.foldl dictMoved (update.removed.foldl Dict.erase reqEntries)

/-- `MinPLogitsProcessor`: the values on the host, in single precision, and a count. -/
structure MinPLogitsProcessor (F : Type) where
  minPCpu : Nat → F
  minPCount : Int

namespace MinPLogitsProcessor

variable [SinglePrecision F] [DecidableEq F] (s : MinPLogitsProcessor F)

/-- An added request. The comparison with the stored value is one in single precision. -/
def added (a : AddedRequest F) : MinPLogitsProcessor F :=
  let minP := a.params.minP
  let minPBefore := s.minPCpu a.index
  if minPBefore ≠ single minP then
    { minPCpu := Function.update s.minPCpu a.index (single minP)
      minPCount :=
        if minP ≠ 0 ∧ minPBefore = 0 then s.minPCount + 1
        else if minP = 0 ∧ minPBefore ≠ 0 then s.minPCount - 1
        else s.minPCount }
  else s

/-- A removed index. -/
def removed (index : Nat) : MinPLogitsProcessor F :=
  if s.minPCpu index ≠ 0 then
    { minPCpu := Function.update s.minPCpu index 0, minPCount := s.minPCount - 1 }
  else s

/-- A moved request. -/
def moved (m : MovedRequest) : MinPLogitsProcessor F :=
  let minPA := s.minPCpu m.adx
  let minPB := s.minPCpu m.bdx
  let minPCpu :=
    if minPA ≠ minPB then
      let minPCpu := Function.update s.minPCpu m.bdx minPA
      if m.direct = .swap then Function.update minPCpu m.adx minPB else minPCpu
    else s.minPCpu
  if m.direct = .unidirectional then
    { minPCpu := if minPA ≠ 0 then Function.update minPCpu m.adx 0 else minPCpu
      minPCount := if minPB ≠ 0 then s.minPCount - 1 else s.minPCount }
  else { s with minPCpu }

/-- `update_state`, but for the copy to the device. -/
def updateState : Option (BatchUpdate F) → MinPLogitsProcessor F
  | none => s
  | some update =>
    let s := update.added.foldl added s
    if s.minPCount = 0 then s else update.moved.foldl moved (update.removed.foldl removed s)

end MinPLogitsProcessor

/-! ## The update as changes to a table of slots -/

/-- The write of an added request. -/
def AddedRequest.write (newState : NewState F V) (a : AddedRequest F) : Nat × V :=
  (a.index, newState a.params a.promptTokIds a.outputTokIds)

/-- The move of a moved request. -/
def MovedRequest.move (m : MovedRequest) : Move :=
  match m.direct with
  | .unidirectional => .slide m.adx m.bdx
  | .swap => .swap m.adx m.bdx

/-- A request is not moved to where it is. -/
def MovedRequest.Proper (m : MovedRequest) : Prop := m.direct = .unidirectional → m.adx ≠ m.bdx

/-- The table behind an update. -/
def BatchUpdate.replay (newState : NewState F V) (empty : V) (f : Nat → V)
    (update : BatchUpdate F) : Nat → V :=
  Slots.replay empty f (update.added.map (·.write newState)) update.removed
    (update.moved.map (·.move))

/-- An update of indices below `n`, whose added requests are of some kind. -/
structure BatchUpdate.Within (n : Nat) (ok : SamplingParams F → Prop) (update : BatchUpdate F) :
    Prop where
  added : ∀ a ∈ update.added, a.index < n ∧ ok a.params
  moved : ∀ m ∈ update.moved, m.Proper ∧ m.adx < n ∧ m.bdx < n

/-! ### The dictionary -/

private theorem get?_dictAdded (newState : NewState F (Option T)) (d : Dict Nat T)
    (a : AddedRequest F) :
    (dictAdded newState d a).get? = Function.update d.get? a.index
      (newState a.params a.promptTokIds a.outputTokIds) := by
  funext k
  rw [Function.update_apply]
  unfold dictAdded
  cases newState a.params a.promptTokIds a.outputTokIds <;> simp

private theorem get?_dictMoved (d : Dict Nat T) {m : MovedRequest} (h : m.Proper) :
    (dictMoved d m).get? = m.move.apply none d.get? := by
  obtain ⟨a, b, direct⟩ := m
  funext k
  cases direct with
  | unidirectional =>
    have hne : b ≠ a := Ne.symm (h rfl)
    simp only [MovedRequest.move, Move.slide_apply, dictMoved, Dict.get?_erase, if_neg hne]
    cases ha : d.get? a <;> cases d.get? b <;> simp only [reduceCtorEq, if_false,
      Dict.get?_insert, Dict.get?_erase] <;> grind
  | swap =>
    simp only [MovedRequest.move, Move.swap_apply, dictMoved, Dict.get?_erase]
    cases ha : d.get? a <;> cases hb : (if b = a then none else d.get? b) <;>
      simp only [if_true, Dict.get?_insert, Dict.get?_erase] <;> grind

/-- The dictionary behind an update is the table of slots behind its changes. -/
theorem get?_processDictUpdates (newState : NewState F (Option T)) (d : Dict Nat T)
    (update : BatchUpdate F) (hmoved : ∀ m ∈ update.moved, m.Proper) :
    (processDictUpdates newState d (some update)).get? = update.replay newState none d.get? := by
  have hadded (l : List (AddedRequest F)) (d : Dict Nat T) :
      (l.foldl (dictAdded newState) d).get? =
        writes d.get? (l.map (·.write newState)) := by
    induction l generalizing d with
    | nil => rfl
    | cons a l ih =>
      rw [List.foldl_cons, ih, get?_dictAdded]
      rfl
  have hremoved (l : List Nat) (d : Dict Nat T) :
      (l.foldl Dict.erase d).get? = clear none d.get? l := by
    induction l generalizing d with
    | nil =>
      funext k
      simp [clear]
    | cons i l ih =>
      rw [List.foldl_cons, ih]
      funext k
      simp only [clear, Dict.get?_erase, List.mem_cons]
      grind
  have hmoves (l : List MovedRequest) (hl : ∀ m ∈ l, m.Proper) (d : Dict Nat T) :
      (l.foldl dictMoved d).get? = moves none d.get? (l.map (·.move)) := by
    induction l generalizing d with
    | nil => rfl
    | cons m l ih =>
      rw [List.foldl_cons, ih fun m' hm' => hl m' (List.mem_cons_of_mem _ hm'),
        get?_dictMoved d (hl m (by simp))]
      rfl
  simp only [processDictUpdates, BatchUpdate.replay, Slots.replay]
  rw [← hadded]
  split
  · rename_i hempty
    have hnone : (update.added.foldl (dictAdded newState) d).get? = fun _ => none :=
      funext ((Dict.entries_eq_nil_iff _).mp hempty)
    rw [hnone, moves_clear_empty]
  · rw [hmoves _ hmoved, hremoved]

/-! ### The values of min-p -/

namespace MinPLogitsProcessor

variable [SinglePrecision F] [DecidableEq F]

/-- The value that an added request asks for. -/
def newMinP : NewState F F := fun params _ _ => single params.minP

/-- A value that is not zero is not zero in single precision either. -/
def Survives (params : SamplingParams F) : Prop := params.minP ≠ 0 → single params.minP ≠ 0

instance : DecidablePred (Survives (F := F)) := fun _ => inferInstanceAs (Decidable (_ → _))

/-- The count covers the values that are not zero, of which there are none from `n` on. It is their
number where all values survive. -/
structure Counted (n : Nat) (survive : Prop) (s : MinPLogitsProcessor F) : Prop where
  covers : used 0 s.minPCpu n ≤ s.minPCount
  count : survive → s.minPCount = used 0 s.minPCpu n
  above : ∀ i, n ≤ i → s.minPCpu i = 0

variable {n : Nat} {survive : Prop} {s : MinPLogitsProcessor F}

/-- Writing a value below `n` with the right change of the count. -/
theorem Counted.write (h : Counted n survive s) {i : Nat} (hi : i < n) (v : F) {count : Int}
    (hcovers : s.minPCount - weight 0 (s.minPCpu i) + weight 0 v ≤ count)
    (hcount : survive → count = s.minPCount - weight 0 (s.minPCpu i) + weight 0 v) :
    Counted n survive { minPCpu := Function.update s.minPCpu i v, minPCount := count } := by
  have hle := h.covers
  refine ⟨?_, fun hsurvive => ?_, fun k hk => ?_⟩
  · show used 0 (Function.update s.minPCpu i v) n ≤ count
    rw [used_update hi]
    omega
  · show count = used 0 (Function.update s.minPCpu i v) n
    rw [hcount hsurvive, h.count hsurvive, used_update hi]
  · show Function.update s.minPCpu i v k = 0
    rw [Function.update_of_ne (by omega)]
    exact h.above k hk

/-- An added request writes its value. -/
theorem Counted.added (h : Counted n survive s) {a : AddedRequest F} (ha : a.index < n)
    (hsurvives : survive → Survives a.params) : Counted n survive (s.added a) ∧
      (s.added a).minPCpu = Function.update s.minPCpu a.index (single a.params.minP) := by
  unfold MinPLogitsProcessor.added
  simp only
  split
  · have hzero := SinglePrecision.single_zero (F := F)
    refine ⟨h.write ha _ ?_ fun hsurvive => ?_, rfl⟩
    · unfold weight
      split_ifs <;> grind
    · have hsurvives := hsurvives hsurvive
      unfold Survives at hsurvives
      unfold weight
      split_ifs <;> grind
  · rename_i hsame
    rw [not_not] at hsame
    rw [← hsame, Function.update_eq_self]
    exact ⟨h, rfl⟩

/-- A removed index is cleared. -/
theorem Counted.removed (h : Counted n survive s) (i : Nat) :
    Counted n survive (s.removed i) ∧ (s.removed i).minPCpu = clear 0 s.minPCpu [i] := by
  unfold MinPLogitsProcessor.removed
  split
  · rename_i hne
    have hi : i < n := by
      by_contra hge
      exact hne (h.above i (by omega))
    refine ⟨h.write hi 0 (by simp [weight, hne]) (fun _ => by simp [weight, hne]), ?_⟩
    funext k
    simp only [clear, Function.update_apply, List.mem_singleton]
  · rename_i hzero
    rw [not_not] at hzero
    refine ⟨h, ?_⟩
    funext k
    simp only [clear, List.mem_singleton]
    split
    · rename_i hk
      rw [hk, hzero]
    · rfl

omit [DecidableEq F] in
/-- A move below `n` writes nothing from `n` on. -/
private theorem apply_above {m : MovedRequest} (ha : m.adx < n) (hb : m.bdx < n) {f : Nat → F}
    (habove : ∀ i, n ≤ i → f i = 0) : ∀ i, n ≤ i → m.move.apply 0 f i = 0 := by
  intro i hi
  have hne : i ≠ m.adx ∧ i ≠ m.bdx := by omega
  unfold MovedRequest.move
  cases m.direct with
  | unidirectional =>
    rw [Move.slide_apply, if_neg hne.1, if_neg hne.2]
    exact habove i hi
  | swap =>
    rw [Move.swap_apply, if_neg hne.2, if_neg hne.1]
    exact habove i hi

/-- A moved request slides its value, or two are swapped. -/
theorem Counted.moved (h : Counted n survive s) {m : MovedRequest} (hproper : m.Proper)
    (ha : m.adx < n) (hb : m.bdx < n) :
    Counted n survive (s.moved m) ∧ (s.moved m).minPCpu = m.move.apply 0 s.minPCpu := by
  have habove := apply_above ha hb h.above
  obtain ⟨a, b, direct⟩ := m
  cases direct with
  | unidirectional =>
    have hne : a ≠ b := hproper rfl
    have hcpu : (s.moved ⟨a, b, .unidirectional⟩).minPCpu =
        (Move.slide a b).apply 0 s.minPCpu := by
      funext k
      simp only [MinPLogitsProcessor.moved, Move.slide_apply, if_true, reduceCtorEq, if_false]
      split_ifs <;> grind [Function.update_apply]
    have hcount : (s.moved ⟨a, b, .unidirectional⟩).minPCount =
        s.minPCount - weight 0 (s.minPCpu b) := by
      simp only [MinPLogitsProcessor.moved, if_true, weight]
      split_ifs <;> grind
    refine ⟨⟨?_, fun hsurvive => ?_, fun i hi => ?_⟩, hcpu⟩
    · rw [hcpu, hcount, used_slide ha hb hne]
      exact Int.sub_le_sub_right h.covers _
    · rw [hcpu, hcount, used_slide ha hb hne, h.count hsurvive]
    · rw [hcpu]
      exact habove i hi
  | swap =>
    have hcpu : (s.moved ⟨a, b, .swap⟩).minPCpu = (Move.swap a b).apply 0 s.minPCpu := by
      funext k
      simp only [MinPLogitsProcessor.moved, Move.swap_apply, if_true, reduceCtorEq, if_false]
      split_ifs <;> grind [Function.update_apply]
    have hcount : (s.moved ⟨a, b, .swap⟩).minPCount = s.minPCount := by
      simp only [MinPLogitsProcessor.moved, reduceCtorEq, if_false]
    refine ⟨⟨?_, fun hsurvive => ?_, fun i hi => ?_⟩, hcpu⟩
    · rw [hcpu, hcount, used_swap ha hb]
      exact h.covers
    · rw [hcpu, hcount, used_swap ha hb, h.count hsurvive]
    · rw [hcpu]
      exact habove i hi

/-- The values behind an update are the table of slots behind its changes, and counted. -/
theorem Counted.updateState (h : Counted n survive s) {update : BatchUpdate F}
    (hwithin : update.Within n fun params => survive → Survives params) :
    Counted n survive (s.updateState (some update)) ∧
      (s.updateState (some update)).minPCpu = update.replay newMinP 0 s.minPCpu := by
  have hadded (l : List (AddedRequest F))
      (hl : ∀ a ∈ l, a.index < n ∧ (survive → Survives a.params))
      {s : MinPLogitsProcessor F} (h : Counted n survive s) :
      Counted n survive (l.foldl MinPLogitsProcessor.added s) ∧
        (l.foldl MinPLogitsProcessor.added s).minPCpu =
          writes s.minPCpu (l.map (·.write newMinP)) := by
    induction l generalizing s with
    | nil => exact ⟨h, rfl⟩
    | cons a l ih =>
      obtain ⟨hcounted, hcpu⟩ := h.added (hl a (by simp)).1 (hl a (by simp)).2
      obtain ⟨hcounted', hcpu'⟩ := ih (fun a' ha' => hl a' (List.mem_cons_of_mem _ ha')) hcounted
      exact ⟨hcounted', by rw [List.foldl_cons, hcpu', hcpu]; rfl⟩
  have hremoved (l : List Nat) {s : MinPLogitsProcessor F} (h : Counted n survive s) :
      Counted n survive (l.foldl MinPLogitsProcessor.removed s) ∧
        (l.foldl MinPLogitsProcessor.removed s).minPCpu = clear 0 s.minPCpu l := by
    induction l generalizing s with
    | nil =>
      refine ⟨h, ?_⟩
      funext k
      simp [clear]
    | cons i l ih =>
      obtain ⟨hcounted, hcpu⟩ := h.removed i
      obtain ⟨hcounted', hcpu'⟩ := ih hcounted
      refine ⟨hcounted', ?_⟩
      rw [List.foldl_cons, hcpu', hcpu]
      funext k
      simp only [clear, List.mem_cons]
      grind
  have hmoved (l : List MovedRequest) (hl : ∀ m ∈ l, m.Proper ∧ m.adx < n ∧ m.bdx < n)
      {s : MinPLogitsProcessor F} (h : Counted n survive s) :
      Counted n survive (l.foldl MinPLogitsProcessor.moved s) ∧
        (l.foldl MinPLogitsProcessor.moved s).minPCpu =
          moves 0 s.minPCpu (l.map (·.move)) := by
    induction l generalizing s with
    | nil => exact ⟨h, rfl⟩
    | cons m l ih =>
      obtain ⟨hproper, ha, hb⟩ := hl m (by simp)
      obtain ⟨hcounted, hcpu⟩ := h.moved hproper ha hb
      obtain ⟨hcounted', hcpu'⟩ := ih (fun m' hm' => hl m' (List.mem_cons_of_mem _ hm')) hcounted
      exact ⟨hcounted', by rw [List.foldl_cons, hcpu', hcpu]; rfl⟩
  obtain ⟨hcounted, hcpu⟩ := hadded update.added hwithin.added h
  simp only [MinPLogitsProcessor.updateState, BatchUpdate.replay, Slots.replay]
  rw [← hcpu]
  split
  · rename_i hzero
    have hnone : (update.added.foldl MinPLogitsProcessor.added s).minPCpu = fun _ => 0 := by
      have hle := hcounted.covers
      rw [hzero] at hle
      have hzero := used_eq_zero_iff.mp (le_antisymm hle (used_nonneg 0 _ n))
      funext i
      by_cases hi : i < n
      · exact hzero i hi
      · exact hcounted.above i (by omega)
    rw [hnone, moves_clear_empty]
    exact ⟨hcounted, rfl⟩
  · obtain ⟨hcounted₁, hcpu₁⟩ := hremoved update.removed hcounted
    obtain ⟨hcounted₂, hcpu₂⟩ := hmoved update.moved hwithin.moved hcounted₁
    exact ⟨hcounted₂, by rw [hcpu₂, hcpu₁]⟩

end MinPLogitsProcessor

end Vllm.Worker
