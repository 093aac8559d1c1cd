import Vllm.Distributed.RebalanceExecute

/-!
# The exchange of expert weights

The operations that a sender posts for a receiver and those that the receiver posts for the
sender speak about the same experts in the same ascending order, so they match completely;
behind the exchange every row that is copied back holds the weights of its new expert.
-/

namespace Vllm.Distributed

open SortedKeys

variable {V : Type}

namespace LayerMaps

variable {m : LayerMaps} {numTensors : Nat}

/-! ## Senders and receivers -/

variable {expert : Int}

variable {r : Nat}

private theorem mem_ranksWith {indices : Nat → Int} :
    r ∈ m.ranksWith indices expert ↔ r < m.epSize ∧
      ∃ row < m.numLocalExperts, indices (r * m.numLocalExperts + row) = expert := by
  simp only [ranksWith, mem_firsts, List.mem_map, List.mem_filter, List.mem_range,
    decide_eq_true_eq]
  constructor
  · rintro ⟨p, ⟨hp, hexpert⟩, rfl⟩
    have hpos : 0 < m.numLocalExperts := Nat.pos_of_mul_pos_left (Nat.zero_lt_of_lt hp)
    refine ⟨Nat.div_lt_of_lt_mul (by rwa [Nat.mul_comm]), p % m.numLocalExperts,
      Nat.mod_lt p hpos, ?_⟩
    rw [Nat.div_add_mod']
    exact hexpert
  · rintro ⟨hr, row, hrow, hexpert⟩
    refine ⟨r * m.numLocalExperts + row, ⟨?_, hexpert⟩, ?_⟩
    · calc r * m.numLocalExperts + row
        _ < r * m.numLocalExperts + m.numLocalExperts := by omega
        _ = (r + 1) * m.numLocalExperts := (Nat.succ_mul ..).symm
        _ ≤ m.epSize * m.numLocalExperts := Nat.mul_le_mul_right _ hr
    · rw [Nat.mul_comm, Nat.mul_add_div (by omega), Nat.div_eq_of_lt hrow, Nat.add_zero]

private theorem mem_ranksToSend : r ∈ m.ranksToSend expert ↔
    r < m.epSize ∧ ∃ row < m.numLocalExperts, m.oldLocal r row = expert :=
  mem_ranksWith

private theorem mem_ranksToRecv : r ∈ m.ranksToRecv expert ↔
    r < m.epSize ∧ (∃ row < m.numLocalExperts, m.newLocal r row = expert) ∧
      ∀ row < m.numLocalExperts, m.oldLocal r row ≠ expert := by
  rw [ranksToRecv, List.mem_filter, mem_ranksWith, decide_eq_true_iff, mem_ranksToSend]
  constructor
  · rintro ⟨⟨hr, hnew⟩, hnot⟩
    exact ⟨hr, hnew, fun row hrow hold => hnot ⟨hr, row, hrow, hold⟩⟩
  · rintro ⟨hr, hnew, hnot⟩
    exact ⟨⟨hr, hnew⟩, fun ⟨_, row, hrow, hold⟩ => hnot row hrow hold⟩

private theorem nodup_ranksToSend (expert : Int) : (m.ranksToSend expert).Nodup := nodup_firsts _

private theorem nodup_ranksToRecv (expert : Int) : (m.ranksToRecv expert).Nodup :=
  (nodup_firsts _).filter _

/-- The sender of a rank is the server of its position among the receivers. -/
theorem senderRank_eq (r : Nat) (expert : Int) : m.senderRank r expert =
    (m.ranksToSend expert).getD (FairShare.server (m.ranksToSend expert).length
      (m.ranksToRecv expert).length ((m.ranksToRecv expert).idxOf r)) 0 := by
  unfold senderRank FairShare.server
  split <;> simp_all

/-- A rank that holds an expert sends it to the receivers that name the rank as their sender. -/
theorem mem_recvRanks {s r : Nat} (hs : s ∈ m.ranksToSend expert) :
    r ∈ m.recvRanks s expert ↔ r ∈ m.ranksToRecv expert ∧ m.senderRank r expert = s := by
  have hshare : m.recvRanks s expert = FairShare.share (m.ranksToSend expert).length
      (m.ranksToRecv expert) ((m.ranksToSend expert).idxOf s) := rfl
  rw [hshare, FairShare.mem_share_iff (nodup_ranksToRecv expert) (List.idxOf_lt_length_of_mem hs)]
  refine and_congr_right fun hr => ?_
  have hlt := FairShare.server_lt (List.length_pos_of_mem hs) (List.idxOf_lt_length_of_mem hr)
  rw [senderRank_eq, List.getD_eq_getElem _ 0 hlt]
  constructor
  · intro heq
    simp only [heq, List.getElem_idxOf]
  · rintro rfl
    rw [(nodup_ranksToSend expert).idxOf_getElem]

/-- The sender that a rank names holds the expert. -/
theorem senderRank_mem (hr : r ∈ m.ranksToRecv expert) (hsend : m.ranksToSend expert ≠ []) :
    m.senderRank r expert ∈ m.ranksToSend expert := by
  have hlt := FairShare.server_lt (List.length_pos_of_ne_nil hsend)
    (List.idxOf_lt_length_of_mem hr)
  rw [senderRank_eq, List.getD_eq_getElem _ 0 hlt]
  exact List.getElem_mem hlt

private theorem nodup_recvRanks {s : Nat} (hs : s ∈ m.ranksToSend expert) :
    (m.recvRanks s expert).Nodup :=
  FairShare.nodup_share (nodup_ranksToRecv expert) (List.idxOf_lt_length_of_mem hs)

/-! ## The rows of a rank -/

private theorem mem_sendRows {s row : Nat} (h : (expert, row) ∈ m.sendRows s) :
    row < m.numLocalExperts ∧ m.oldLocal s row = expert ∧ expert ≠ -1 := by
  obtain ⟨hrow, hexpert⟩ := mem_firstRows h
  simp only [localRows, List.mem_filter, List.mem_range, decide_eq_true_eq] at hrow
  exact ⟨hrow.1, hexpert, hexpert ▸ hrow.2⟩

/-- The experts that a rank sends are those that it holds. -/
theorem exists_mem_sendRows {s : Nat} (hs : s < m.epSize) :
    (∃ row, (expert, row) ∈ m.sendRows s) ↔ expert ≠ -1 ∧ s ∈ m.ranksToSend expert := by
  rw [mem_ranksToSend]
  constructor
  · rintro ⟨row, h⟩
    obtain ⟨hrow, hexpert, hne⟩ := mem_sendRows h
    exact ⟨hne, hs, row, hrow, hexpert⟩
  · rintro ⟨hne, -, row, hrow, rfl⟩
    refine exists_mem_firstRows ?_
    simp only [localRows, List.mem_filter, List.mem_range, decide_eq_true_eq]
    exact ⟨hrow, hne⟩

/-- A row is received locally exactly when its expert stays, or is held by another row. -/
theorem isReceivedLocally_iff {r row : Nat} : m.isReceivedLocally r row = true ↔
    m.oldLocal r row = m.newLocal r row ∨ m.newLocal r row ≠ -1 ∧
      ∃ row' < m.numLocalExperts, m.oldLocal r row' = m.newLocal r row := by
  simp [isReceivedLocally, isUnchanged, localRows]

/-- A row needs to be received exactly when the rank holds its expert nowhere. -/
theorem needRecv_iff {r row : Nat} (hrow : row < m.numLocalExperts) : m.needRecv r row = true ↔
    m.newLocal r row ≠ -1 ∧ ∀ row' < m.numLocalExperts, m.oldLocal r row' ≠ m.newLocal r row := by
  simp only [needRecv, Bool.and_eq_true, Bool.not_eq_true', Bool.eq_false_iff, ne_eq,
    isReceivedLocally_iff, decide_eq_true_eq]
  constructor
  · rintro ⟨hnot, hne⟩
    exact ⟨hne, fun row' hrow' heq => hnot (Or.inr ⟨hne, row', hrow', heq⟩)⟩
  · rintro ⟨hne, hnone⟩
    refine ⟨?_, hne⟩
    rintro (heq | ⟨-, row', hrow', heq⟩)
    · exact hnone row hrow heq
    · exact hnone row' hrow' heq

private theorem mem_recvRows {r row : Nat} (h : (expert, row) ∈ m.recvRows r) :
    row < m.numLocalExperts ∧ m.newLocal r row = expert ∧ m.needRecv r row = true := by
  obtain ⟨hrow, hexpert⟩ := mem_firstRows h
  simp only [localRows, List.mem_filter, List.mem_range] at hrow
  exact ⟨hrow.1, hexpert, hrow.2⟩

/-- The experts that a rank receives are those that it needs and does not hold. -/
theorem exists_mem_recvRows (hr : r < m.epSize) :
    (∃ row, (expert, row) ∈ m.recvRows r) ↔ expert ≠ -1 ∧ r ∈ m.ranksToRecv expert := by
  rw [mem_ranksToRecv]
  constructor
  · rintro ⟨row, h⟩
    obtain ⟨hrow, rfl, hneed⟩ := mem_recvRows h
    obtain ⟨hne, hnone⟩ := (needRecv_iff hrow).mp hneed
    exact ⟨hne, hr, ⟨row, hrow, rfl⟩, hnone⟩
  · rintro ⟨hne, -, ⟨row, hrow, rfl⟩, hnone⟩
    refine exists_mem_firstRows ?_
    simp only [localRows, List.mem_filter, List.mem_range]
    exact ⟨hrow, (needRecv_iff hrow).mpr ⟨hne, hnone⟩⟩

/-! ## Matching -/

/-- The operations about a row go to one peer. -/
theorem filter_rowOps (kind kind' : P2PKind) (row peer peer' : Nat) :
    ((rowOps kind numTensors row peer).filter fun op => op.kind = kind' ∧ op.peer = peer') =
      if kind = kind' ∧ peer = peer' then rowOps kind numTensors row peer else [] := by
  unfold rowOps
  rw [List.filter_map]
  split
  · next h =>
    obtain ⟨rfl, rfl⟩ := h
    simp [Function.comp_def]
  · next h => simp [Function.comp_def, h]

/-- A pass over a list without repetition that answers for one element only. -/
theorem flatMap_ite_eq {β : Type} {l : List Nat} (hl : l.Nodup) (r : Nat) (x : List β) :
    (l.flatMap fun d => if d = r then x else []) = if r ∈ l then x else [] := by
  induction l with
  | nil => rfl
  | cons d l ih =>
    rw [List.nodup_cons] at hl
    rw [List.flatMap_cons, ih hl.2]
    by_cases h : d = r
    · subst h
      simp [hl.1]
    · simp [h, Ne.symm h]

/-- A pass that answers for some elements is one over those. -/
theorem flatMap_ite {α β : Type} (l : List α) (p : α → Prop) [DecidablePred p] (f : α → List β) :
    (l.flatMap fun a => if p a then f a else []) = (l.filter fun a => p a).flatMap f := by
  induction l with
  | nil => rfl
  | cons a l ih =>
    by_cases h : p a <;> simp [h, ih]

/-- What a sender posts for a receiver. -/
theorem sendsTo_p2pOps {s : Nat} (hs : s < m.epSize) (r : Nat) :
    sendsTo (m.p2pOps numTensors s) r =
      ((m.sendRows s).filter fun e => r ∈ m.recvRanks s e.1).flatMap fun e =>
        rowOps .isend numTensors e.2 r := by
  have hrecvs : (m.postRecvs numTensors s).filter
      (fun op => op.kind = .isend ∧ op.peer = r) = [] := by
    unfold postRecvs
    rw [List.filter_flatMap]
    refine List.flatMap_eq_nil_iff.mpr fun e _ => ?_
    split
    · rfl
    · rw [filter_rowOps, if_neg (by simp)]
  have hsends : (m.postSends numTensors s).filter (fun op => op.kind = .isend ∧ op.peer = r) =
      (m.sendRows s).flatMap fun e =>
        if r ∈ m.recvRanks s e.1 then rowOps .isend numTensors e.2 r else [] := by
    unfold postSends sendRows
    rw [insertionSort_firstRows, List.filter_flatMap]
    refine List.flatMap_congr fun e he => ?_
    have hmem := ((exists_mem_sendRows hs).mp ⟨e.2, he⟩).2
    split
    · next hempty =>
      have hnil : m.ranksToRecv e.1 = [] :=
        hempty.resolve_left (List.ne_nil_of_mem hmem)
      rw [if_neg fun hr => by simpa [hnil] using ((mem_recvRanks hmem).mp hr).1]
      rfl
    · rw [List.filter_flatMap, ← flatMap_ite_eq (nodup_recvRanks hmem)]
      refine List.flatMap_congr fun d _ => ?_
      rw [filter_rowOps]
      by_cases h : d = r <;> simp [h]
  rw [sendsTo, p2pOps, List.filter_append, hrecvs, List.append_nil, hsends, flatMap_ite]

/-- What a receiver posts for a sender, when every new expert is held by some rank. -/
theorem recvsFrom_p2pOps (hr : r < m.epSize)
    (hheld : ∀ expert, expert ≠ -1 → r ∈ m.ranksToRecv expert → m.ranksToSend expert ≠ [])
    (s : Nat) : recvsFrom (m.p2pOps numTensors r) s =
      ((m.recvRows r).filter fun e => m.senderRank r e.1 = s).flatMap fun e =>
        rowOps .irecv numTensors e.2 s := by
  have hsends : (m.postSends numTensors r).filter
      (fun op => op.kind = .irecv ∧ op.peer = s) = [] := by
    unfold postSends
    rw [List.filter_flatMap]
    refine List.flatMap_eq_nil_iff.mpr fun e _ => ?_
    split
    · rfl
    · rw [List.filter_flatMap]
      refine List.flatMap_eq_nil_iff.mpr fun d _ => ?_
      rw [filter_rowOps, if_neg (by simp)]
  have hrecvs : (m.postRecvs numTensors r).filter (fun op => op.kind = .irecv ∧ op.peer = s) =
      (m.recvRows r).flatMap fun e =>
        if m.senderRank r e.1 = s then rowOps .irecv numTensors e.2 s else [] := by
    unfold postRecvs recvRows
    rw [insertionSort_firstRows, List.filter_flatMap]
    refine List.flatMap_congr fun e he => ?_
    obtain ⟨hne, hmem⟩ := (exists_mem_recvRows hr).mp ⟨e.2, he⟩
    rw [if_neg (by simp [hheld e.1 hne hmem, List.ne_nil_of_mem hmem]), filter_rowOps]
    by_cases h : m.senderRank r e.1 = s <;> simp [h]
  rw [recvsFrom, p2pOps, List.filter_append, hsends, List.nil_append, hrecvs, flatMap_ite]

/-- A send and a receive about the same tensor of one expert, which the sender holds and the
receiver needs. -/
def Matched (m : LayerMaps) (s r : Nat) (send recv : P2POp) : Prop :=
  send.tensor = recv.tensor ∧ send.row < m.numLocalExperts ∧ recv.row < m.numLocalExperts ∧
    m.oldLocal s send.row = m.newLocal r recv.row ∧ m.newLocal r recv.row ≠ -1 ∧
      m.needRecv r recv.row = true

/-- Sender and receiver agree on the experts between them. -/
private theorem sendRows_eq_recvRows {s r : Nat} (hs : s < m.epSize) (hr : r < m.epSize)
    (hheld : ∀ expert, expert ≠ -1 → r ∈ m.ranksToRecv expert → m.ranksToSend expert ≠ []) :
    ((m.sendRows s).filter fun e => r ∈ m.recvRanks s e.1).map Prod.fst =
      ((m.recvRows r).filter fun e => m.senderRank r e.1 = s).map Prod.fst := by
  have hfst {α : Type} (l : List (Int × α)) (expert : Int) :
      expert ∈ l.map Prod.fst ↔ ∃ row, (expert, row) ∈ l := by
    simp
  rw [map_fst_filter _ fun expert => decide (r ∈ m.recvRanks s expert),
    map_fst_filter _ fun expert => decide (m.senderRank r expert = s)]
  refine eq_of_mem_iff ?_ ?_ fun expert => ?_
  · exact ((map_fst_firstRows _ _).symm ▸ pairwise_unique _ :
      ((m.sendRows s).map Prod.fst).Pairwise (· < ·)).filter _
  · exact ((map_fst_firstRows _ _).symm ▸ pairwise_unique _ :
      ((m.recvRows r).map Prod.fst).Pairwise (· < ·)).filter _
  · rw [List.mem_filter, List.mem_filter, hfst, hfst, exists_mem_sendRows hs,
      exists_mem_recvRows hr, decide_eq_true_iff, decide_eq_true_iff]
    constructor
    · rintro ⟨⟨hne, hsend⟩, hmem⟩
      obtain ⟨hrecv, hsender⟩ := (mem_recvRanks hsend).mp hmem
      exact ⟨⟨hne, hrecv⟩, hsender⟩
    · rintro ⟨⟨hne, hrecv⟩, rfl⟩
      have hsend := senderRank_mem hrecv (hheld expert hne hrecv)
      exact ⟨⟨hne, hsend⟩, (mem_recvRanks hsend).mpr ⟨hrecv, rfl⟩⟩

/-- The operations between a sender and a receiver match one by one. -/
theorem forall₂_matched {s r : Nat} (hs : s < m.epSize) (hr : r < m.epSize)
    (hheld : ∀ expert, expert ≠ -1 → r ∈ m.ranksToRecv expert → m.ranksToSend expert ≠ []) :
    List.Forall₂ (m.Matched s r) (sendsTo (m.p2pOps numTensors s) r)
      (recvsFrom (m.p2pOps numTensors r) s) := by
  rw [sendsTo_p2pOps hs, recvsFrom_p2pOps hr hheld]
  have hrows := forall₂_of_map_fst (sendRows_eq_recvRows hs hr hheld)
    (R := fun a b => a ∈ m.sendRows s ∧ b ∈ m.recvRows r ∧ a.1 = b.1)
    fun a ha b hb hab => ⟨(List.mem_filter.mp ha).1, (List.mem_filter.mp hb).1, hab⟩
  refine List.rel_flatMap hrows fun a b ⟨ha, hb, hab⟩ => ?_
  obtain ⟨hrow, hold, -⟩ := mem_sendRows ha
  obtain ⟨hrow', hnew, hneed⟩ := mem_recvRows hb
  unfold rowOps
  rw [List.forall₂_map_left_iff, List.forall₂_map_right_iff, List.forall₂_same]
  intro tensor _
  exact ⟨rfl, hrow, hrow', hold.trans (hab.trans hnew.symm), ((needRecv_iff hrow').mp hneed).1,
    hneed⟩

/-- A rank posts operations with other ranks of the group only. -/
theorem peer_of_mem_p2pOps (hr : r < m.epSize)
    (hheld : ∀ expert, expert ≠ -1 → r ∈ m.ranksToRecv expert → m.ranksToSend expert ≠ [])
    {op : P2POp} (hop : op ∈ m.p2pOps numTensors r) : op.peer < m.epSize ∧ op.peer ≠ r := by
  unfold p2pOps postSends postRecvs sendRows recvRows at hop
  rw [insertionSort_firstRows, insertionSort_firstRows] at hop
  rcases List.mem_append.mp hop with hop | hop
  · obtain ⟨e, he, hop⟩ := List.mem_flatMap.mp hop
    have hsend := ((exists_mem_sendRows hr).mp ⟨e.2, he⟩).2
    split at hop
    · cases hop
    · obtain ⟨dst, hdst, hop⟩ := List.mem_flatMap.mp hop
      obtain ⟨tensor, -, rfl⟩ := List.mem_map.mp hop
      obtain ⟨hlt, -, hnone⟩ := mem_ranksToRecv.mp ((mem_recvRanks hsend).mp hdst).1
      refine ⟨hlt, ?_⟩
      rintro rfl
      obtain ⟨-, row, hrow, hold⟩ := mem_ranksToSend.mp hsend
      exact hnone row hrow hold
  · obtain ⟨e, he, hop⟩ := List.mem_flatMap.mp hop
    obtain ⟨hne, hrecv⟩ := (exists_mem_recvRows hr).mp ⟨e.2, he⟩
    have hsend := senderRank_mem hrecv (hheld e.1 hne hrecv)
    split at hop
    · cases hop
    · obtain ⟨tensor, -, rfl⟩ := List.mem_map.mp hop
      obtain ⟨hlt, row, hrow, hold⟩ := mem_ranksToSend.mp hsend
      refine ⟨hlt, ?_⟩
      intro heq
      obtain ⟨-, -, hnone⟩ := mem_ranksToRecv.mp hrecv
      have heq : m.senderRank r e.1 = r := heq
      rw [heq] at hold
      exact hnone row hrow hold

/-! ## The buffers -/

/-- A place that no write names keeps its value. -/
theorem writeAll_of_forall_ne {tensors : Tensors V} {writes : List ((Nat × Nat) × V)}
    {tensor row : Nat} (h : ∀ w ∈ writes, w.1 ≠ (tensor, row)) :
    writeAll tensors writes tensor row = tensors tensor row := by
  induction writes generalizing tensors with
  | nil => rfl
  | cons w writes ih =>
    rw [writeAll, List.foldl_cons]
    refine (ih fun w hw => h w (List.mem_cons_of_mem _ hw)).trans ?_
    have hne := h w List.mem_cons_self
    by_cases ht : tensor = w.1.1
    · subst ht
      have hrow : row ≠ w.1.2 := fun heq => hne (by rw [heq])
      rw [Function.update_self, Function.update_of_ne hrow]
    · rw [Function.update_of_ne ht]

/-- A place that is written holds the value that all writes to it agree on. -/
theorem writeAll_of_mem {tensors : Tensors V} {writes : List ((Nat × Nat) × V)}
    {tensor row : Nat} {v : V} (hmem : ∃ w ∈ writes, w.1 = (tensor, row))
    (hall : ∀ w ∈ writes, w.1 = (tensor, row) → w.2 = v) :
    writeAll tensors writes tensor row = v := by
  induction writes generalizing tensors with
  | nil => simp at hmem
  | cons w writes ih =>
    have hrest (w : (Nat × Nat) × V) (hw : w ∈ writes) := hall w (List.mem_cons_of_mem _ hw)
    by_cases hlater : ∃ w ∈ writes, w.1 = (tensor, row)
    · exact ih hlater hrest
    · have hnone : ∀ w ∈ writes, w.1 ≠ (tensor, row) := fun w hw heq => hlater ⟨w, hw, heq⟩
      obtain ⟨w', hw', heq⟩ := hmem
      obtain rfl : w' = w := (List.mem_cons.mp hw').resolve_right fun hw' => hnone w' hw' heq
      rw [writeAll, List.foldl_cons]
      refine (writeAll_of_forall_ne hnone).trans ?_
      simp only [heq, Function.update_self]
      exact hall w' List.mem_cons_self heq

/-- Equal logical experts hold equal weights, and every new expert is held somewhere. -/
structure Consistent (m : LayerMaps) (numTensors : Nat) (weights : Nat → Tensors V) : Prop where
  equal : ∀ r < m.epSize, ∀ row < m.numLocalExperts, ∀ r' < m.epSize,
    ∀ row' < m.numLocalExperts, m.oldLocal r row = m.oldLocal r' row' → m.oldLocal r row ≠ -1 →
      ∀ tensor < numTensors, weights r tensor row = weights r' tensor row'
  held : ∀ r < m.epSize, ∀ row < m.numLocalExperts, m.newLocal r row ≠ -1 →
    ∃ r' < m.epSize, ∃ row' < m.numLocalExperts, m.oldLocal r' row' = m.newLocal r row

section Exchange

variable {weights : Nat → Tensors V} {buffers : Tensors V}

theorem Consistent.ranksToSend_ne_nil (h : m.Consistent numTensors weights) (expert : Int)
    (hne : expert ≠ -1) (hrecv : r ∈ m.ranksToRecv expert) : m.ranksToSend expert ≠ [] := by
  obtain ⟨hr, ⟨row, hrow, rfl⟩, -⟩ := mem_ranksToRecv.mp hrecv
  obtain ⟨r', hr', row', hrow', hold⟩ := h.held r hr row hrow hne
  exact List.ne_nil_of_mem (mem_ranksToSend.mpr ⟨hr', row', hrow', hold⟩)

/-- What is delivered to a place is the weight of the place's new expert, and the place needs
it. -/
theorem Consistent.delivered_eq (h : m.Consistent numTensors weights) (hr : r < m.epSize)
    {w : (Nat × Nat) × V} (hw : w ∈ m.delivered numTensors weights r) :
    w.1.2 < m.numLocalExperts ∧ m.needRecv r w.1.2 = true ∧ ∃ s < m.epSize,
      ∃ row < m.numLocalExperts, m.oldLocal s row = m.newLocal r w.1.2 ∧
        m.newLocal r w.1.2 ≠ -1 ∧ w.2 = weights s w.1.1 row := by
  obtain ⟨s, hs, hw⟩ := List.mem_flatMap.mp hw
  rw [List.mem_range] at hs
  obtain ⟨⟨send, recv⟩, hops, rfl⟩ := List.mem_map.mp hw
  obtain ⟨htensor, hrow, hrow', hold, hne, hneed⟩ :=
    List.forall₂_zip (forall₂_matched hs hr h.ranksToSend_ne_nil) hops
  exact ⟨hrow', hneed, s, hs, send.row, hrow, hold, hne, by rw [htensor]⟩

/-- The first row of every expert that a rank needs is delivered. -/
theorem Consistent.exists_delivered (h : m.Consistent numTensors weights) {r row tensor : Nat}
    (hr : r < m.epSize) (hrow : (expert, row) ∈ m.recvRows r) (htensor : tensor < numTensors) :
    ∃ w ∈ m.delivered numTensors weights r, w.1 = (tensor, row) := by
  obtain ⟨hne, hrecv⟩ := (exists_mem_recvRows hr).mp ⟨row, hrow⟩
  have hsend := senderRank_mem hrecv (h.ranksToSend_ne_nil expert hne hrecv)
  have hs := (mem_ranksToSend.mp hsend).1
  have hmatched : List.Forall₂ (m.Matched (m.senderRank r expert) r)
      (sendsTo (m.p2pOps numTensors (m.senderRank r expert)) r)
      (recvsFrom (m.p2pOps numTensors r) (m.senderRank r expert)) :=
    forall₂_matched hs hr h.ranksToSend_ne_nil
  have hop : (⟨.irecv, tensor, row, m.senderRank r expert⟩ : P2POp) ∈
      recvsFrom (m.p2pOps numTensors r) (m.senderRank r expert) := by
    rw [recvsFrom_p2pOps hr h.ranksToSend_ne_nil]
    refine List.mem_flatMap.mpr ⟨(expert, row), List.mem_filter.mpr ⟨hrow, by simp⟩, ?_⟩
    exact List.mem_map.mpr ⟨tensor, List.mem_range.mpr htensor, rfl⟩
  obtain ⟨i, hi, hget⟩ := List.mem_iff_getElem.mp hop
  have hlen := hmatched.length_eq
  have hzip : ((sendsTo (m.p2pOps numTensors (m.senderRank r expert)) r)[i],
      (⟨.irecv, tensor, row, m.senderRank r expert⟩ : P2POp)) ∈
        (sendsTo (m.p2pOps numTensors (m.senderRank r expert)) r).zip
          (recvsFrom (m.p2pOps numTensors r) (m.senderRank r expert)) := by
    refine List.mem_iff_getElem.mpr ⟨i, by rw [List.length_zip]; omega, ?_⟩
    rw [List.getElem_zip, hget]
  refine ⟨_, List.mem_flatMap.mpr ⟨m.senderRank r expert, List.mem_range.mpr hs,
    List.mem_map.mpr ⟨_, hzip, rfl⟩⟩, rfl⟩

/-- A local copy takes the weights of the new expert. -/
theorem mem_localCopies {r dst src : Nat} (h : (dst, src) ∈ m.localCopies r) :
    src < m.numLocalExperts ∧ m.oldLocal r src = m.newLocal r dst ∧ m.newLocal r dst ≠ -1 := by
  obtain ⟨dst', -, hsome⟩ := List.mem_filterMap.mp h
  obtain ⟨src', hlookup, heq⟩ := Option.map_eq_some_iff.mp hsome
  obtain ⟨rfl, rfl⟩ := Prod.mk.inj heq
  obtain ⟨l₁, l₂, hsplit, -⟩ := List.lookup_eq_some_iff.mp hlookup
  exact mem_sendRows (hsplit ▸ List.mem_append_right l₁ List.mem_cons_self)

/-- Every row that changes and is received locally is copied. -/
private theorem exists_mem_localCopies {r dst : Nat} (hr : r < m.epSize)
    (hdst : dst < m.numLocalExperts) (hchanged : m.isUnchanged r dst = false)
    (hlocal : m.isReceivedLocally r dst = true) : ∃ src, (dst, src) ∈ m.localCopies r := by
  have hne : m.oldLocal r dst ≠ m.newLocal r dst := by simpa [isUnchanged] using hchanged
  obtain ⟨hvalid, row, hrow, hold⟩ := (isReceivedLocally_iff.mp hlocal).resolve_left hne
  obtain ⟨src, hsrc⟩ := (exists_mem_sendRows hr).mpr
    ⟨hvalid, mem_ranksToSend.mpr ⟨hr, row, hrow, hold⟩⟩
  cases hlookup : (m.sendRows r).lookup (m.newLocal r dst) with
  | none =>
    have := List.lookup_eq_none_iff.mp hlookup _ hsrc
    simp at this
  | some src' =>
    refine ⟨src', List.mem_filterMap.mpr ⟨dst, ?_, by rw [hlookup]; rfl⟩⟩
    simp [localRows, hdst, hchanged, hlocal]

/-- A row that is copied back holds the weights of its new expert in the buffer. -/
theorem Consistent.moveToBuffer_eq (h : m.Consistent numTensors weights) {r row : Nat}
    (hr : r < m.epSize) (hrow : row < m.numLocalExperts) (hchanged : m.isUnchanged r row = false)
    (hcopied : m.isReceivedLocally r row = true ∨ ∃ expert, (expert, row) ∈ m.recvRows r)
    {s row' : Nat} (hs : s < m.epSize) (hrow' : row' < m.numLocalExperts)
    (hold : m.oldLocal s row' = m.newLocal r row) (hne : m.newLocal r row ≠ -1) {tensor : Nat}
    (htensor : tensor < numTensors) :
    m.moveToBuffer numTensors weights buffers r tensor row = weights s tensor row' := by
  -- Everything that is delivered to the row has the right value.
  have hdelivered : ∀ w ∈ m.delivered numTensors weights r, w.1 = (tensor, row) →
      w.2 = weights s tensor row' := by
    intro w hw heq
    obtain ⟨-, -, s', hs', row'', hrow'', hold', hne', hvalue⟩ := h.delivered_eq hr hw
    rw [heq] at hold' hne' hvalue
    rw [hvalue]
    exact h.equal s' hs' row'' hrow'' s hs row' hrow' (hold'.trans hold.symm) (hold' ▸ hne')
      tensor htensor
  unfold moveToBuffer
  rcases hcopied with hlocal | ⟨expert, hprimary⟩
  · have hnone : ∀ w ∈ m.delivered numTensors weights r, w.1 ≠ (tensor, row) := by
      intro w hw heq
      have hneed := (h.delivered_eq hr hw).2.1
      rw [heq] at hneed
      simp [needRecv, hlocal] at hneed
    rw [writeAll_of_forall_ne hnone]
    obtain ⟨src, hsrc⟩ := exists_mem_localCopies hr hrow hchanged hlocal
    refine writeAll_of_mem ⟨((tensor, row), weights r tensor src), List.mem_flatMap.mpr
      ⟨(row, src), hsrc, List.mem_map.mpr ⟨tensor, List.mem_range.mpr htensor, rfl⟩⟩, rfl⟩ ?_
    intro w hw heq
    obtain ⟨⟨dst, src'⟩, hcopy, hw⟩ := List.mem_flatMap.mp hw
    obtain ⟨tensor', -, rfl⟩ := List.mem_map.mp hw
    obtain ⟨rfl, rfl⟩ := Prod.mk.inj heq
    obtain ⟨hsrc', hold', hne'⟩ := mem_localCopies hcopy
    exact h.equal r hr src' hsrc' s hs row' hrow' (hold'.trans hold.symm) (hold' ▸ hne')
      tensor' htensor
  · exact writeAll_of_mem (h.exists_delivered hr hprimary htensor) hdelivered

/-! ## The rows that are copied back -/

/-- A row that no copy names keeps its weights. -/
theorem foldl_apply_of_forall_ne {weights : Tensors V} {copies : List RowCopy} {row : Nat}
    (h : ∀ c ∈ copies, c.dst ≠ row) (tensor : Nat) :
    copies.foldl (RowCopy.apply buffers) weights tensor row = weights tensor row := by
  induction copies generalizing weights with
  | nil => rfl
  | cons c copies ih =>
    rw [List.foldl_cons, ih fun c hc => h c (List.mem_cons_of_mem _ hc)]
    have hne := Ne.symm (h c List.mem_cons_self)
    cases c with
    | fromBuffer dst => exact Function.update_of_ne hne ..
    | fromRow dst src => exact Function.update_of_ne hne ..

/-- A row that is copied holds the value that all copies to it agree on; they read the buffer,
or rows that no copy writes. -/
theorem foldl_apply_of_mem {weights : Tensors V} {copies : List RowCopy} {row tensor : Nat}
    {v : V} (hmem : ∃ c ∈ copies, c.dst = row)
    (hall : ∀ c ∈ copies, c.dst = row → c = .fromBuffer row ∧ buffers tensor row = v ∨
      ∃ src, c = .fromRow row src ∧ weights tensor src = v ∧ ∀ c' ∈ copies, c'.dst ≠ src) :
    copies.foldl (RowCopy.apply buffers) weights tensor row = v := by
  induction copies generalizing weights with
  | nil => simp at hmem
  | cons c copies ih =>
    rw [List.foldl_cons]
    by_cases hlater : ∃ c ∈ copies, c.dst = row
    · refine ih hlater fun c' hc' heq => ?_
      rcases hall c' (List.mem_cons_of_mem _ hc') heq with hbuffer | ⟨src, rfl, hvalue, hnot⟩
      · exact Or.inl hbuffer
      · refine Or.inr ⟨src, rfl, ?_, fun c' hc' => hnot c' (List.mem_cons_of_mem _ hc')⟩
        rw [← hvalue]
        have hother : ∀ c' ∈ [c], c'.dst ≠ src := by simpa using hnot c List.mem_cons_self
        exact foldl_apply_of_forall_ne hother tensor
    · have hnone : ∀ c ∈ copies, c.dst ≠ row := fun c hc heq => hlater ⟨c, hc, heq⟩
      obtain ⟨c', hc', heq⟩ := hmem
      obtain rfl : c' = c := (List.mem_cons.mp hc').resolve_right fun hc' => hnone c' hc' heq
      rw [foldl_apply_of_forall_ne hnone]
      rcases hall c' List.mem_cons_self heq with ⟨rfl, hvalue⟩ | ⟨src, rfl, hvalue, -⟩
      · exact (Function.update_self ..).trans hvalue
      · exact (Function.update_self ..).trans hvalue

/-- The first stage of `move_from_buffer`: the rows that are taken from the buffer. -/
def bufferCopies (m : LayerMaps) (r : Nat) : List RowCopy :=
  (m.localRows.filter fun row => !m.isUnchanged r row &&
    (m.isReceivedLocally r row || row ∈ (m.recvRows r).map Prod.snd)).map .fromBuffer

/-- The second stage: the rows that repeat an expert that was received. -/
def duplicateCopies (m : LayerMaps) (r : Nat) : List RowCopy :=
  (m.localRows.filter fun row => (!m.isUnchanged r row && !m.isReceivedLocally r row) &&
    (!decide (row ∈ (m.recvRows r).map Prod.snd) && m.newLocal r row ≠ -1)).filterMap fun dst =>
      ((m.recvRows r)[searchsorted ((m.recvRows r).map Prod.fst) (m.newLocal r dst)]?.filter
        fun prim => prim.1 = m.newLocal r dst).map fun prim => .fromRow dst prim.2

private theorem moveFromBufferCopies_eq (r : Nat) : m.moveFromBufferCopies (m.isUnchanged r)
    (m.isReceivedLocally r) (m.recvMetadata r) r = m.bufferCopies r ++ m.duplicateCopies r := by
  have hzip : ((m.recvRows r).map Prod.fst).zip ((m.recvRows r).map Prod.snd) = m.recvRows r :=
    (List.zip_of_prod rfl rfl).symm
  have hsort : (m.recvRows r).insertionSort (fun a b => a.1 ≤ b.1) = m.recvRows r :=
    insertionSort_firstRows _ _
  unfold moveFromBufferCopies recvMetadata
  simp only [hzip, hsort]
  split
  · next hempty =>
    have hnil : m.recvRows r = [] := List.length_eq_zero_iff.mp hempty
    have hdup : m.duplicateCopies r = [] := by
      unfold duplicateCopies
      exact List.filterMap_eq_nil_iff.mpr fun dst _ => by simp [hnil]
    rw [hdup, List.append_nil]
    rfl
  · rfl

private theorem mem_bufferCopies {c : RowCopy} : c ∈ m.bufferCopies r ↔
    ∃ row < m.numLocalExperts, c = .fromBuffer row ∧ m.isUnchanged r row = false ∧
      (m.isReceivedLocally r row = true ∨ ∃ expert, (expert, row) ∈ m.recvRows r) := by
  simp only [bufferCopies, localRows, List.mem_map, List.mem_filter, List.mem_range,
    Bool.and_eq_true, Bool.not_eq_true', Bool.or_eq_true, decide_eq_true_eq]
  constructor
  · rintro ⟨row, ⟨hrow, hchanged, hcopied⟩, rfl⟩
    exact ⟨row, hrow, rfl, hchanged, hcopied.imp_right fun ⟨e, he, heq⟩ => ⟨e.1, heq ▸ he⟩⟩
  · rintro ⟨row, hrow, rfl, hchanged, hcopied⟩
    exact ⟨row, ⟨hrow, hchanged, hcopied.imp_right fun ⟨e, he⟩ => ⟨(e, row), he, rfl⟩⟩, rfl⟩

/-- A duplicate copies the row of its expert that was received, and is none of those rows. -/
theorem mem_duplicateCopies {c : RowCopy} (h : c ∈ m.duplicateCopies r) :
    ∃ dst < m.numLocalExperts, ∃ src, c = .fromRow dst src ∧ m.isUnchanged r dst = false ∧
      (m.newLocal r dst, src) ∈ m.recvRows r ∧ m.isReceivedLocally r dst = false ∧
        ∀ expert, (expert, dst) ∉ m.recvRows r := by
  obtain ⟨dst, hdst, hsome⟩ := List.mem_filterMap.mp h
  simp only [localRows, List.mem_filter, List.mem_range, Bool.and_eq_true, Bool.not_eq_true',
    decide_eq_false_iff_not] at hdst
  obtain ⟨hrow, ⟨hchanged, hlocal⟩, hprimary, -⟩ := hdst
  obtain ⟨⟨expert, src⟩, hprim, rfl⟩ := Option.map_eq_some_iff.mp hsome
  obtain ⟨hget, hexpert⟩ := Option.filter_eq_some_iff.mp hprim
  obtain rfl : expert = m.newLocal r dst := by simpa using hexpert
  refine ⟨dst, hrow, src, rfl, hchanged, List.mem_of_getElem? hget, hlocal, ?_⟩
  intro expert hmem
  exact hprimary (List.mem_map.mpr ⟨(expert, dst), hmem, rfl⟩)

/-- Every row that needs its expert and is not the first of it has a duplicate's copy. -/
theorem exists_mem_duplicateCopies {r row : Nat} (hr : r < m.epSize)
    (hrow : row < m.numLocalExperts) (hneed : m.needRecv r row = true)
    (hprimary : ∀ expert, (expert, row) ∉ m.recvRows r) :
    ∃ src, RowCopy.fromRow row src ∈ m.duplicateCopies r := by
  obtain ⟨hne, hnone⟩ := (needRecv_iff hrow).mp hneed
  obtain ⟨src, hsrc⟩ := (exists_mem_recvRows hr).mpr
    ⟨hne, mem_ranksToRecv.mpr ⟨hr, ⟨row, hrow, rfl⟩, hnone⟩⟩
  have hsorted : ((m.recvRows r).map Prod.fst).Pairwise (· < ·) := by
    unfold recvRows
    rw [map_fst_firstRows]
    exact pairwise_unique _
  have hget := getElem?_searchsorted hsorted (List.mem_map_of_mem (f := Prod.fst) hsrc)
  rw [List.getElem?_map, Option.map_eq_some_iff] at hget
  obtain ⟨prim, hprim, hexpert⟩ := hget
  refine ⟨prim.2, List.mem_filterMap.mpr ⟨row, ?_, ?_⟩⟩
  · simp only [localRows, List.mem_filter, List.mem_range, Bool.and_eq_true, Bool.not_eq_true',
      decide_eq_false_iff_not, List.mem_map, decide_eq_true_eq]
    have hlocal : m.isReceivedLocally r row = false := by
      simp only [needRecv, Bool.and_eq_true, Bool.not_eq_true'] at hneed
      exact hneed.1
    have hchanged : m.isUnchanged r row = false := by
      simpa [isUnchanged] using hnone row hrow
    exact ⟨hrow, ⟨hchanged, hlocal⟩, fun ⟨e, he, heq⟩ => hprimary e.1 (heq ▸ he), hne⟩
  · have hexpert : prim.1 = m.newLocal r row := hexpert
    have hprim : (m.recvRows r)[searchsorted ((m.recvRows r).map Prod.fst)
        (m.newLocal r row)]? = some prim := hprim
    simp [hprim, Prod.ext_iff, hexpert]

/-- No copy writes a row that is unchanged. -/
theorem dst_ne_of_isUnchanged {r row : Nat} (hunchanged : m.isUnchanged r row = true)
    {c : RowCopy} (hc : c ∈ m.moveFromBufferCopies (m.isUnchanged r) (m.isReceivedLocally r)
      (m.recvMetadata r) r) : c.dst ≠ row := by
  rw [moveFromBufferCopies_eq, List.mem_append] at hc
  rintro rfl
  rcases hc with hc | hc
  · obtain ⟨row, -, rfl, hchanged, -⟩ := mem_bufferCopies.mp hc
    exact absurd hunchanged (by simpa [RowCopy.dst] using hchanged)
  · obtain ⟨row, -, src, rfl, hchanged, -⟩ := mem_duplicateCopies hc
    exact absurd hunchanged (by simpa [RowCopy.dst] using hchanged)

/-- Behind the first stage a row that is taken from the buffer holds the buffer's value. -/
theorem foldl_bufferCopies {r row tensor : Nat} {weights : Tensors V}
    (hmem : RowCopy.fromBuffer row ∈ m.bufferCopies r) :
    (m.bufferCopies r).foldl (RowCopy.apply buffers) weights tensor row = buffers tensor row := by
  refine foldl_apply_of_mem ⟨_, hmem, rfl⟩ fun c hc heq => Or.inl ⟨?_, rfl⟩
  obtain ⟨row', -, rfl, -⟩ := mem_bufferCopies.mp hc
  rw [← heq]
  rfl

/-- Every row holds the weights of its new expert. -/
theorem Consistent.rearrange_eq {buffers : Nat → Tensors V} (h : m.Consistent numTensors weights)
    {r row : Nat} (hr : r < m.epSize) (hrow : row < m.numLocalExperts)
    {s row' : Nat} (hs : s < m.epSize) (hrow' : row' < m.numLocalExperts)
    (hold : m.oldLocal s row' = m.newLocal r row) (hne : m.newLocal r row ≠ -1) {tensor : Nat}
    (htensor : tensor < numTensors) :
    m.rearrange numTensors weights buffers r tensor row = weights s tensor row' := by
  unfold rearrange moveFromBuffer
  cases hunchanged : m.isUnchanged r row with
  | true =>
    rw [foldl_apply_of_forall_ne fun c hc => dst_ne_of_isUnchanged hunchanged hc]
    have hsame : m.oldLocal r row = m.newLocal r row := by simpa [isUnchanged] using hunchanged
    exact h.equal r hr row hrow s hs row' hrow' (hsame.trans hold.symm) (hsame ▸ hne) tensor htensor
  | false =>
    rw [moveFromBufferCopies_eq, List.foldl_append]
    by_cases hcopied : m.isReceivedLocally r row = true ∨ ∃ expert, (expert, row) ∈ m.recvRows r
    · -- The row comes from the buffer, and the second stage leaves it.
      rw [foldl_apply_of_forall_ne, foldl_bufferCopies
        (mem_bufferCopies.mpr ⟨row, hrow, rfl, hunchanged, hcopied⟩)]
      · exact h.moveToBuffer_eq hr hrow hunchanged hcopied hs hrow' hold hne htensor
      · intro c hc
        obtain ⟨dst, -, src, rfl, -, -, hlocal, hprimary⟩ := mem_duplicateCopies hc
        rintro rfl
        rcases hcopied with hcopied | ⟨expert, hcopied⟩
        · exact absurd hcopied (by simpa [RowCopy.dst] using hlocal)
        · exact hprimary expert hcopied
    · -- The row repeats an expert: the second stage copies it from the expert's first row.
      rw [not_or] at hcopied
      have hprimary : ∀ expert, (expert, row) ∉ m.recvRows r :=
        fun expert hmem => hcopied.2 ⟨expert, hmem⟩
      have hneed : m.needRecv r row = true := by simp [needRecv, hcopied.1, hne]
      obtain ⟨src, hsrc⟩ := exists_mem_duplicateCopies hr hrow hneed hprimary
      refine foldl_apply_of_mem ⟨_, hsrc, rfl⟩ fun c hc heq => Or.inr ?_
      obtain ⟨dst, -, src', rfl, -, hmem, -⟩ := mem_duplicateCopies hc
      obtain rfl : dst = row := heq
      obtain ⟨hsrcRow, hsrcNew, hsrcNeed⟩ := mem_recvRows hmem
      have hsrcChanged : m.isUnchanged r src' = false := by
        simpa [isUnchanged] using ((needRecv_iff hsrcRow).mp hsrcNeed).2 src' hsrcRow
      refine ⟨src', rfl, ?_, fun c' hc' => ?_⟩
      · rw [foldl_bufferCopies (mem_bufferCopies.mpr
          ⟨src', hsrcRow, rfl, hsrcChanged, Or.inr ⟨_, hmem⟩⟩)]
        exact h.moveToBuffer_eq hr hsrcRow hsrcChanged (Or.inr ⟨_, hmem⟩) hs hrow'
          (hold.trans hsrcNew.symm) (hsrcNew ▸ hne) htensor
      · obtain ⟨dst', -, src'', rfl, -, -, -, hnot⟩ := mem_duplicateCopies hc'
        rintro rfl
        exact hnot _ hmem

/-- Over all ranks, the operations match completely and with other ranks only, every slot with
a new expert holds the weights that the expert had, and unchanged slots are not written. -/
theorem rearrange_correct (m : LayerMaps) (numTensors : Nat) (weights : Nat → Tensors V)
    (buffers : Nat → Tensors V) (h : m.Consistent numTensors weights) :
    (∀ s < m.epSize, ∀ r < m.epSize, List.Forall₂ (m.Matched s r)
      (sendsTo (m.p2pOps numTensors s) r) (recvsFrom (m.p2pOps numTensors r) s)) ∧
    (∀ r < m.epSize, ∀ op ∈ m.p2pOps numTensors r, op.peer < m.epSize ∧ op.peer ≠ r) ∧
    (∀ r < m.epSize, ∀ row < m.numLocalExperts, m.newLocal r row ≠ -1 →
      ∀ s < m.epSize, ∀ row' < m.numLocalExperts, m.oldLocal s row' = m.newLocal r row →
        ∀ tensor < numTensors,
          m.rearrange numTensors weights buffers r tensor row = weights s tensor row') ∧
    (∀ r < m.epSize, ∀ row < m.numLocalExperts, m.isUnchanged r row = true →
      ∀ c ∈ m.moveFromBufferCopies (m.isUnchanged r) (m.isReceivedLocally r) (m.recvMetadata r) r,
        c.dst ≠ row) :=
  ⟨fun _ hs _ hr => forall₂_matched hs hr h.ranksToSend_ne_nil,
    fun _ hr _ hop => peer_of_mem_p2pOps hr h.ranksToSend_ne_nil hop,
    fun _ hr _ hrow hne _ hs _ hrow' hold _ htensor =>
      h.rearrange_eq hr hrow hs hrow' hold hne htensor,
    fun _ _ _ _ hunchanged _ hc => dst_ne_of_isUnchanged hunchanged hc⟩

/-- Two ranks of two rows: expert 7 is spread to both rows of the second rank, which gives
expert 8 to the first. -/
def spreadMaps : LayerMaps where
  numLocalExperts := 2
  epSize := 2
  oldIndices := fun p => [7, -1, 8, 8].getD p (-1)
  newIndices := fun p => [7, 8, 7, 7].getD p (-1)

/-- The weights of those rows are their experts. -/
def spreadWeights (r _tensor row : Nat) : Int := spreadMaps.oldLocal r row

private theorem spreadMaps_consistent : spreadMaps.Consistent 1 spreadWeights where
  equal := fun _ _ _ _ _ _ _ _ hold _ _ _ => hold
  held := by decide

theorem spreadMaps_rearranged :
    spreadMaps.rearrange 1 spreadWeights (fun _ _ _ => 0) 1 0 1 = 7 :=
  (rearrange_correct spreadMaps 1 spreadWeights (fun _ _ _ => 0) spreadMaps_consistent).2.2.1
    1 (by decide) 1 (by decide) (by decide) 0 (by decide) 0 (by decide) (by decide) 0 (by decide)

end Exchange

end LayerMaps

end Vllm.Distributed
