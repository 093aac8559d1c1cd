import Mathlib.Data.List.TakeWhile
import Vllm.Frontend.ReasoningParser

/-!
# Streamed reasoning

A parser that streams gives the reasoning and the content of the whole text, up to the repeated
start markers it drops and the first one it may keep.
-/

namespace Vllm.Frontend

open Occurrence

variable {m : ThinkingTokens} {tokenText : TokenId → Text}

/-! ## Texts of tokens -/

@[simp] theorem textOf_nil : textOf tokenText [] = [] := rfl

@[simp] theorem textOf_append (xs ys : List TokenId) :
    textOf tokenText (xs ++ ys) = textOf tokenText xs ++ textOf tokenText ys :=
  List.flatMap_append

@[simp] theorem textOf_cons (x : TokenId) (xs : List TokenId) :
    textOf tokenText (x :: xs) = tokenText x ++ textOf tokenText xs := rfl

private theorem sliceTo_natCast (text : Text) (i : Nat) : sliceTo text i = text.take i := by
  rw [sliceTo, searchStart, if_neg (by omega), Int.toNat_natCast]

private theorem sliceFrom_natCast (text : Text) (i : Nat) : sliceFrom text i = text.drop i := by
  rw [sliceFrom, searchStart, if_neg (by omega), Int.toNat_natCast]

private theorem find_of_searchFrom {text sub : Text} {i : Nat}
    (h : searchFrom text sub 0 = some i) : find text sub 0 = i := by
  rw [find, searchStart, if_neg (by omega), Int.toNat_zero, h]

@[simp] theorem getD_orNone (text : Text) : (orNone text).getD [] = text := by
  unfold orNone
  split
  · next h => exact h.symm
  · rfl

/-! ## The parts of an output -/

/-- The tokens before the end marker. -/
def reasoningTokens (m : ThinkingTokens) (tokens : List TokenId) : List TokenId :=
  tokens.takeWhile fun token => token != m.endTokenId

/-- The tokens behind the end marker. -/
def contentTokens (m : ThinkingTokens) (tokens : List TokenId) : List TokenId :=
  (tokens.dropWhile fun token => token != m.endTokenId).drop 1

/-- The texts before and behind the end marker. -/
def partsOf (m : ThinkingTokens) (tokenText : TokenId → Text) (tokens : List TokenId) :
    Text × Text :=
  (textOf tokenText (reasoningTokens m tokens), textOf tokenText (contentTokens m tokens))

/-- Without an end marker all is reasoning. -/
theorem partsOf_of_notMem {tokens : List TokenId} (h : m.endTokenId ∉ tokens) :
    partsOf m tokenText tokens = (textOf tokenText tokens, []) := by
  have hall : ∀ token ∈ tokens, (token != m.endTokenId) = true := by
    intro token htoken
    rw [bne_iff_ne]
    rintro rfl
    exact h htoken
  rw [partsOf, reasoningTokens, contentTokens, List.takeWhile_eq_self_iff.mpr hall,
    List.dropWhile_eq_nil_iff.mpr hall]
  rfl

/-- The parts are what is before the end marker and what is behind it. -/
theorem partsOf_of_split (before after : List TokenId) (h : m.endTokenId ∉ before) :
    partsOf m tokenText (before ++ m.endTokenId :: after)
      = (textOf tokenText before, textOf tokenText after) := by
  have hall : ∀ token ∈ before, (token != m.endTokenId) = true := by
    intro token htoken
    rw [bne_iff_ne]
    rintro rfl
    exact h htoken
  rw [partsOf, reasoningTokens, contentTokens, List.takeWhile_append_of_pos hall,
    List.dropWhile_append_of_pos hall, List.takeWhile_cons_of_neg (by simp),
    List.dropWhile_cons_of_neg (by simp), List.append_nil]
  rfl

/-- Tokens with the end marker, and others behind them. -/
theorem partsOf_append_of_mem {xs : List TokenId} (h : m.endTokenId ∈ xs) (ys : List TokenId) :
    partsOf m tokenText (xs ++ ys)
      = ((partsOf m tokenText xs).1, (partsOf m tokenText xs).2 ++ textOf tokenText ys) := by
  obtain ⟨before, after, rfl, hbefore⟩ := List.eq_append_cons_of_mem h
  rw [List.append_assoc, List.cons_append, partsOf_of_split _ _ hbefore,
    partsOf_of_split _ _ hbefore, textOf_append]

/-- Tokens without the end marker, and others behind them. -/
theorem partsOf_append_of_notMem {xs : List TokenId} (h : m.endTokenId ∉ xs) (ys : List TokenId) :
    partsOf m tokenText (xs ++ ys)
      = (textOf tokenText xs ++ (partsOf m tokenText ys).1, (partsOf m tokenText ys).2) := by
  by_cases hys : m.endTokenId ∈ ys
  · obtain ⟨before, after, rfl, hbefore⟩ := List.eq_append_cons_of_mem hys
    rw [← List.append_assoc, partsOf_of_split _ _ hbefore, partsOf_of_split _ _ (by
      rw [List.mem_append]
      exact not_or.mpr ⟨h, hbefore⟩), textOf_append]
  · rw [partsOf_of_notMem hys, partsOf_of_notMem (by
      rw [List.mem_append]
      exact not_or.mpr ⟨h, hys⟩), textOf_append]

/-- The parts lack the end marker's text only. -/
theorem length_partsOf (hend : tokenText m.endTokenId = m.endToken) (tokens : List TokenId) :
    (partsOf m tokenText tokens).1.length + (partsOf m tokenText tokens).2.length
        + (if m.endTokenId ∈ tokens then m.endToken.length else 0)
      = (textOf tokenText tokens).length := by
  split
  · next hmem =>
    obtain ⟨before, after, rfl, hbefore⟩ := List.eq_append_cons_of_mem hmem
    rw [partsOf_of_split _ _ hbefore, textOf_append, textOf_cons, hend]
    simp only [List.length_append]
    omega
  · next hmem =>
    rw [partsOf_of_notMem hmem]
    rfl

/-! ## Finding the markers -/

/-- An occurrence in a piece of a text is one in the text. -/
theorem occurs_of_piece (before after : Text) {s piece : Text} {i : Nat} (h : Occurs s piece i)
    (hi : i + s.length ≤ piece.length) :
    Occurs s (before ++ (piece ++ after)) (before.length + i) := by
  unfold Occurs at *
  rw [← List.drop_drop, List.drop_left, List.drop_append_of_le_length (by omega)]
  exact h.trans (List.prefix_append _ _)

/-- A token's text occurs where the token stands. -/
theorem occurs_of_token (before after : List TokenId) (token : TokenId) :
    Occurs (tokenText token) (textOf tokenText (before ++ token :: after))
      (textOf tokenText before).length := by
  rw [Occurs, textOf_append, List.drop_left, textOf_cons]
  exact List.prefix_append _ _

namespace MarkedOutput

variable {tokens pre piece post before after : List TokenId} (h : MarkedOutput m tokenText tokens)

include h

/-- In a piece of the output that holds the end marker, the marker is found at its token. -/
theorem search_end (pre before after post : List TokenId)
    (htokens : tokens = pre ++ (before ++ m.endTokenId :: after) ++ post) :
    searchFrom (textOf tokenText (before ++ m.endTokenId :: after)) m.endToken 0
      = some (textOf tokenText before).length := by
  rw [searchFrom_eq_some_iff h.endToken]
  refine ⟨Nat.zero_le _, ?_, fun j _ hj => ?_⟩
  · rw [← h.endText]
    exact occurs_of_token _ _ _
  have hwhole := occurs_of_piece (textOf tokenText pre) (textOf tokenText post)
    hj (hj.end_le h.endToken)
  rw [← textOf_append, ← textOf_append, ← List.append_assoc, ← htokens] at hwhole
  obtain ⟨k, hk, hindex⟩ := h.endOccurs _ hwhole
  -- The end marker is at one place only.
  have hcount := h.atMostOnce
  rw [htokens, List.append_assoc, List.append_assoc, List.cons_append, ← List.append_assoc] at hk
  rw [htokens, List.append_assoc, List.append_assoc, List.cons_append, ← List.append_assoc,
    List.count_append, List.count_cons_self] at hcount
  have hplace : k = (pre ++ before).length := by
    rcases Nat.lt_trichotomy k (pre ++ before).length with hlt | heq | hgt
    · rw [List.getElem?_append_left hlt] at hk
      have := List.count_pos_iff.mpr (List.mem_of_getElem? hk)
      omega
    · exact heq
    · obtain ⟨n, hn⟩ : ∃ n, k - (pre ++ before).length = n + 1 :=
        ⟨k - (pre ++ before).length - 1, by omega⟩
      rw [List.getElem?_append_right (by omega), hn, List.getElem?_cons_succ] at hk
      have := List.count_pos_iff.mpr (List.mem_of_getElem? hk)
      omega
  rw [htokens, List.append_assoc, List.append_assoc, List.cons_append, ← List.append_assoc, hplace,
    List.take_left, textOf_append, List.length_append] at hindex
  omega

/-- In a piece of an output without the end marker, the marker's text is not found. -/
theorem search_end_none (pre piece post : List TokenId) (hmem : m.endTokenId ∉ tokens)
    (htokens : tokens = pre ++ piece ++ post) :
    searchFrom (textOf tokenText piece) m.endToken 0 = none := by
  rw [searchFrom_eq_none_iff h.endToken]
  intro j _ hj
  have hwhole := occurs_of_piece (textOf tokenText pre) (textOf tokenText post)
    hj (hj.end_le h.endToken)
  rw [← textOf_append, ← textOf_append, ← List.append_assoc, ← htokens] at hwhole
  obtain ⟨k, hk, -⟩ := h.endOccurs _ hwhole
  exact hmem (List.mem_of_getElem? hk)

/-- The end marker stands once: not before and not behind itself. -/
theorem notMem_of_append (pre post : List TokenId) (htokens : tokens = pre ++ post)
    (hmem : m.endTokenId ∈ pre) : m.endTokenId ∉ post := by
  intro hpost
  have hcount := h.atMostOnce
  rw [htokens, List.count_append] at hcount
  have := List.count_pos_iff.mpr hmem
  have := List.count_pos_iff.mpr hpost
  omega

/-- The first start marker is found at the start of a text that begins with its token. -/
theorem search_start (tokens : List TokenId) :
    searchFrom (textOf tokenText (m.startTokenId :: tokens)) m.startToken 0 = some 0 := by
  rw [searchFrom_eq_some_iff h.startToken]
  refine ⟨Nat.zero_le _, ?_, fun j _ _ => Nat.zero_le j⟩
  rw [← h.startText]
  exact occurs_of_token [] _ _

/-- An output that begins with the start marker, without it. -/
theorem stripStart_cons (tokens : List TokenId) :
    stripStart m (textOf tokenText (m.startTokenId :: tokens)) = textOf tokenText tokens := by
  rw [stripStart, partition, h.search_start]
  simp only [ne_eq, h.startToken, not_false_eq_true, if_true, Nat.zero_add, textOf_cons,
    h.startText, List.drop_left]

/-- An output without start markers stays. -/
theorem stripStart_of_notMem (hmem : m.startTokenId ∉ tokens) :
    stripStart m (textOf tokenText tokens) = textOf tokenText tokens := by
  have hnone : searchFrom (textOf tokenText tokens) m.startToken 0 = none := by
    rw [searchFrom_eq_none_iff h.startToken]
    intro j _ hj
    obtain ⟨k, hk, -⟩ := h.startOccurs j hj
    exact hmem (List.mem_of_getElem? hk)
  rw [stripStart, partition, hnone]
  simp

/-- Cutting the text of the tokens behind a marker gives the parts. -/
theorem extractReasoning_eq (pre : List TokenId) {modelOutput : Text}
    (htokens : tokens = pre ++ piece) (hpre : m.endTokenId ∉ pre)
    (hstrip : stripStart m modelOutput = textOf tokenText piece) :
    ((BaseThinkingReasoningParser.extractReasoning m modelOutput).1.getD [],
      (BaseThinkingReasoningParser.extractReasoning m modelOutput).2.getD [])
        = partsOf m tokenText piece := by
  unfold BaseThinkingReasoningParser.extractReasoning
  rw [hstrip]
  by_cases hmem : m.endTokenId ∈ piece
  · obtain ⟨before, after, rfl, hbefore⟩ := List.eq_append_cons_of_mem hmem
    have hsearch := h.search_end pre before after [] (by rw [htokens, List.append_nil])
    simp only [hsearch, reduceCtorEq, if_false, partition, getD_orNone, Option.getD_some]
    rw [partsOf_of_split _ _ hbefore, textOf_append, textOf_cons, h.endText, List.take_left,
      ← List.drop_drop, List.drop_left, List.drop_left]
  · have hnone := h.search_end_none pre piece [] (by
      rw [htokens, List.mem_append]
      exact not_or.mpr ⟨hpre, hmem⟩) (by rw [htokens, List.append_nil])
    simp only [hnone, if_true, Option.getD_some, Option.getD_none]
    rw [partsOf_of_notMem hmem]

end MarkedOutput

private theorem concatenated_cons (message : Option DeltaMessage)
    (messages : List (Option DeltaMessage)) :
    concatenated (message :: messages)
      = ((fieldsOf message).1 ++ (concatenated messages).1,
        (fieldsOf message).2 ++ (concatenated messages).2) := rfl

/-! ## The base parser -/

/-- The deltas that are not one start marker. -/
def keptDeltas (m : ThinkingTokens) (deltas : List (List TokenId)) : List (List TokenId) :=
  deltas.filter (· ≠ [m.startTokenId])

namespace MarkedOutput

variable {tokens previous delta rest : List TokenId} {deltas : List (List TokenId)}
  (h : MarkedOutput m tokenText tokens)

include h

/-- One delta behind the start marker: one start marker is dropped, and all else is split. -/
theorem base_step (htokens : tokens = previous ++ delta ++ rest)
    (hstart : m.startTokenId ∈ previous) :
    fieldsOf (BaseThinkingReasoningParser.extractReasoningStreaming m (textOf tokenText delta)
        previous delta)
      = if delta = [m.startTokenId] then ([], [])
        else if m.endTokenId ∈ previous then ([], textOf tokenText delta)
        else partsOf m tokenText delta := by
  unfold BaseThinkingReasoningParser.extractReasoningStreaming
  by_cases hlone : isLoneMarker m delta = true
  · rw [if_pos hlone]
    obtain ⟨token, rfl⟩ : ∃ token, delta = [token] := by
      match delta, hlone with
      | [token], _ => exact ⟨token, rfl⟩
    rcases Bool.or_eq_true_iff.mp hlone with htoken | htoken
    · obtain rfl := beq_iff_eq.mp htoken
      rw [if_pos rfl]
      rfl
    · obtain rfl := beq_iff_eq.mp htoken
      have hprevious : m.endTokenId ∉ previous := by
        intro hmem
        exact h.notMem_of_append previous ([m.endTokenId] ++ rest)
          (by rw [htokens, List.append_assoc]) hmem (by simp)
      rw [if_neg (by simpa using h.ids.symm), if_neg hprevious]
      exact (partsOf_of_split [] [] List.not_mem_nil).symm
  · have hnot : delta ≠ [m.startTokenId] := by
      rintro rfl
      exact hlone (by simp [isLoneMarker])
    rw [if_neg hlone, if_pos hstart, if_neg hnot]
    by_cases hmem : m.endTokenId ∈ delta
    · have hprevious : m.endTokenId ∉ previous := by
        intro hbefore
        exact h.notMem_of_append previous (delta ++ rest) (by rw [htokens, List.append_assoc])
          hbefore (List.mem_append_left _ hmem)
      obtain ⟨before, after, rfl, hbefore⟩ := List.eq_append_cons_of_mem hmem
      rw [if_pos hmem, if_neg hprevious, find_of_searchFrom (h.search_end _ _ _ _ htokens),
        partsOf_of_split _ _ hbefore]
      simp only [fieldsOf, getD_orNone, Option.getD_some]
      rw [sliceTo_natCast, ← Int.natCast_add, sliceFrom_natCast, textOf_append, textOf_cons,
        h.endText, List.take_left, ← List.drop_drop, List.drop_left, List.drop_left]
    · rw [if_neg hmem]
      split
      · rfl
      · rw [partsOf_of_notMem hmem]
        rfl

/-- The deltas behind the start marker, as one. -/
theorem base_stream (previous : List TokenId) (deltas : List (List TokenId))
    (htokens : tokens = previous ++ deltas.flatten)
    (hstart : m.startTokenId ∈ previous) :
    concatenated (streamFrom (BaseThinkingReasoningParser.extractReasoningStreaming m) tokenText
        previous deltas)
      = if m.endTokenId ∈ previous then ([], textOf tokenText (keptDeltas m deltas).flatten)
        else partsOf m tokenText (keptDeltas m deltas).flatten := by
  induction deltas generalizing previous with
  | nil =>
    rw [streamFrom, keptDeltas, List.filter_nil, List.flatten_nil,
      partsOf_of_notMem List.not_mem_nil]
    split <;> rfl
  | cons delta deltas ih =>
    rw [List.flatten_cons, ← List.append_assoc] at htokens
    have hstep := h.base_step htokens hstart
    have hrest := ih _ htokens (List.mem_append_left _ hstart)
    rw [streamFrom, concatenated_cons, hstep, hrest]
    by_cases hlone : delta = [m.startTokenId]
    · have hkept : keptDeltas m (delta :: deltas) = keptDeltas m deltas :=
        List.filter_cons_of_neg (by simp [hlone])
      have hend : m.endTokenId ∈ previous ++ delta ↔ m.endTokenId ∈ previous := by
        rw [hlone, List.mem_append, List.mem_singleton, or_iff_left h.ids.symm]
      rw [if_pos hlone, hkept]
      simp only [hend, List.nil_append]
    · have hkept : keptDeltas m (delta :: deltas) = delta :: keptDeltas m deltas :=
        List.filter_cons_of_pos (by simp [hlone])
      rw [if_neg hlone, hkept, List.flatten_cons]
      by_cases hprevious : m.endTokenId ∈ previous
      · simp only [hprevious, List.mem_append, true_or, if_true, textOf_append, List.nil_append]
      · by_cases hmem : m.endTokenId ∈ delta
        · simp only [hprevious, hmem, List.mem_append, or_true, if_true, if_false]
          rw [partsOf_append_of_mem hmem, List.append_nil]
        · simp only [hprevious, hmem, List.mem_append, or_false, if_false]
          rw [partsOf_append_of_notMem hmem, partsOf_of_notMem hmem, List.nil_append]

/-- The first delta of an output that begins with the start marker: where it holds more than the
marker and no end marker, the start marker stays in it. -/
theorem base_first (delta rest : List TokenId)
    (htokens : tokens = m.startTokenId :: delta ++ rest) :
    fieldsOf (BaseThinkingReasoningParser.extractReasoningStreaming m
        (textOf tokenText (m.startTokenId :: delta)) [] (m.startTokenId :: delta))
      = if delta = [] then ([], [])
        else if m.endTokenId ∈ delta then partsOf m tokenText delta
        else (textOf tokenText (m.startTokenId :: delta), []) := by
  unfold BaseThinkingReasoningParser.extractReasoningStreaming
  by_cases hnil : delta = []
  · rw [if_pos (by simp [hnil, isLoneMarker]), if_pos hnil, fieldsOf]
  have hlone : ¬ isLoneMarker m (m.startTokenId :: delta) = true := by
    cases delta with
    | nil => exact absurd rfl hnil
    | cons token others => simp [isLoneMarker]
  rw [if_neg hlone, if_neg List.not_mem_nil, if_pos List.mem_cons_self, if_neg hnil]
  by_cases hmem : m.endTokenId ∈ delta
  · obtain ⟨before, after, hsplit, hbefore⟩ := List.eq_append_cons_of_mem hmem
    have hend := h.search_end [] (m.startTokenId :: before) after rest (by simp [htokens, hsplit])
    rw [List.cons_append, ← hsplit] at hend
    rw [if_pos (List.mem_cons_of_mem _ hmem), if_pos hmem,
      find_of_searchFrom (h.search_start delta), find_of_searchFrom hend, hsplit,
      partsOf_of_split _ _ hbefore]
    simp only [fieldsOf, getD_orNone, Option.getD_some]
    rw [sliceBetween, sliceTo_natCast, ← Int.natCast_add, ← Int.natCast_add, sliceFrom_natCast,
      searchStart, if_neg (by omega), Int.toNat_natCast, ← List.cons_append, textOf_append,
      List.take_left, Nat.zero_add, textOf_cons, h.startText, List.drop_left, textOf_cons,
      h.endText, ← List.drop_drop, ← h.startText, ← textOf_cons, List.drop_left, List.drop_left]
  · rw [if_neg (by
      rw [List.mem_cons, not_or]
      exact ⟨h.ids.symm, hmem⟩), if_neg hmem]
    rfl

omit h in
private theorem keptDeltas_of_notMem (hmem : [m.startTokenId] ∉ deltas) :
    keptDeltas m deltas = deltas := by
  refine List.filter_eq_self.mpr fun delta hdelta => decide_eq_true ?_
  rintro rfl
  exact hmem hdelta

/-- What is dropped is the text of the repeated markers. -/
theorem length_keptDeltas (deltas : List (List TokenId)) :
    (textOf tokenText deltas.flatten).length
      = (textOf tokenText (keptDeltas m deltas).flatten).length
        + deltas.count [m.startTokenId] * m.startToken.length := by
  induction deltas with
  | nil => simp [keptDeltas]
  | cons delta deltas ih =>
    by_cases hlone : delta = [m.startTokenId]
    · have hkept : keptDeltas m (delta :: deltas) = keptDeltas m deltas :=
        List.filter_cons_of_neg (by simp [hlone])
      rw [hkept, hlone, List.count_cons_self, List.flatten_cons, textOf_append, List.length_append,
        ih, Nat.succ_mul, textOf_cons, textOf_nil, List.append_nil, h.startText]
      omega
    · have hkept : keptDeltas m (delta :: deltas) = delta :: keptDeltas m deltas :=
        List.filter_cons_of_pos (by simp [hlone])
      rw [hkept, List.count_cons_of_ne hlone, List.flatten_cons, List.flatten_cons,
        textOf_append, textOf_append, List.length_append, List.length_append, ih, Nat.add_assoc]

/-- No end marker is dropped. -/
theorem end_mem_keptDeltas :
    m.endTokenId ∈ (keptDeltas m deltas).flatten ↔ m.endTokenId ∈ deltas.flatten := by
  simp only [List.mem_flatten, keptDeltas, List.mem_filter, decide_eq_true_eq]
  constructor
  · rintro ⟨delta, ⟨hdelta, -⟩, hmem⟩
    exact ⟨delta, hdelta, hmem⟩
  · rintro ⟨delta, hdelta, hmem⟩
    refine ⟨delta, ⟨hdelta, ?_⟩, hmem⟩
    rintro rfl
    exact h.ids (List.mem_singleton.mp hmem).symm

/-- The parts of all that is kept are as long as those of all, less the repeated markers. -/
theorem length_parts_keptDeltas (deltas : List (List TokenId)) :
    (partsOf m tokenText deltas.flatten).1.length + (partsOf m tokenText deltas.flatten).2.length
      = (partsOf m tokenText (keptDeltas m deltas).flatten).1.length
        + (partsOf m tokenText (keptDeltas m deltas).flatten).2.length
        + deltas.count [m.startTokenId] * m.startToken.length := by
  have hall := length_partsOf h.endText deltas.flatten
  have hkept := length_partsOf h.endText (keptDeltas m deltas).flatten
  have hlength := h.length_keptDeltas deltas
  simp only [h.end_mem_keptDeltas] at hkept
  omega

/-- Dropping keeps the text where there is nothing to drop. -/
theorem text_keptDeltas_iff (deltas : List (List TokenId)) :
    textOf tokenText (keptDeltas m deltas).flatten = textOf tokenText deltas.flatten ↔
      [m.startTokenId] ∉ deltas := by
  constructor
  · intro heq
    have hlength := h.length_keptDeltas deltas
    have hpos := List.length_pos_iff.mpr h.startToken
    rw [heq] at hlength
    have hzero : deltas.count [m.startTokenId] * m.startToken.length = 0 := by omega
    exact List.count_eq_zero.mp ((Nat.mul_eq_zero.mp hzero).resolve_right (by omega))
  · intro hmem
    rw [keptDeltas_of_notMem hmem]

/-- Dropping keeps the parts where there is nothing to drop. -/
theorem parts_keptDeltas_iff (deltas : List (List TokenId)) :
    partsOf m tokenText (keptDeltas m deltas).flatten = partsOf m tokenText deltas.flatten ↔
      [m.startTokenId] ∉ deltas := by
  constructor
  · intro heq
    have hlength := h.length_parts_keptDeltas deltas
    have hpos := List.length_pos_iff.mpr h.startToken
    rw [heq] at hlength
    have hzero : deltas.count [m.startTokenId] * m.startToken.length = 0 := by omega
    exact List.count_eq_zero.mp ((Nat.mul_eq_zero.mp hzero).resolve_right (by omega))
  · intro hmem
    rw [keptDeltas_of_notMem hmem]

/-- A marker too many at the front is made up for by exactly one dropped marker, where moving the
marker there does not change the text. -/
theorem front_keptDeltas_iff (front : List TokenId) :
    (textOf tokenText (m.startTokenId :: front)
        ++ (partsOf m tokenText (keptDeltas m deltas).flatten).1,
      (partsOf m tokenText (keptDeltas m deltas).flatten).2)
      = (textOf tokenText front ++ (partsOf m tokenText deltas.flatten).1,
        (partsOf m tokenText deltas.flatten).2) ↔
    ∃ between after, deltas = between ++ [m.startTokenId] :: after ∧
      [m.startTokenId] ∉ between ∧ [m.startTokenId] ∉ after ∧ m.endTokenId ∉ between.flatten ∧
      textOf tokenText (m.startTokenId :: front ++ between.flatten)
        = textOf tokenText (front ++ between.flatten ++ [m.startTokenId]) := by
  have hpos := List.length_pos_iff.mpr h.startToken
  -- The parts around one marker, before which there is no end marker.
  have hparts : ∀ between after : List (List TokenId), m.endTokenId ∉ between.flatten →
      partsOf m tokenText (between ++ [m.startTokenId] :: after).flatten
        = (textOf tokenText between.flatten ++ (m.startToken
            ++ (partsOf m tokenText after.flatten).1), (partsOf m tokenText after.flatten).2) := by
    intro between after hend
    rw [List.flatten_append, List.flatten_cons, partsOf_append_of_notMem hend,
      partsOf_append_of_notMem (by simpa using h.ids.symm), textOf_cons, textOf_nil, h.startText,
      List.append_nil]
  have hkept : ∀ between after : List (List TokenId), [m.startTokenId] ∉ between →
      [m.startTokenId] ∉ after →
      (keptDeltas m (between ++ [m.startTokenId] :: after)).flatten
        = between.flatten ++ after.flatten := by
    intro between after hbetween hafter
    rw [keptDeltas, List.filter_append, List.filter_cons_of_neg (by simp), ← List.flatten_append]
    exact congrArg List.flatten (congrArg₂ _ (keptDeltas_of_notMem hbetween)
      (keptDeltas_of_notMem hafter))
  constructor
  · intro heq
    obtain ⟨hreasoning, hcontent⟩ := Prod.mk.inj heq
    have hlength := h.length_parts_keptDeltas deltas
    have hone : deltas.count [m.startTokenId] = 1 := by
      have := congrArg List.length hreasoning
      rw [textOf_cons, h.startText, List.length_append, List.length_append, List.length_append]
        at this
      rw [hcontent] at hlength
      exact Nat.eq_of_mul_eq_mul_right hpos (by omega)
    obtain ⟨between, after, rfl, hbetween⟩ := List.eq_append_cons_of_mem
      (List.count_pos_iff.mp (by rw [hone]; exact Nat.one_pos))
    have hafter : [m.startTokenId] ∉ after := by
      rw [List.count_append, List.count_cons_self] at hone
      exact List.count_eq_zero.mp (by omega)
    rw [hkept between after hbetween hafter] at hreasoning hcontent
    have hend : m.endTokenId ∉ between.flatten := by
      intro hmem
      rw [List.flatten_append, partsOf_append_of_mem hmem, partsOf_append_of_mem hmem] at hcontent
      have := congrArg List.length hcontent
      simp only [List.flatten_cons, List.singleton_append, textOf_cons, h.startText,
        List.length_append] at this
      omega
    refine ⟨between, after, rfl, hbetween, hafter, hend, ?_⟩
    rw [hparts between after hend, partsOf_append_of_notMem hend, ← List.append_assoc,
      ← List.append_assoc, ← List.append_assoc, ← textOf_append] at hreasoning
    rw [List.append_cancel_right hreasoning]
    simp [h.startText]
  · rintro ⟨between, after, rfl, hbetween, hafter, hend, heq⟩
    rw [hkept between after hbetween hafter, hparts between after hend,
      partsOf_append_of_notMem hend, ← List.append_assoc, ← textOf_append, heq]
    simp [h.startText]

end MarkedOutput

/-- When the base parser may stream an output that begins with the start marker: the first delta
is the marker alone or holds the end marker, and no later delta is one start marker. Otherwise the
first delta keeps its marker, and one later marker must be dropped for it, before the end marker,
such that the text is the same. -/
def BaseStreamable (m : ThinkingTokens) (tokenText : TokenId → Text) :
    List (List TokenId) → Prop
  | [] => True
  | first :: rest =>
    (first = [m.startTokenId] ∨ m.endTokenId ∈ first) ∧ [m.startTokenId] ∉ rest ∨
    (first ≠ [m.startTokenId] ∧ m.endTokenId ∉ first ∧ ∃ between after,
      rest = between ++ [m.startTokenId] :: after ∧ [m.startTokenId] ∉ between ∧
      [m.startTokenId] ∉ after ∧ m.endTokenId ∉ between.flatten ∧
      textOf tokenText (first ++ between.flatten)
        = textOf tokenText (first.tail ++ between.flatten ++ [m.startTokenId]))

namespace MarkedOutput

/-- The base parser streams the parts of an output that begins with the start marker in exactly
these cases. -/
theorem base_iff {deltas : List (List TokenId)} (h : MarkedOutput m tokenText deltas.flatten)
    (hdeltas : ∀ delta ∈ deltas, delta ≠ []) (hfirst : deltas.flatten.head? = some m.startTokenId) :
    StreamsAs (BaseThinkingReasoningParser.extractReasoningStreaming m)
        (BaseThinkingReasoningParser.extractReasoning m) tokenText deltas ↔
      BaseStreamable m tokenText deltas := by
  cases deltas with
  | nil => cases hfirst
  | cons first rest =>
    obtain ⟨token, delta, rfl⟩ := List.exists_cons_of_ne_nil (hdeltas first List.mem_cons_self)
    obtain rfl : token = m.startTokenId := by simpa using hfirst
    have htokens : ((m.startTokenId :: delta) :: rest).flatten
        = [m.startTokenId] ++ (delta ++ rest.flatten) := rfl
    have hwhole := h.extractReasoning_eq [m.startTokenId] htokens (by simpa using h.ids.symm)
      (h.stripStart_cons (delta ++ rest.flatten))
    have hstream := h.base_stream (m.startTokenId :: delta) rest rfl
      List.mem_cons_self
    rw [StreamsAs, htokens, List.singleton_append, hwhole, streamFrom, concatenated_cons,
      h.base_first delta rest.flatten rfl, List.nil_append, hstream]
    have hcount : m.endTokenId ∈ m.startTokenId :: delta ↔ m.endTokenId ∈ delta := by
      rw [List.mem_cons, or_iff_right h.ids.symm]
    simp only [BaseStreamable, hcount]
    by_cases hnil : delta = []
    · -- The marker is alone in the first delta.
      subst hnil
      rw [if_pos rfl, if_neg List.not_mem_nil]
      simpa using h.parts_keptDeltas_iff rest
    have hlone : m.startTokenId :: delta ≠ [m.startTokenId] := by simpa using hnil
    by_cases hmem : m.endTokenId ∈ delta
    · -- The first delta holds all of the reasoning.
      rw [if_neg hnil, if_pos hmem, if_pos hmem,
        partsOf_append_of_mem hmem, List.append_nil, Prod.mk.injEq, List.append_right_inj,
        h.text_keptDeltas_iff]
      simp [hmem]
    · -- The first delta keeps its marker.
      rw [if_neg hnil, if_neg hmem, if_neg hmem, partsOf_append_of_notMem hmem,
        List.nil_append, h.front_keptDeltas_iff delta]
      simp [hmem, hlone]

end MarkedOutput

/-! ## The parser whose start marker may be in the prompt -/

private theorem find_of_none {text sub : Text} (h : searchFrom text sub 0 = none) :
    find text sub 0 = -1 := by
  rw [find, searchStart, if_neg (by omega), Int.toNat_zero, h]

namespace MarkedOutput

variable {tokens previous delta piece pre post rest : List TokenId}
  {deltas : List (List TokenId)} (h : MarkedOutput m tokenText tokens)

include h

/-- A delta whose text is cut as the text of tokens with the same end markers gives their parts. -/
theorem qwen_cut (pre piece post delta previous : List TokenId)
    (htokens : tokens = pre ++ piece ++ post)
    (hstrip : Qwen3ReasoningParser.stripDelta m (textOf tokenText delta) delta
      = textOf tokenText piece) (hend : m.endTokenId ∈ delta ↔ m.endTokenId ∈ piece)
    (hprevious : m.endTokenId ∈ previous → m.endTokenId ∉ piece) :
    fieldsOf (Qwen3ReasoningParser.extractReasoningStreaming m (textOf tokenText delta)
        previous delta)
      = if m.endTokenId ∈ previous then ([], textOf tokenText piece)
        else partsOf m tokenText piece := by
  unfold Qwen3ReasoningParser.extractReasoningStreaming
  simp only [hstrip, hend]
  by_cases hmem : m.endTokenId ∈ piece
  · obtain ⟨before, after, rfl, hbefore⟩ := List.eq_append_cons_of_mem hmem
    rw [if_pos hmem, find_of_searchFrom (h.search_end _ _ _ _ htokens),
      if_pos (Int.natCast_nonneg _), if_neg (fun hmem' => hprevious hmem' hmem),
      partsOf_of_split _ _ hbefore, sliceTo_natCast, ← Int.natCast_add, sliceFrom_natCast,
      textOf_append, List.take_left, textOf_cons, h.endText, ← List.drop_drop, List.drop_left,
      List.drop_left]
    split
    · next hnil =>
      rw [hnil.1, hnil.2]
      rfl
    · simp only [fieldsOf, getD_orNone]
  · rw [if_neg hmem, partsOf_of_notMem hmem]
    by_cases hnil : textOf tokenText piece = []
    · rw [if_pos hnil, hnil, ite_self]
      rfl
    · rw [if_neg hnil]
      split <;> rfl

omit h in
/-- Without a start marker in the delta its text stays. -/
theorem stripDelta_of_notMem (hmem : m.startTokenId ∉ delta) :
    Qwen3ReasoningParser.stripDelta m (textOf tokenText delta) delta = textOf tokenText delta := by
  rw [Qwen3ReasoningParser.stripDelta, if_neg hmem]

/-- A start marker at the front of a delta is cut off. -/
theorem stripDelta_cons : Qwen3ReasoningParser.stripDelta m
    (textOf tokenText (m.startTokenId :: delta)) (m.startTokenId :: delta)
      = textOf tokenText delta := by
  rw [Qwen3ReasoningParser.stripDelta, if_pos List.mem_cons_self,
    find_of_searchFrom (h.search_start delta)]
  simp only [Int.natCast_zero, le_refl, if_true, Int.zero_add]
  rw [sliceFrom_natCast, textOf_cons, h.startText, List.drop_left]

/-- Deltas without start markers, as one. -/
theorem qwen_stream (previous : List TokenId) (htokens : tokens = previous ++ deltas.flatten)
    (hstart : m.startTokenId ∉ deltas.flatten) :
    concatenated (streamFrom (Qwen3ReasoningParser.extractReasoningStreaming m) tokenText
        previous deltas)
      = if m.endTokenId ∈ previous then ([], textOf tokenText deltas.flatten)
        else partsOf m tokenText deltas.flatten := by
  induction deltas generalizing previous with
  | nil =>
    rw [streamFrom, List.flatten_nil, partsOf_of_notMem List.not_mem_nil]
    split <;> rfl
  | cons delta deltas ih =>
    rw [List.flatten_cons, List.mem_append, not_or] at hstart
    rw [List.flatten_cons, ← List.append_assoc] at htokens
    have hprevious : m.endTokenId ∈ previous → m.endTokenId ∉ delta := fun hmem hmem' =>
      h.notMem_of_append previous (delta ++ deltas.flatten)
        (by rw [htokens, List.append_assoc]) hmem (List.mem_append_left _ hmem')
    have hstep := h.qwen_cut _ _ _ _ _ htokens (stripDelta_of_notMem hstart.1) Iff.rfl hprevious
    rw [streamFrom, concatenated_cons, hstep, ih _ htokens hstart.2, List.flatten_cons]
    by_cases hmem : m.endTokenId ∈ previous
    · simp only [hmem, List.mem_append, true_or, if_true, textOf_append, List.nil_append]
    · by_cases hmem' : m.endTokenId ∈ delta
      · simp only [hmem, hmem', List.mem_append, or_true, if_true, if_false]
        rw [partsOf_append_of_mem hmem', List.append_nil]
      · simp only [hmem, hmem', List.mem_append, or_false, if_false]
        rw [partsOf_append_of_notMem hmem', partsOf_of_notMem hmem', List.nil_append]

/-- A delta with both markers is as long as both. -/
theorem length_markers (hstart : m.startTokenId ∈ delta) (hend : m.endTokenId ∈ delta) :
    m.startToken.length + m.endToken.length ≤ (textOf tokenText delta).length := by
  obtain ⟨before, after, rfl, -⟩ := List.eq_append_cons_of_mem hstart
  rw [List.mem_append, List.mem_cons, or_iff_right h.ids.symm] at hend
  rw [textOf_append, textOf_cons, h.startText, List.length_append, List.length_append]
  rcases hend with hmem | hmem
  all_goals
    obtain ⟨front, back, rfl, -⟩ := List.eq_append_cons_of_mem hmem
    rw [textOf_append, textOf_cons, h.endText, List.length_append, List.length_append]
    omega

/-- A delta with a start marker gives less than its text without the markers. -/
theorem length_qwen_step (previous : List TokenId) (hstart : m.startTokenId ∈ delta) :
    (fieldsOf (Qwen3ReasoningParser.extractReasoningStreaming m (textOf tokenText delta)
        previous delta)).1.length
      + (fieldsOf (Qwen3ReasoningParser.extractReasoningStreaming m (textOf tokenText delta)
        previous delta)).2.length + m.startToken.length
      + (if m.endTokenId ∈ delta then m.endToken.length else 0)
      ≤ (textOf tokenText delta).length := by
  obtain ⟨i, hi⟩ : ∃ i, searchFrom (textOf tokenText delta) m.startToken 0 = some i := by
    refine Option.ne_none_iff_exists'.mp fun hnone => ?_
    obtain ⟨before, after, rfl, -⟩ := List.eq_append_cons_of_mem hstart
    refine (searchFrom_eq_none_iff h.startToken).mp hnone (textOf tokenText before).length
      (Nat.zero_le _) ?_
    rw [← h.startText]
    exact occurs_of_token _ _ _
  have hbound := ((searchFrom_eq_some_iff h.startToken).mp hi).2.1.end_le h.startToken
  have hstrip : Qwen3ReasoningParser.stripDelta m (textOf tokenText delta) delta
      = (textOf tokenText delta).drop (i + m.startToken.length) := by
    rw [Qwen3ReasoningParser.stripDelta, if_pos hstart, find_of_searchFrom hi]
    simp only [Int.natCast_nonneg, if_true]
    rw [← Int.natCast_add, sliceFrom_natCast]
  unfold Qwen3ReasoningParser.extractReasoningStreaming
  simp only [hstrip]
  obtain ⟨stripped, hstripped⟩ : ∃ stripped,
    stripped = (textOf tokenText delta).drop (i + m.startToken.length) := ⟨_, rfl⟩
  have hlength : stripped.length + i + m.startToken.length = (textOf tokenText delta).length := by
    rw [hstripped, List.length_drop]
    omega
  rw [← hstripped]
  by_cases hend : m.endTokenId ∈ delta
  · rw [if_pos hend, if_pos hend]
    cases hsearch : searchFrom stripped m.endToken 0 with
    | none =>
      have := h.length_markers hstart hend
      rw [find_of_none hsearch, if_neg (by omega)]
      simpa [fieldsOf] using this
    | some j =>
      have hj := ((searchFrom_eq_some_iff h.endToken).mp hsearch).2.1.end_le h.endToken
      rw [find_of_searchFrom hsearch, if_pos (Int.natCast_nonneg _), sliceTo_natCast,
        ← Int.natCast_add, sliceFrom_natCast]
      have hsum : (stripped.take j).length + (stripped.drop (j + m.endToken.length)).length
          + m.endToken.length = stripped.length := by
        rw [List.length_take, List.length_drop]
        omega
      split
      · next hnil =>
        rw [hnil.1, hnil.2] at hsum
        simp only [fieldsOf, List.length_nil] at hsum ⊢
        omega
      · simp only [fieldsOf, getD_orNone]
        omega
  · rw [if_neg hend, if_neg hend]
    split
    · simp only [fieldsOf, List.length_nil]
      omega
    · split <;>
      · simp only [fieldsOf, Option.getD_some, Option.getD_none, List.length_nil]
        omega

/-- All deltas together give at most their text without the end marker and without one start
marker for each delta that has one. -/
theorem length_qwen_stream (previous : List TokenId) (deltas : List (List TokenId))
    (htokens : tokens = previous ++ deltas.flatten) :
    (concatenated (streamFrom (Qwen3ReasoningParser.extractReasoningStreaming m) tokenText
        previous deltas)).1.length
      + (concatenated (streamFrom (Qwen3ReasoningParser.extractReasoningStreaming m) tokenText
        previous deltas)).2.length
      + deltas.countP (fun delta => decide (m.startTokenId ∈ delta)) * m.startToken.length
      + (if m.endTokenId ∈ deltas.flatten then m.endToken.length else 0)
      ≤ (textOf tokenText deltas.flatten).length := by
  induction deltas generalizing previous with
  | nil => simp [streamFrom, concatenated]
  | cons delta deltas ih =>
    rw [List.flatten_cons, ← List.append_assoc] at htokens
    have hrest := ih _ htokens
    have hends : (if m.endTokenId ∈ (delta :: deltas).flatten then m.endToken.length else 0)
        ≤ (if m.endTokenId ∈ delta then m.endToken.length else 0)
          + (if m.endTokenId ∈ deltas.flatten then m.endToken.length else 0) := by
      simp only [List.flatten_cons, List.mem_append]
      split_ifs <;> simp_all
    rw [streamFrom, concatenated_cons, List.length_append, List.length_append, List.flatten_cons,
      textOf_append, List.length_append, List.countP_cons]
    rw [List.flatten_cons] at hends
    by_cases hstart : m.startTokenId ∈ delta
    · have hstep := h.length_qwen_step previous hstart
      rw [if_pos (decide_eq_true hstart), Nat.succ_mul]
      omega
    · have hprevious : m.endTokenId ∈ previous → m.endTokenId ∉ delta := fun hmem hmem' =>
        h.notMem_of_append previous (delta ++ deltas.flatten)
          (by rw [htokens, List.append_assoc]) hmem (List.mem_append_left _ hmem')
      have hstep := h.qwen_cut _ _ _ _ _ htokens (stripDelta_of_notMem hstart) Iff.rfl hprevious
      have hparts := length_partsOf h.endText delta
      rw [if_neg (by simpa using hstart), Nat.add_zero, hstep]
      by_cases hmem : m.endTokenId ∈ previous
      · have hdelta := hprevious hmem
        simp only [hmem, hdelta, if_true, if_false, List.length_nil] at hends ⊢
        omega
      · simp only [hmem, if_false]
        omega

omit h in
/-- With thinking enabled, both parsers cut a whole text in the same way. -/
private theorem qwen_extractReasoning (modelOutput : Text) :
    Qwen3ReasoningParser.extractReasoning m true modelOutput
      = BaseThinkingReasoningParser.extractReasoning m modelOutput := by
  simp [Qwen3ReasoningParser.extractReasoning, BaseThinkingReasoningParser.extractReasoning]

omit h in
/-- The parser streams the parts of an output whose start marker comes first or not at all exactly
where no delta but the first has a start marker. -/
theorem qwen_iff (h : MarkedOutput m tokenText deltas.flatten)
    (hdeltas : ∀ delta ∈ deltas, delta ≠ [])
    (hfirst : deltas.flatten.head? = some m.startTokenId ∨ m.startTokenId ∉ deltas.flatten) :
    StreamsAs (Qwen3ReasoningParser.extractReasoningStreaming m)
        (Qwen3ReasoningParser.extractReasoning m true) tokenText deltas ↔
      ∀ delta ∈ deltas.tail, m.startTokenId ∉ delta := by
  rw [StreamsAs, qwen_extractReasoning]
  by_cases hnone : m.startTokenId ∉ deltas.flatten
  · rw [h.qwen_stream [] rfl hnone, if_neg List.not_mem_nil,
      h.extractReasoning_eq [] rfl List.not_mem_nil (h.stripStart_of_notMem hnone)]
    refine iff_of_true rfl fun delta hdelta hmem => ?_
    exact hnone (List.mem_flatten.mpr ⟨delta, List.mem_of_mem_tail hdelta, hmem⟩)
  have hhead := hfirst.resolve_right hnone
  cases deltas with
  | nil => cases hhead
  | cons first others =>
    obtain ⟨token, delta, rfl⟩ := List.exists_cons_of_ne_nil (hdeltas first List.mem_cons_self)
    obtain rfl : token = m.startTokenId := by simpa using hhead
    have htokens : ((m.startTokenId :: delta) :: others).flatten
        = [m.startTokenId] ++ (delta ++ others.flatten) := rfl
    have hwhole := h.extractReasoning_eq [m.startTokenId] htokens (by simpa using h.ids.symm)
      (h.stripStart_cons (delta ++ others.flatten))
    have hend : m.endTokenId ∈ m.startTokenId :: delta ↔ m.endTokenId ∈ delta := by
      rw [List.mem_cons, or_iff_right h.ids.symm]
    rw [List.tail_cons]
    constructor
    · -- A later delta with a start marker leaves less text than there should be.
      intro heq later hlater hmem
      have hlength := h.length_qwen_stream [] ((m.startTokenId :: delta) :: others) rfl
      have hparts := length_partsOf h.endText (delta ++ others.flatten)
      have hends : m.endTokenId ∈ ((m.startTokenId :: delta) :: others).flatten ↔
          m.endTokenId ∈ delta ++ others.flatten := by
        rw [htokens, List.mem_append, List.mem_singleton, or_iff_right h.ids.symm]
      have hcount : 0 < others.countP fun delta => decide (m.startTokenId ∈ delta) :=
        List.countP_pos_iff.mpr ⟨later, hlater, decide_eq_true hmem⟩
      have hpos := List.length_pos_iff.mpr h.startToken
      have hmul := Nat.mul_le_mul_right m.startToken.length hcount
      rw [heq, htokens, List.singleton_append, hwhole,
        List.countP_cons_of_pos (by simp), Nat.succ_mul] at hlength
      rw [htokens] at hends
      simp only [textOf_cons, h.startText, List.length_append] at hlength
      simp only [List.singleton_append] at hends
      simp only [hends] at hlength
      rw [textOf_append, List.length_append] at *
      omega
    · intro hlater
      have hothers : m.startTokenId ∉ others.flatten := by
        intro hmem
        obtain ⟨later, hother, hmem⟩ := List.mem_flatten.mp hmem
        exact hlater later hother hmem
      have hcut := h.qwen_cut [m.startTokenId] delta others.flatten (m.startTokenId :: delta) [] rfl
        h.stripDelta_cons
        hend (fun hmem => absurd hmem List.not_mem_nil)
      rw [htokens, List.singleton_append, hwhole, streamFrom, concatenated_cons, hcut,
        List.nil_append, h.qwen_stream (m.startTokenId :: delta) rfl hothers,
        if_neg List.not_mem_nil]
      simp only [hend]
      by_cases hmem : m.endTokenId ∈ delta
      · rw [if_pos hmem, partsOf_append_of_mem hmem, List.append_nil]
      · rw [if_neg hmem, partsOf_append_of_notMem hmem, partsOf_of_notMem hmem, List.nil_append]

end MarkedOutput

/-- When both parsers stream what they extract from the whole text. -/
theorem streamsAs_iff (deltas : List (List TokenId))
    (h : MarkedOutput m tokenText deltas.flatten)
    (hdeltas : ∀ delta ∈ deltas, delta ≠ []) :
    (deltas.flatten.head? = some m.startTokenId →
      (StreamsAs (BaseThinkingReasoningParser.extractReasoningStreaming m)
          (BaseThinkingReasoningParser.extractReasoning m) tokenText deltas ↔
        BaseStreamable m tokenText deltas)) ∧
    (deltas.flatten.head? = some m.startTokenId ∨ m.startTokenId ∉ deltas.flatten →
      (StreamsAs (Qwen3ReasoningParser.extractReasoningStreaming m)
          (Qwen3ReasoningParser.extractReasoning m true) tokenText deltas ↔
        ∀ delta ∈ deltas.tail, m.startTokenId ∉ delta)) :=
  ⟨h.base_iff hdeltas, h.qwen_iff hdeltas⟩

/-- Short markers, and a text for every token. -/
def shortMarkers : ThinkingTokens := ⟨['<'], ['>'], 0, 1⟩

/-- The markers and two other texts. -/
def shortText : TokenId → Text
  | 0 => ['<']
  | 1 => ['>']
  | 2 => ['a', 'b']
  | _ => ['c']

private theorem shortOutput_marked : MarkedOutput shortMarkers shortText [0, 2, 1, 3] := by
  refine ⟨by decide, by decide, by decide, rfl, rfl, by decide, fun i hi => ?_, fun i hi => ?_⟩
  · have hend : i < 5 := hi.end_le (by decide)
    have hplace : ∀ i < 5, Occurs ['<'] (textOf shortText [0, 2, 1, 3]) i → i = 0 := by decide
    obtain rfl := hplace i hend hi
    exact ⟨0, rfl, rfl⟩
  · have hend : i < 5 := hi.end_le (by decide)
    have hplace : ∀ i < 5, Occurs ['>'] (textOf shortText [0, 2, 1, 3]) i → i = 3 := by decide
    obtain rfl := hplace i hend hi
    exact ⟨2, rfl, rfl⟩

/-- Both parsers stream an output whose start marker comes alone. -/
theorem markerAlone_streamsAs :
    StreamsAs (BaseThinkingReasoningParser.extractReasoningStreaming shortMarkers)
        (BaseThinkingReasoningParser.extractReasoning shortMarkers) shortText [[0], [2, 1, 3]] ∧
      StreamsAs (Qwen3ReasoningParser.extractReasoningStreaming shortMarkers)
        (Qwen3ReasoningParser.extractReasoning shortMarkers true) shortText [[0], [2, 1, 3]] :=
  have hboth := streamsAs_iff [[0], [2, 1, 3]] shortOutput_marked (by decide)
  ⟨(hboth.1 rfl).mpr (.inl ⟨.inl rfl, by decide⟩), (hboth.2 (.inl rfl)).mpr (by decide)⟩

/-- The start marker and a token in one delta: the marker is streamed as reasoning. -/
theorem markerWithToken_not_streamsAs :
    MarkedOutput shortMarkers shortText [[0, 2], [1], [3]].flatten ∧
      ¬ StreamsAs (BaseThinkingReasoningParser.extractReasoningStreaming shortMarkers)
        (BaseThinkingReasoningParser.extractReasoning shortMarkers) shortText
        [[0, 2], [1], [3]] := by
  refine ⟨shortOutput_marked, ?_⟩
  rw [StreamsAs]
  decide

end Vllm.Frontend
