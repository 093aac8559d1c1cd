import Mathlib.Data.List.Induction
import Mathlib.Data.Nat.Find
import Vllm.Frontend.Detokenizer

/-!
# Stop strings and the grouping of tokens

The tokens of a request reach the detokenizer in updates of one or more. What is found in an
update is described in the text of all tokens: the first string of the stop list that ends in what
the update adds. This is the string at which the tokens would stop if they came one by one when it
ends within the first token in which some stop string does.
-/

namespace Vllm.Frontend

open Occurrence IncrementalDetokenizer

section

variable {text : Text} {lo mid hi : Nat} {stop : List Text}

/-- Two parts of a text where no string of a list ends make one. -/
theorem NoneEndsIn.trans (h : NoneEndsIn text lo mid stop) (h' : NoneEndsIn text mid hi stop) :
    NoneEndsIn text lo hi stop := by
  intro s hs i hi
  by_cases hmid : i + s.length ≤ mid
  · exact h s hs i ⟨hi.occurs, hi.lo_lt, hmid⟩
  · exact h' s hs i ⟨hi.occurs, by omega, hi.le_hi⟩

/-- Nothing ends in an empty part. -/
theorem noneEndsIn_of_le (h : hi ≤ lo) : NoneEndsIn text lo hi stop := by
  intro s _ i hi
  have := hi.lo_lt
  have := hi.le_hi
  omega

end

/-! ## The text of all tokens -/

section

variable (decodeNext : Decoder)

/-- The text of a list of tokens. -/
def decodedText (tokenIds : List TokenId) : Text :=
  (List.range tokenIds.length).flatMap fun k => decodeNext (tokenIds.take (k + 1))

/-- Where the text of the first tokens ends. -/
def textEnd (tokenIds : List TokenId) (n : Nat) : Nat :=
  (decodedText decodeNext (tokenIds.take n)).length

/-- One more token. -/
theorem decodedText_concat (tokenIds : List TokenId) (t : TokenId) :
    decodedText decodeNext (tokenIds ++ [t]) =
      decodedText decodeNext tokenIds ++ decodeNext (tokenIds ++ [t]) := by
  unfold decodedText
  rw [List.length_append, List.length_singleton, List.range_succ, List.flatMap_append]
  congr 1
  · refine List.flatMap_congr fun k hk => ?_
    rw [List.take_append_of_le_length (List.mem_range.mp hk)]
  · have htake : (tokenIds ++ [t]).take (tokenIds.length + 1) = tokenIds ++ [t] :=
      List.take_of_length_le (by simp)
    simp [htake]

/-- The text of the first tokens is the start of the text. -/
theorem decodedText_grows (xs ys : List TokenId) :
    decodedText decodeNext xs <+: decodedText decodeNext (xs ++ ys) := by
  induction ys using List.reverseRecOn with
  | nil => simp only [List.append_nil, List.prefix_rfl]
  | append_singleton ys t ih =>
    rw [← List.append_assoc, decodedText_concat]
    exact ih.trans (List.prefix_append _ _)

variable {decodeNext}

/-- The text of the first tokens, cut out of the text. -/
theorem decodedText_take (tokenIds : List TokenId) (n : Nat) :
    decodedText decodeNext (tokenIds.take n) =
      (decodedText decodeNext tokenIds).take (textEnd decodeNext tokenIds n) := by
  refine List.prefix_iff_eq_take.mp ?_
  have h := decodedText_grows decodeNext (tokenIds.take n) (tokenIds.drop n)
  rwa [List.take_append_drop] at h

/-- The text grows with the tokens. -/
theorem textEnd_mono (decodeNext : Decoder) (tokenIds : List TokenId) {a b : Nat} (h : a ≤ b) :
    textEnd decodeNext tokenIds a ≤ textEnd decodeNext tokenIds b := by
  obtain ⟨rest, hrest⟩ : tokenIds.take a <+: tokenIds.take b := List.take_prefix_take_left h
  unfold textEnd
  rw [← hrest]
  exact (decodedText_grows _ _ rest).length_le

/-- The text of the first tokens ends in the text. -/
theorem textEnd_le (decodeNext : Decoder) (tokenIds : List TokenId) (n : Nat) :
    textEnd decodeNext tokenIds n ≤ (decodedText decodeNext tokenIds).length := by
  have h := decodedText_grows decodeNext (tokenIds.take n) (tokenIds.drop n)
  rw [List.take_append_drop] at h
  exact h.length_le

/-- All tokens make the whole text. -/
theorem textEnd_length (tokenIds : List TokenId) {n : Nat} (h : tokenIds.length ≤ n) :
    textEnd decodeNext tokenIds n = (decodedText decodeNext tokenIds).length := by
  rw [textEnd, List.take_of_length_le h]

/-- Later tokens leave the text of the first ones as it is. -/
theorem textEnd_append (xs ys : List TokenId) {n : Nat} (h : n ≤ xs.length) :
    textEnd decodeNext (xs ++ ys) n = textEnd decodeNext xs n := by
  rw [textEnd, textEnd, List.take_append_of_le_length h]

end

/-! ## One update -/

section

variable {decodeNext : Decoder} {params : StopParams}

/-- The decoding loop: the tokens and their text are appended, and the check starts behind what was
there, and behind the text of the first `min_tokens` tokens. -/
private theorem foldl_decode (st : IncrementalDetokenizer) (newTokenIds : List TokenId)
    (htext : st.outputText = decodedText decodeNext st.tokenIds) :
    newTokenIds.foldl (decode decodeNext params) (st, st.outputText.length) =
      ({ st with
          tokenIds := st.tokenIds ++ newTokenIds
          outputText := decodedText decodeNext (st.tokenIds ++ newTokenIds) },
        textEnd decodeNext (st.tokenIds ++ newTokenIds)
          (max st.tokenIds.length params.minTokens)) := by
  induction newTokenIds using List.reverseRecOn with
  | nil =>
    rw [List.append_nil, textEnd_length _ (Nat.le_max_left _ _), ← htext]
    rfl
  | append_singleton xs t ih =>
    rw [List.foldl_append, ih, ← List.append_assoc, decodedText_concat]
    simp only [List.foldl_cons, List.foldl_nil, decode, List.length_append, List.length_singleton]
    congr 1
    split
    next h =>
      -- The text of this token is not searched.
      rw [textEnd_length _ (by simp; omega), decodedText_concat, List.length_append]
    next h =>
      exact (textEnd_append _ _ (by simp; omega)).symm

/-- An update of a request that goes on is the loop and the check. -/
theorem update_eq (st : IncrementalDetokenizer) {newTokenIds : List TokenId}
    (hnew : newTokenIds ≠ []) (htext : st.outputText = decodedText decodeNext st.tokenIds) :
    update decodeNext params st newTokenIds false =
      evaluateStop params
        { st with
          tokenIds := st.tokenIds ++ newTokenIds
          outputText := decodedText decodeNext (st.tokenIds ++ newTokenIds) }
        (textEnd decodeNext (st.tokenIds ++ newTokenIds)
          (max st.tokenIds.length params.minTokens)) := by
  unfold update
  rw [if_neg hnew]
  simp only [Bool.false_and, Bool.false_eq_true, if_false, List.append_nil]
  rw [foldl_decode st newTokenIds htext]

variable {tokenIds : List TokenId} {st : IncrementalDetokenizer} {newTokenIds later : List TokenId}

/-- The text behind an update is that of its tokens, in the text of all. -/
theorem take_textEnd (htokens : tokenIds = st.tokenIds ++ newTokenIds ++ later) :
    decodedText decodeNext (st.tokenIds ++ newTokenIds) =
      (decodedText decodeNext tokenIds).take
        (textEnd decodeNext tokenIds (st.tokenIds.length + newTokenIds.length)) := by
  rw [← decodedText_take, htokens, ← List.length_append, List.take_left]

/-- An update appends the text of its tokens and finds nothing, where no stop string ends in what
is searched; or it stops at the choice there. -/
theorem update_cases (hstop : ∀ s ∈ params.stop, s ≠ [])
    (htokens : tokenIds = st.tokenIds ++ newTokenIds ++ later)
    (htext : st.outputText = decodedText decodeNext st.tokenIds) :
    (∃ st', update decodeNext params st newTokenIds false = (st', none) ∧
        st'.tokenIds = st.tokenIds ++ newTokenIds ∧
        st'.outputText = decodedText decodeNext (st.tokenIds ++ newTokenIds) ∧
        NoneEndsIn (decodedText decodeNext tokenIds)
          (textEnd decodeNext tokenIds (max st.tokenIds.length params.minTokens))
          (textEnd decodeNext tokenIds (st.tokenIds.length + newTokenIds.length)) params.stop) ∨
      ∃ st' s i, update decodeNext params st newTokenIds false = (st', some s) ∧
        IsChoice (decodedText decodeNext tokenIds)
          (textEnd decodeNext tokenIds (max st.tokenIds.length params.minTokens))
          (textEnd decodeNext tokenIds (st.tokenIds.length + newTokenIds.length))
          params.stop s i ∧
        st'.outputText = (decodedText decodeNext tokenIds).take
          (stopLength params.includeStopStrInOutput s i) := by
  by_cases hnew : newTokenIds = []
  · subst hnew
    rw [List.append_nil]
    exact .inl ⟨st, rfl, rfl, htext, noneEndsIn_of_le (textEnd_mono _ _ (Nat.le_max_left _ _))⟩
  rw [update_eq st hnew htext]
  unfold evaluateStop
  split
  next hcheck =>
    have hlen := hcheck.2
    rw [List.length_append] at hlen
    have hstart : textEnd decodeNext (st.tokenIds ++ newTokenIds)
        (max st.tokenIds.length params.minTokens) =
        textEnd decodeNext tokenIds (max st.tokenIds.length params.minTokens) := by
      rw [htokens, textEnd_append _ later (by rw [List.length_append]; omega)]
    have hhi := textEnd_le decodeNext tokenIds
      (st.tokenIds.length + newTokenIds.length)
    dsimp only
    rw [hstart, take_textEnd htokens, List.length_take_of_le hhi]
    split
    next s truncateTo hfound =>
      obtain ⟨i, hchoice, htruncated⟩ := checkStopStrings_some hstop hhi hfound
      exact .inr ⟨_, s, i, rfl, hchoice, htruncated⟩
    next hfound =>
      exact .inl ⟨_, rfl, rfl, rfl, checkStopStrings_none hstop hhi hfound⟩
  next hcheck =>
    refine .inl ⟨_, rfl, rfl, rfl, ?_⟩
    by_cases hne : params.stop = []
    · rw [hne]
      intro s hs
      cases hs
    · refine noneEndsIn_of_le (textEnd_mono _ _ ?_)
      have hlen : ¬ params.minTokens < st.tokenIds.length + newTokenIds.length := by
        intro hlt
        exact hcheck ⟨hne, by rw [List.length_append]; exact hlt⟩
      omega

end

/-! ## A sequence of updates -/

section

variable (decodeNext : Decoder) (params : StopParams)

/-- Updates are processed until one reports a stop string. -/
def feed : IncrementalDetokenizer → List (List TokenId) → IncrementalDetokenizer × Option Text
  | st, [] => (st, none)
  | st, newTokenIds :: rest =>
    match update decodeNext params st newTokenIds false with
    | (st, some stopString) => (st, some stopString)
    | (st, none) => feed st rest

/-- How many tokens there are behind the update that has the `j`-th. -/
def updateEnd : List (List TokenId) → Nat → Nat
  | [], _ => 0
  | newTokenIds :: rest, j =>
    if j ≤ newTokenIds.length then newTokenIds.length
    else newTokenIds.length + updateEnd rest (j - newTokenIds.length)

variable {decodeNext params} {tokenIds : List TokenId}

/-- The updates append the text of their tokens, where no stop string ends in it; or they stop at
the choice in what one of them adds, and none ends before. -/
theorem feed_cases (decodeNext : Decoder) (hstop : ∀ s ∈ params.stop, s ≠ [])
    (updates : List (List TokenId)) (st : IncrementalDetokenizer)
    (htokens : tokenIds = st.tokenIds ++ updates.flatten)
    (htext : st.outputText = decodedText decodeNext st.tokenIds) :
    (∃ st', feed decodeNext params st updates = (st', none) ∧
        st'.outputText = decodedText decodeNext tokenIds ∧
        NoneEndsIn (decodedText decodeNext tokenIds)
          (textEnd decodeNext tokenIds (max st.tokenIds.length params.minTokens))
          (textEnd decodeNext tokenIds tokenIds.length) params.stop) ∨
      ∃ st' s i a b, feed decodeNext params st updates = (st', some s) ∧
        st.tokenIds.length ≤ a ∧
        (∀ j, a < j → j ≤ b → st.tokenIds.length + updateEnd updates (j - st.tokenIds.length) = b) ∧
        NoneEndsIn (decodedText decodeNext tokenIds)
          (textEnd decodeNext tokenIds (max st.tokenIds.length params.minTokens))
          (textEnd decodeNext tokenIds (max a params.minTokens)) params.stop ∧
        IsChoice (decodedText decodeNext tokenIds)
          (textEnd decodeNext tokenIds (max a params.minTokens))
          (textEnd decodeNext tokenIds b) params.stop s i ∧
        st'.outputText = (decodedText decodeNext tokenIds).take
          (stopLength params.includeStopStrInOutput s i) := by
  induction updates generalizing st with
  | nil =>
    rw [List.flatten_nil, List.append_nil] at htokens
    subst htokens
    exact .inl ⟨st, rfl, htext, noneEndsIn_of_le (textEnd_mono _ _ (Nat.le_max_left _ _))⟩
  | cons newTokenIds rest ih =>
    rw [List.flatten_cons, ← List.append_assoc] at htokens
    unfold feed
    rcases update_cases hstop htokens htext with
      ⟨st₁, hupdate, htokens₁, htext₁, hnone⟩ | ⟨st₁, s, i, hupdate, hchoice, htext₁⟩
    · rw [hupdate]
      have hlen₁ : st₁.tokenIds.length = st.tokenIds.length + newTokenIds.length := by
        rw [htokens₁, List.length_append]
      -- The part of the text up to where the next update searches.
      have hpart : NoneEndsIn (decodedText decodeNext tokenIds)
          (textEnd decodeNext tokenIds (max st.tokenIds.length params.minTokens))
          (textEnd decodeNext tokenIds (max st₁.tokenIds.length params.minTokens)) params.stop := by
        by_cases hmin : params.minTokens ≤ st₁.tokenIds.length
        · rw [Nat.max_eq_left hmin, hlen₁]
          exact hnone
        · exact noneEndsIn_of_le (textEnd_mono _ _ (by omega))
      rcases ih st₁ (by rw [htokens, htokens₁]) (by rw [htext₁, htokens₁]) with
        ⟨st', hfeed, htext', hrest⟩ | ⟨st', s, i, a, b, hfeed, ha, hend, hrest, hchoice, htext'⟩
      · exact .inl ⟨st', hfeed, htext', hpart.trans hrest⟩
      · refine .inr ⟨st', s, i, a, b, hfeed, by omega, fun j hj hjb => ?_, hpart.trans hrest,
          hchoice, htext'⟩
        have hj' := hend j hj hjb
        rw [updateEnd, if_neg (by omega), Nat.sub_sub, ← hlen₁]
        omega
    · rw [hupdate]
      refine .inr ⟨st₁, s, i, st.tokenIds.length, st.tokenIds.length + newTokenIds.length, rfl,
        le_rfl, fun j hj hjb => ?_, noneEndsIn_of_le le_rfl, hchoice, htext₁⟩
      rw [updateEnd, if_pos (by omega)]

/-- The first token behind the minimum in whose text a stop string ends. -/
structure FirstStop (decodeNext : Decoder) (params : StopParams) (tokenIds : List TokenId)
    (j : Nat) : Prop where
  minTokens_lt : params.minTokens < j
  ends : ∃ s ∈ params.stop, ∃ i, EndsIn (decodedText decodeNext tokenIds)
    (textEnd decodeNext tokenIds (j - 1)) (textEnd decodeNext tokenIds j) s i
  none_before : NoneEndsIn (decodedText decodeNext tokenIds)
    (textEnd decodeNext tokenIds params.minTokens) (textEnd decodeNext tokenIds (j - 1)) params.stop

/-- In the update that has the first token with the end of a stop string, the string that comes
first in the stop list of those that end from that token on ends within the token; and where stop
strings are not returned, none ends in what is before it. -/
def SafeGrouping (decodeNext : Decoder) (params : StopParams) (updates : List (List TokenId)) :
    Prop :=
  ∀ j, FirstStop decodeNext params updates.flatten j → ∀ s i,
    IsChoice (decodedText decodeNext updates.flatten)
      (textEnd decodeNext updates.flatten (j - 1))
      (textEnd decodeNext updates.flatten (updateEnd updates j)) params.stop s i →
    i + s.length ≤ textEnd decodeNext updates.flatten j ∧
      (params.includeStopStrInOutput = false →
        NoneEndsIn (decodedText decodeNext updates.flatten)
          (textEnd decodeNext updates.flatten params.minTokens) i params.stop)

/-- The updates report the stop string and leave the text that the tokens do one by one, and where
stop strings are not returned, the text has none that ends behind the first `min_tokens` tokens. -/
structure GroupingIndependent (decodeNext : Decoder) (params : StopParams)
    (updates : List (List TokenId)) : Prop where
  stopString_eq : (feed decodeNext params {} updates).2 =
    (feed decodeNext params {} (updates.flatten.map fun t => [t])).2
  outputText_eq : (feed decodeNext params {} updates).1.outputText =
    (feed decodeNext params {} (updates.flatten.map fun t => [t])).1.outputText
  excluded : params.includeStopStrInOutput = false → ∀ s ∈ params.stop, ∀ i,
    Occurs s (feed decodeNext params {} updates).1.outputText i →
      i + s.length ≤ textEnd decodeNext updates.flatten params.minTokens

/-- The token is one of those that there are. -/
theorem FirstStop.le_length {j : Nat} (h : FirstStop decodeNext params tokenIds j) :
    j ≤ tokenIds.length := by
  obtain ⟨s, -, i, hends⟩ := h.ends
  have hlo := hends.lo_lt
  have hhi := hends.le_hi
  by_contra hlt
  rw [textEnd_length _ (by omega)] at hlo hhi
  omega

/-- There is at most one such token. -/
theorem FirstStop.unique {j j' : Nat} (h : FirstStop decodeNext params tokenIds j)
    (h' : FirstStop decodeNext params tokenIds j') : j = j' := by
  have before : ∀ {j j'}, FirstStop decodeNext params tokenIds j →
      FirstStop decodeNext params tokenIds j' → j' ≤ j := by
    intro j j' h h'
    by_contra hlt
    obtain ⟨s, hs, i, hends⟩ := h.ends
    have hm := h.minTokens_lt
    have hlo := textEnd_mono decodeNext tokenIds (show params.minTokens ≤ j - 1 by omega)
    have hhi := textEnd_mono decodeNext tokenIds (show j ≤ j' - 1 by omega)
    exact h'.none_before s hs i
      ⟨hends.occurs, hlo.trans_lt hends.lo_lt, hends.le_hi.trans hhi⟩
  exact Nat.le_antisymm (before h' h) (before h h')

/-- No stop string ends behind the minimum where there is no such token. -/
theorem FirstStop.not_noneEndsIn {j : Nat} (h : FirstStop decodeNext params tokenIds j) :
    ¬ NoneEndsIn (decodedText decodeNext tokenIds) (textEnd decodeNext tokenIds params.minTokens)
      (textEnd decodeNext tokenIds tokenIds.length) params.stop := by
  intro hnone
  obtain ⟨s, hs, i, hends⟩ := h.ends
  have hm := h.minTokens_lt
  have hlo := textEnd_mono decodeNext tokenIds (show params.minTokens ≤ j - 1 by omega)
  have hhi := textEnd_mono decodeNext tokenIds h.le_length
  exact hnone s hs i ⟨hends.occurs, hlo.trans_lt hends.lo_lt, hends.le_hi.trans hhi⟩

/-- Where a stop string ends in a part of the text and none before it, there is a first token in
which one does. -/
theorem exists_firstStop {a b : Nat} {s : Text} {i : Nat}
    (hnone : NoneEndsIn (decodedText decodeNext tokenIds)
      (textEnd decodeNext tokenIds params.minTokens)
      (textEnd decodeNext tokenIds (max a params.minTokens)) params.stop)
    (hs : s ∈ params.stop)
    (hends : EndsIn (decodedText decodeNext tokenIds)
      (textEnd decodeNext tokenIds (max a params.minTokens)) (textEnd decodeNext tokenIds b) s i) :
    ∃ j, max a params.minTokens < j ∧ j ≤ b ∧ FirstStop decodeNext params tokenIds j ∧
      NoneEndsIn (decodedText decodeNext tokenIds)
        (textEnd decodeNext tokenIds (max a params.minTokens))
        (textEnd decodeNext tokenIds (j - 1)) params.stop := by
  classical
  have hex : ∃ j, ∃ s ∈ params.stop, ∃ i, EndsIn (decodedText decodeNext tokenIds)
      (textEnd decodeNext tokenIds (max a params.minTokens)) (textEnd decodeNext tokenIds j) s i :=
    ⟨b, s, hs, i, hends⟩
  obtain ⟨s', hs', i', hends'⟩ := Nat.find_spec hex
  have hleast : ∀ k < Nat.find hex, NoneEndsIn (decodedText decodeNext tokenIds)
      (textEnd decodeNext tokenIds (max a params.minTokens)) (textEnd decodeNext tokenIds k)
      params.stop := by
    intro k hk s hs i hends
    exact Nat.find_min hex hk ⟨s, hs, i, hends⟩
  have hlt : max a params.minTokens < Nat.find hex := by
    by_contra hle
    have hends := textEnd_mono decodeNext tokenIds (not_lt.mp hle)
    have hlo := hends'.lo_lt
    have hhi := hends'.le_hi
    omega
  have hbefore := hleast (Nat.find hex - 1) (by omega)
  refine ⟨Nat.find hex, hlt, Nat.find_min' hex ⟨s, hs, i, hends⟩, ⟨by omega, ⟨s', hs', i',
    hends'.occurs, ?_, hends'.le_hi⟩, hnone.trans hbefore⟩, hbefore⟩
  by_contra hle
  exact hbefore s' hs' i' ⟨hends'.occurs, hends'.lo_lt, not_lt.mp hle⟩

/-- The updates find nothing in the text of their tokens; or they stop at the choice in the update
with the first token in which a stop string ends, from that token on. -/
theorem feed_init (decodeNext : Decoder) (hstop : ∀ s ∈ params.stop, s ≠ [])
    (updates : List (List TokenId)) :
    (∃ st, feed decodeNext params {} updates = (st, none) ∧
        st.outputText = decodedText decodeNext updates.flatten ∧
        NoneEndsIn (decodedText decodeNext updates.flatten)
          (textEnd decodeNext updates.flatten params.minTokens)
          (textEnd decodeNext updates.flatten updates.flatten.length) params.stop) ∨
      ∃ st s i j, feed decodeNext params {} updates = (st, some s) ∧
        FirstStop decodeNext params updates.flatten j ∧
        IsChoice (decodedText decodeNext updates.flatten)
          (textEnd decodeNext updates.flatten (j - 1))
          (textEnd decodeNext updates.flatten (updateEnd updates j)) params.stop s i ∧
        st.outputText = (decodedText decodeNext updates.flatten).take
          (stopLength params.includeStopStrInOutput s i) := by
  have hmax : max 0 params.minTokens = params.minTokens := Nat.zero_max _
  rcases feed_cases decodeNext hstop updates {} rfl rfl with
    ⟨st, hfeed, htext, hnone⟩ | ⟨st, s, i, a, b, hfeed, -, hend, hnone, hchoice, htext⟩
  · rw [List.length_nil, hmax] at hnone
    exact .inl ⟨st, hfeed, htext, hnone⟩
  · rw [List.length_nil, hmax] at hnone
    obtain ⟨j, hj, hjb, hfirst, hbefore⟩ := exists_firstStop hnone hchoice.mem hchoice.ends
    have hb := hend j (by omega) hjb
    rw [List.length_nil, Nat.zero_add, Nat.sub_zero] at hb
    have hlo := textEnd_mono decodeNext updates.flatten
      (show max a params.minTokens ≤ j - 1 by omega)
    refine .inr ⟨st, s, i, j, hfeed, hfirst, ?_, htext⟩
    rw [hb]
    refine hchoice.of_endsIn ⟨hchoice.ends.occurs, ?_, hchoice.ends.le_hi⟩ fun s' _ k hk =>
      ⟨hk.occurs, hlo.trans_lt hk.lo_lt, hk.le_hi⟩
    by_contra hle
    exact hbefore s hchoice.mem i ⟨hchoice.ends.occurs, hchoice.ends.lo_lt, not_lt.mp hle⟩

/-! ## One token at a time -/

/-- One by one, an update ends with its token. -/
theorem updateEnd_singles (tokenIds : List TokenId) {j : Nat} (hpos : 0 < j)
    (hj : j ≤ tokenIds.length) : updateEnd (tokenIds.map fun t => [t]) j = j := by
  induction tokenIds generalizing j with
  | nil => simp at hj; omega
  | cons t rest ih =>
    rw [List.map_cons, updateEnd, List.length_singleton]
    split
    next h => omega
    next h =>
      rw [ih (by omega) (by rw [List.length_cons] at hj; omega)]
      omega

/-- The update with a token does not end before it. -/
theorem le_updateEnd (updates : List (List TokenId)) {j : Nat} (hj : j ≤ updates.flatten.length) :
    j ≤ updateEnd updates j := by
  induction updates generalizing j with
  | nil => simpa [updateEnd] using hj
  | cons newTokenIds rest ih =>
    rw [List.flatten_cons, List.length_append] at hj
    rw [updateEnd]
    split
    next h => exact h
    next h =>
      have := ih (j := j - newTokenIds.length) (by omega)
      omega

/-- The tokens one by one. -/
private theorem flatten_singles (tokenIds : List TokenId) :
    (tokenIds.map fun t => [t]).flatten = tokenIds := by
  rw [← List.flatMap_def, List.flatMap_singleton']

/-- One by one, the tokens stop at the choice in the first token in which a stop string ends. -/
theorem feed_singles (decodeNext : Decoder) (hstop : ∀ s ∈ params.stop, s ≠ [])
    (tokenIds : List TokenId) :
    (∃ st, feed decodeNext params {} (tokenIds.map fun t => [t]) = (st, none) ∧
        st.outputText = decodedText decodeNext tokenIds ∧
        NoneEndsIn (decodedText decodeNext tokenIds)
          (textEnd decodeNext tokenIds params.minTokens)
          (textEnd decodeNext tokenIds tokenIds.length) params.stop) ∨
      ∃ st s i j, feed decodeNext params {} (tokenIds.map fun t => [t]) = (st, some s) ∧
        FirstStop decodeNext params tokenIds j ∧
        IsChoice (decodedText decodeNext tokenIds) (textEnd decodeNext tokenIds (j - 1))
          (textEnd decodeNext tokenIds j) params.stop s i ∧
        st.outputText = (decodedText decodeNext tokenIds).take
          (stopLength params.includeStopStrInOutput s i) := by
  have h := feed_init decodeNext hstop (tokenIds.map fun t => [t])
  rw [flatten_singles] at h
  rcases h with h | ⟨st, s, i, j, hfeed, hfirst, hchoice, htext⟩
  · exact .inl h
  · have hm := hfirst.minTokens_lt
    rw [updateEnd_singles tokenIds (by omega) hfirst.le_length] at hchoice
    exact .inr ⟨st, s, i, j, hfeed, hfirst, hchoice, htext⟩

/-! ## Independence of the grouping -/

/-- A choice that ends in the first token is the choice there. -/
theorem IsChoice.in_token {updates : List (List TokenId)} {j : Nat} {s : Text} {i : Nat}
    (hfirst : FirstStop decodeNext params updates.flatten j)
    (h : IsChoice (decodedText decodeNext updates.flatten)
      (textEnd decodeNext updates.flatten (j - 1))
      (textEnd decodeNext updates.flatten (updateEnd updates j)) params.stop s i)
    (hends : i + s.length ≤ textEnd decodeNext updates.flatten j) :
    IsChoice (decodedText decodeNext updates.flatten)
      (textEnd decodeNext updates.flatten (j - 1))
      (textEnd decodeNext updates.flatten j) params.stop s i := by
  have hj := textEnd_mono decodeNext updates.flatten
    (le_updateEnd updates hfirst.le_length)
  exact h.of_endsIn ⟨h.ends.occurs, h.ends.lo_lt, hends⟩ fun _ _ k hk =>
    ⟨hk.occurs, hk.lo_lt, hk.le_hi.trans hj⟩

/-- Where the text is cut at the start of a stop string, the stop strings in what is left are those
that end before it. -/
theorem occurs_take_excluded (hstop : ∀ s ∈ params.stop, s ≠ []) (lo i : Nat) (text : Text) :
    (∀ s ∈ params.stop, ∀ k, Occurs s (text.take i) k → k + s.length ≤ lo) ↔
      NoneEndsIn text lo i params.stop := by
  constructor
  · intro h s hs k hk
    have := h s hs k ((occurs_take_iff (hstop s hs)).mpr ⟨hk.occurs, hk.le_hi⟩)
    have := hk.lo_lt
    omega
  · intro h s hs k hocc
    obtain ⟨hocc, hend⟩ := (occurs_take_iff (hstop s hs)).mp hocc
    by_contra hlt
    exact h s hs k ⟨hocc, not_le.mp hlt, hend⟩

/-- What the detokenizer reports and returns does not depend on how the tokens are grouped, and has
no stop string that is to be excluded, if and only if the grouping is safe. -/
theorem groupingIndependent_iff (hstop : ∀ s ∈ params.stop, s ≠ [])
    (updates : List (List TokenId)) :
    GroupingIndependent decodeNext params updates ↔ SafeGrouping decodeNext params updates := by
  rcases feed_singles decodeNext hstop updates.flatten with
    ⟨st₁, hfeed₁, htext₁, hnone₁⟩ | ⟨st₁, s₁, i₁, j, hfeed₁, hfirst, hchoice₁, htext₁⟩
  · -- No stop string ends in the text behind the minimum.
    have hsafe : SafeGrouping decodeNext params updates := fun j hfirst =>
      absurd hnone₁ hfirst.not_noneEndsIn
    rcases feed_init decodeNext hstop updates with
      ⟨st, hfeed, htext, hnone⟩ | ⟨st, s, i, j, -, hfirst, -⟩
    · refine ⟨fun _ => hsafe, fun _ => ⟨by rw [hfeed, hfeed₁], ?_, fun _ => ?_⟩⟩
      · rw [hfeed, hfeed₁, htext, htext₁]
      · rw [hfeed, htext, ← List.take_length (l := decodedText decodeNext updates.flatten)]
        rw [textEnd_length _ le_rfl] at hnone
        exact (occurs_take_excluded hstop _ _ _).mpr hnone
    · exact absurd hnone₁ hfirst.not_noneEndsIn
  · rcases feed_init decodeNext hstop updates with
      ⟨st, hfeed, htext, hnone⟩ | ⟨st, s, i, j', hfeed, hfirst', hchoice, htext⟩
    · exact absurd hnone hfirst.not_noneEndsIn
    obtain rfl : j' = j := hfirst'.unique hfirst
    constructor
    · intro h j hj s' i' hchoice'
      obtain rfl := hj.unique hfirst
      obtain ⟨rfl, rfl⟩ := hchoice.unique hchoice'
      have hs : s' = s₁ := by
        have := h.stopString_eq
        rw [hfeed, hfeed₁] at this
        exact Option.some.inj this
      subst hs
      refine ⟨?_, fun hexcluded => ?_⟩
      · -- The string also ends in the token, not before its first end.
        have hends := hchoice₁.ends
        have hle := hchoice.least i₁ ⟨hends.occurs, hends.lo_lt, hends.le_hi.trans
          (textEnd_mono _ _ (le_updateEnd updates hfirst.le_length))⟩
        have := hends.le_hi
        omega
      · have hocc := h.excluded hexcluded
        rw [hfeed, htext, hexcluded] at hocc
        exact (occurs_take_excluded hstop _ _ _).mp hocc
    · intro h
      obtain ⟨hend, hexcluded⟩ := h j' hfirst s i hchoice
      obtain ⟨rfl, rfl⟩ := (hchoice.in_token hfirst hend).unique hchoice₁
      refine ⟨by rw [hfeed, hfeed₁], by rw [hfeed, hfeed₁, htext, htext₁], fun hex => ?_⟩
      rw [hfeed, htext, hex]
      exact (occurs_take_excluded hstop _ _ _).mpr (hexcluded hex)

/-- A decoder with a letter for each token. -/
def letters : Decoder := fun tokenIds => [Char.ofNat (97 + tokenIds.getLastD 0)]

/-- In two updates, the letters "c", "d", "a" and "b" stop at "a" when both of the last two are stop
strings. -/
theorem letters_safeGrouping :
    SafeGrouping letters ⟨[['b'], ['a']], 0, true⟩ [[2, 3, 0], [1]] :=
  (groupingIndependent_iff (by decide) _).mp ⟨by decide, by decide, fun h => by cases h⟩

/-- In one update, they stop at "b", which comes first in the list. -/
theorem letters_not_groupingIndependent :
    ¬ GroupingIndependent letters ⟨[['b'], ['a']], 0, false⟩ [[0, 1]] := by
  intro h
  exact absurd h.stopString_eq (by decide)

end

end Vllm.Frontend
