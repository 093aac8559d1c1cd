import Vllm.Core.Request
import Vllm.Library.Occurrence

/-!
# The detokenizer

The front end decodes the new tokens of a request, appends their text, and looks for stop strings
in what is new. Where the stop strings are not to be returned, it holds back as much text as could
be the start of one.
-/

namespace Vllm.Frontend

open Occurrence

/-- A text, as the list of its characters. -/
abbrev Text := List Char

/-- `SamplingParams`, as far as the detokenizer reads them. -/
structure StopParams where
  /-- One string is a list of one. -/
  stop : List Text
  minTokens : Nat
  includeStopStrInOutput : Bool
  deriving DecidableEq, Repr

/-- The characters that are held back. -/
def StopParams.stopBufferLength (params : StopParams) : Nat :=
  if params.stop ≠ [] ∧ params.includeStopStrInOutput = false then
    (params.stop.map List.length).foldl max 0 - 1
  else 0

/-- `decode_next`: the text of the last of the output tokens. -/
abbrev Decoder := List TokenId → Text

/-- `BaseIncrementalDetokenizer`, as far as it changes. The prompt is left out of the tokens. -/
structure IncrementalDetokenizer where
  tokenIds : List TokenId := []
  outputText : Text := []
  lastOutputTextOffset : Nat := 0
  deriving DecidableEq, Repr

/-- Where `str.find` starts: a negative index counts from the end. -/
def searchStart (text : Text) (start : Int) : Nat :=
  (if start < 0 then text.length + start else start).toNat

/-- `str.find`: the first index of `sub` from `start` on, or -1. -/
def find (text sub : Text) (start : Int) : Int :=
  match searchFrom text sub (searchStart text start) with
  | some i => i
  | none => -1

/-- One turn of the loop of `check_stop_strings`. -/
def checkStopString (outputText : Text) (newCharCount : Nat) (includeInOutput : Bool)
    (stopStr : Text) : Option (Text × Int) :=
  let stopIndex := find outputText stopStr (1 - newCharCount - stopStr.length)
  if stopIndex = -1 then none
  else if includeInOutput = true then
    let stopIndex := stopIndex + stopStr.length
    if (outputText.length : Int) ≤ stopIndex then some (stopStr, -1) else some (stopStr, stopIndex)
  else some (stopStr, stopIndex)

/-- `check_stop_strings`: the stop string that is found, and the length to which the text is to be
truncated, or -1. -/
def checkStopStrings (outputText : Text) (newCharCount : Nat) (stop : List Text)
    (includeInOutput : Bool) : Option (Text × Int) :=
  if newCharCount = 0 ∨ stop = [] then none
  else stop.findSome? (checkStopString outputText newCharCount includeInOutput)

/-- `output_text` when `truncate_to` is not -1. -/
def truncated (outputText : Text) (truncateTo : Int) : Text :=
  if truncateTo = -1 then outputText else outputText.take truncateTo.toNat

namespace IncrementalDetokenizer

variable (decodeNext : Decoder) (params : StopParams)

/-- One turn of the decoding loop of `update`, with `stop_check_offset`. -/
def decode (loop : IncrementalDetokenizer × Nat) (newTokenId : TokenId) :
    IncrementalDetokenizer × Nat :=
  let tokenIds := loop.1.tokenIds ++ [newTokenId]
  let outputText := loop.1.outputText ++ decodeNext tokenIds
  ({ loop.1 with tokenIds, outputText },
    if params.minTokens ≠ 0 ∧ tokenIds.length ≤ params.minTokens then outputText.length
    else loop.2)

/-- The stop check at the end of `update`. -/
def evaluateStop (st : IncrementalDetokenizer) (stopCheckOffset : Nat) :
    IncrementalDetokenizer × Option Text :=
  if params.stop ≠ [] ∧ params.minTokens < st.tokenIds.length then
    match checkStopStrings st.outputText (st.outputText.length - stopCheckOffset) params.stop
      params.includeStopStrInOutput with
    | some (stopString, truncateTo) =>
      ({ st with outputText := truncated st.outputText truncateTo }, some stopString)
    | none => (st, none)
  else (st, none)

/-- `update`, which returns the stop string that is found. -/
def update (st : IncrementalDetokenizer) (newTokenIds : List TokenId) (stopTerminated : Bool) :
    IncrementalDetokenizer × Option Text :=
  if newTokenIds = [] then (st, none)
  else
    -- The last token of a request that the engine stopped is not decoded.
    let skips := stopTerminated && !params.includeStopStrInOutput
    let decoded := if skips then newTokenIds.dropLast else newTokenIds
    let skipped := if skips then newTokenIds.drop (newTokenIds.length - 1) else []
    let loop := decoded.foldl (decode decodeNext params) (st, st.outputText.length)
    evaluateStop params { loop.1 with tokenIds := loop.1.tokenIds ++ skipped } loop.2

/-- `get_next_output_text`. -/
def getNextOutputText (st : IncrementalDetokenizer) (finished delta : Bool) :
    IncrementalDetokenizer × Text :=
  let bufferLength := if finished then 0 else params.stopBufferLength
  let length := st.outputText.length - bufferLength
  if delta = false then (st, st.outputText.take length)
  else if st.lastOutputTextOffset < length then
    ({ st with lastOutputTextOffset := length },
      (st.outputText.take length).drop st.lastOutputTextOffset)
  else (st, [])

end IncrementalDetokenizer

/-! ## The search -/

/-- A string occurs in a text and ends behind `lo`, and at or before `hi`. -/
structure EndsIn (text : Text) (lo hi : Nat) (s : Text) (i : Nat) : Prop where
  occurs : Occurs s text i
  lo_lt : lo < i + s.length
  le_hi : i + s.length ≤ hi

/-- No string of a list ends in a part of the text. -/
def NoneEndsIn (text : Text) (lo hi : Nat) (stop : List Text) : Prop :=
  ∀ s ∈ stop, ∀ i, ¬ EndsIn text lo hi s i

/-- The first string of a list that ends in a part of the text, and where it first does. -/
structure IsChoice (text : Text) (lo hi : Nat) (stop : List Text) (s : Text) (i : Nat) : Prop where
  ends : EndsIn text lo hi s i
  least : ∀ j, EndsIn text lo hi s j → i ≤ j
  /-- None of the strings before it does. -/
  first : ∃ earlier later, stop = earlier ++ s :: later ∧ NoneEndsIn text lo hi earlier

section

variable {text : Text} {lo hi : Nat} {stop : List Text} {s : Text} {i : Nat}

/-- The string that is chosen is one of the list. -/
theorem IsChoice.mem (h : IsChoice text lo hi stop s i) : s ∈ stop := by
  obtain ⟨earlier, later, rfl, -⟩ := h.first
  simp

/-- There is one choice. -/
theorem IsChoice.unique {s' : Text} {i' : Nat} (h : IsChoice text lo hi stop s i)
    (h' : IsChoice text lo hi stop s' i') : s' = s ∧ i' = i := by
  obtain ⟨earlier, later, rfl, hearlier⟩ := h.first
  obtain ⟨earlier', later', hstop, hearlier'⟩ := h'.first
  have hs : s' = s := by
    rcases List.append_eq_append_iff.mp hstop with ⟨rest, rfl, hrest⟩ | ⟨rest, rfl, hrest⟩
    · cases rest with
      | nil => simp_all
      | cons x rest =>
        obtain ⟨rfl, -⟩ := List.cons_eq_cons.mp hrest
        exact absurd h.ends (hearlier' _ (by simp) i)
    · cases rest with
      | nil => simp_all
      | cons x rest =>
        obtain ⟨rfl, -⟩ := List.cons_eq_cons.mp hrest
        exact absurd h'.ends (hearlier _ (by simp) i')
  subst hs
  exact ⟨rfl, Nat.le_antisymm (h'.least _ h.ends) (h.least _ h'.ends)⟩

/-- A choice is one in every part of the text that has its end and no other ends besides. -/
theorem IsChoice.of_endsIn {lo' hi' : Nat} (h : IsChoice text lo hi stop s i)
    (hends : EndsIn text lo' hi' s i)
    (hsub : ∀ s' ∈ stop, ∀ j, EndsIn text lo' hi' s' j → EndsIn text lo hi s' j) :
    IsChoice text lo' hi' stop s i where
  ends := hends
  least j hj := h.least j (hsub s h.mem j hj)
  first := by
    obtain ⟨earlier, later, rfl, hearlier⟩ := h.first
    exact ⟨earlier, later, rfl, fun s' hs' j hj =>
      hearlier s' hs' j (hsub s' (by simp [hs']) j hj)⟩

/-- The part that is searched covers what is new, and as much of what was there as may be the start
of a stop string that ends in it. -/
private theorem searchStart_eq (hs : s ≠ []) (hlo : lo < hi) (hhi : hi ≤ text.length) :
    searchStart (text.take hi) (1 - ((hi - lo : Nat) : Int) - s.length) = lo + 1 - s.length := by
  have hpos := List.length_pos_iff.mpr hs
  have hlen : (text.take hi).length = hi := List.length_take_of_le hhi
  unfold searchStart
  rw [if_pos (by omega), hlen]
  omega

/-- In a prefix of the text, `find` gives the first occurrence that ends in what is new. -/
theorem find_cases (hs : s ≠ []) (hlo : lo < hi) (hhi : hi ≤ text.length) :
    (find (text.take hi) s (1 - ((hi - lo : Nat) : Int) - s.length) = -1 ∧
        ∀ i, ¬ EndsIn text lo hi s i) ∨
      ∃ i : Nat, find (text.take hi) s (1 - ((hi - lo : Nat) : Int) - s.length) = i ∧
        EndsIn text lo hi s i ∧ ∀ j, EndsIn text lo hi s j → i ≤ j := by
  have hpos := List.length_pos_iff.mpr hs
  have hends : ∀ j, lo + 1 - s.length ≤ j ∧ Occurs s (text.take hi) j ↔ EndsIn text lo hi s j := by
    intro j
    rw [occurs_take_iff hs]
    refine ⟨fun h => ⟨h.2.1, ?_, h.2.2⟩, fun h => ⟨?_, h.occurs, h.le_hi⟩⟩
    · have := h.1
      omega
    · have := h.lo_lt
      omega
  unfold find
  rw [searchStart_eq hs hlo hhi]
  cases hsearch : searchFrom (text.take hi) s (lo + 1 - s.length) with
  | none =>
    rw [searchFrom_eq_none_iff hs] at hsearch
    exact .inl ⟨rfl, fun i hi => hsearch i ((hends i).mpr hi).1 ((hends i).mpr hi).2⟩
  | some i =>
    obtain ⟨hstart, hocc, hleast⟩ := (searchFrom_eq_some_iff hs).mp hsearch
    exact .inr ⟨i, rfl, (hends i).mp ⟨hstart, hocc⟩, fun j hj =>
      hleast j ((hends j).mpr hj).1 ((hends j).mpr hj).2⟩

/-! ## The stop check -/

/-- The text that a request is left with where a stop string is found. -/
def stopLength (includeInOutput : Bool) (s : Text) (i : Nat) : Nat :=
  if includeInOutput then i + s.length else i

/-- One turn of the check finds nothing, or the first occurrence that ends in what is new. -/
theorem checkStopString_cases (hs : s ≠ []) (hlo : lo < hi) (hhi : hi ≤ text.length)
    (includeInOutput : Bool) :
    (checkStopString (text.take hi) (hi - lo) includeInOutput s = none ∧
        ∀ i, ¬ EndsIn text lo hi s i) ∨
      ∃ i truncateTo, checkStopString (text.take hi) (hi - lo) includeInOutput s =
          some (s, truncateTo) ∧
        truncated (text.take hi) truncateTo = text.take (stopLength includeInOutput s i) ∧
        EndsIn text lo hi s i ∧ ∀ j, EndsIn text lo hi s j → i ≤ j := by
  have hlen : (text.take hi).length = hi := List.length_take_of_le hhi
  unfold checkStopString
  rcases find_cases hs hlo hhi with ⟨hfind, hnone⟩ | ⟨i, hfind, hends, hleast⟩
  · exact .inl ⟨by rw [hfind]; rfl, hnone⟩
  · have hend := hends.le_hi
    have htake : ∀ n : Nat, n ≤ hi → truncated (text.take hi) n = text.take n := by
      intro n hn
      unfold truncated
      rw [if_neg (by omega), Int.toNat_natCast, List.take_take, Nat.min_eq_left hn]
    dsimp only
    rw [hfind, if_neg (by omega), hlen]
    refine .inr ⟨i, ?_⟩
    cases includeInOutput with
    | false => exact ⟨i, rfl, htake i (by omega), hends, hleast⟩
    | true =>
      rw [if_pos rfl]
      split
      next hwhole =>
        -- The stop string is the end of the text, which stays whole.
        have hi' : i + s.length = hi := by omega
        exact ⟨-1, rfl, by simp [truncated, stopLength, hi'], hends, hleast⟩
      next =>
        exact ⟨_, rfl, htake (i + s.length) hend, hends, hleast⟩

/-- What the check finds in a prefix of the text is the choice in what is new. -/
theorem checkStopStrings_some (hstop : ∀ s ∈ stop, s ≠ []) (hhi : hi ≤ text.length)
    {includeInOutput : Bool} {truncateTo : Int}
    (h : checkStopStrings (text.take hi) (hi - lo) stop includeInOutput = some (s, truncateTo)) :
    ∃ i, IsChoice text lo hi stop s i ∧
      truncated (text.take hi) truncateTo = text.take (stopLength includeInOutput s i) := by
  unfold checkStopStrings at h
  split at h
  · cases h
  next hnew =>
    have hlo : lo < hi := by omega
    obtain ⟨earlier, s', later, rfl, hs', hearlier⟩ := List.findSome?_eq_some_iff.mp h
    rcases checkStopString_cases (hstop s' (by simp)) hlo hhi includeInOutput with
      ⟨hnone, -⟩ | ⟨i, truncateTo', hsome, hlength, hends, hleast⟩
    · rw [hnone] at hs'
      cases hs'
    · obtain ⟨rfl, rfl⟩ := Prod.mk.inj (Option.some.inj (hsome.symm.trans hs'))
      refine ⟨i, ⟨hends, hleast, earlier, later, rfl, fun t ht j hj => ?_⟩, hlength⟩
      rcases checkStopString_cases (hstop t (by simp [ht])) hlo hhi includeInOutput with
        ⟨-, hnone⟩ | ⟨i', truncateTo', hsome, -⟩
      · exact hnone j hj
      · rw [hearlier t ht] at hsome
        cases hsome

/-- What the check finds in a text is the choice in what is new. -/
theorem checkStopStrings_whole (hstop : ∀ s ∈ stop, s ≠ []) {includeInOutput : Bool}
    {truncateTo : Int}
    (h : checkStopStrings text (text.length - lo) stop includeInOutput = some (s, truncateTo)) :
    ∃ i, IsChoice text lo text.length stop s i ∧
      truncated text truncateTo = text.take (stopLength includeInOutput s i) := by
  have hwhole : checkStopStrings (text.take text.length) (text.length - lo) stop includeInOutput =
      some (s, truncateTo) := by rwa [List.take_length]
  have hchoice := checkStopStrings_some hstop le_rfl hwhole
  rwa [List.take_length] at hchoice

/-- The check fails when no stop string ends in what is new. -/
theorem checkStopStrings_none (hstop : ∀ s ∈ stop, s ≠ []) (hhi : hi ≤ text.length)
    {includeInOutput : Bool}
    (h : checkStopStrings (text.take hi) (hi - lo) stop includeInOutput = none) :
    NoneEndsIn text lo hi stop := by
  intro s hs i hends
  have hlo : lo < hi := by have := hends.lo_lt; have := hends.le_hi; omega
  unfold checkStopStrings at h
  rw [if_neg (by rintro (h0 | rfl) <;> [omega; cases hs]), List.findSome?_eq_none_iff] at h
  rcases checkStopString_cases (hstop s hs) hlo hhi includeInOutput with
    ⟨-, hnone⟩ | ⟨i', truncateTo, hsome, -⟩
  · exact hnone i hends
  · rw [h s hs] at hsome
    cases hsome

end

/-! ## What has been returned -/

/-- A stop string is at most one longer than what is held back where it is to be excluded. -/
theorem StopParams.length_le_stopBufferLength (params : StopParams)
    (hexcluded : params.includeStopStrInOutput = false) {s : Text} (hs : s ∈ params.stop) :
    s.length ≤ params.stopBufferLength + 1 := by
  have hmax : ∀ (lengths : List Nat) (m : Nat), m ≤ lengths.foldl max m ∧
      ∀ n ∈ lengths, n ≤ lengths.foldl max m := by
    intro lengths
    induction lengths with
    | nil => simp
    | cons n rest ih =>
      intro m
      obtain ⟨hle, hrest⟩ := ih (max m n)
      refine ⟨(Nat.le_max_left m n).trans hle, fun k hk => ?_⟩
      rcases List.mem_cons.mp hk with rfl | hk
      · exact (Nat.le_max_right m k).trans hle
      · exact hrest k hk
  have hlen := (hmax (params.stop.map List.length) 0).2 s.length (List.mem_map_of_mem hs)
  unfold stopBufferLength
  rw [if_pos ⟨List.ne_nil_of_mem hs, hexcluded⟩]
  omega

namespace IncrementalDetokenizer

variable {decodeNext : Decoder} {params : StopParams}

/-- The text that has been returned. -/
def sentText (st : IncrementalDetokenizer) : Text := st.outputText.take st.lastOutputTextOffset

/-- What may be the start of a stop string has not been returned. -/
def HoldsBack (params : StopParams) (st : IncrementalDetokenizer) : Prop :=
  st.lastOutputTextOffset ≤ st.outputText.length - params.stopBufferLength

/-- The decoding loop appends the tokens and some text, which is all that is searched. -/
theorem foldl_decode_appends (newTokenIds : List TokenId) (st : IncrementalDetokenizer)
    (offset : Nat) {n : Nat} (htext : n ≤ st.outputText.length) (hoffset : n ≤ offset) :
    (newTokenIds.foldl (decode decodeNext params) (st, offset)).1.tokenIds =
        st.tokenIds ++ newTokenIds ∧
      (newTokenIds.foldl (decode decodeNext params) (st, offset)).1.lastOutputTextOffset =
        st.lastOutputTextOffset ∧
      st.outputText <+: (newTokenIds.foldl (decode decodeNext params) (st, offset)).1.outputText ∧
      n ≤ (newTokenIds.foldl (decode decodeNext params) (st, offset)).2 := by
  induction newTokenIds generalizing st offset with
  | nil => exact ⟨(List.append_nil _).symm, rfl, List.prefix_rfl, hoffset⟩
  | cons t rest ih =>
    rw [List.foldl_cons, decode]
    dsimp only
    have htext' : n ≤ (st.outputText ++ decodeNext (st.tokenIds ++ [t])).length := by
      rw [List.length_append]
      omega
    obtain ⟨htokens, hlast, hprefix, hn⟩ := ih
      ⟨st.tokenIds ++ [t], st.outputText ++ decodeNext (st.tokenIds ++ [t]),
        st.lastOutputTextOffset⟩
      (if params.minTokens ≠ 0 ∧ (st.tokenIds ++ [t]).length ≤ params.minTokens
        then (st.outputText ++ decodeNext (st.tokenIds ++ [t])).length else offset)
      htext' (by split <;> assumption)
    exact ⟨by rw [htokens, List.append_assoc]; rfl, hlast,
      (List.prefix_append _ _).trans hprefix, hn⟩

/-- The stop check leaves the text, or takes back at most what was held back of the text that it
does not search. -/
theorem evaluateStop_keeps (hstop : ∀ s ∈ params.stop, s ≠ []) (st : IncrementalDetokenizer)
    {text : Text} {offset : Nat} (htext : text <+: st.outputText) (hoffset : text.length ≤ offset) :
    (evaluateStop params st offset).1.tokenIds = st.tokenIds ∧
      (evaluateStop params st offset).1.lastOutputTextOffset = st.lastOutputTextOffset ∧
      text.take (text.length - params.stopBufferLength) <+:
        (evaluateStop params st offset).1.outputText ∧
      ((evaluateStop params st offset).2 = none →
        text <+: (evaluateStop params st offset).1.outputText) := by
  have hkept : text.take (text.length - params.stopBufferLength) <+: st.outputText :=
    (List.take_prefix _ _).trans htext
  unfold evaluateStop
  split
  · split
    next s truncateTo hfound =>
      refine ⟨rfl, rfl, ?_, fun h => by cases h⟩
      obtain ⟨i, hchoice, htruncated⟩ := checkStopStrings_whole hstop hfound
      rw [htruncated]
      refine List.prefix_take_iff.mpr ⟨hkept, (List.length_take_le _ _).trans ?_⟩
      have hlo := hchoice.ends.lo_lt
      unfold stopLength
      split
      · omega
      next hexcluded =>
        have hlen := params.length_le_stopBufferLength (by simpa using hexcluded) hchoice.mem
        omega
    next => exact ⟨rfl, rfl, hkept, fun _ => htext⟩
  · exact ⟨rfl, rfl, hkept, fun _ => htext⟩

/-- An update appends its tokens. It appends text, and takes back at most what was held back when
it finds a stop string. -/
theorem update_keeps (decodeNext : Decoder) (hstop : ∀ s ∈ params.stop, s ≠ [])
    (st : IncrementalDetokenizer) (newTokenIds : List TokenId) (stopTerminated : Bool) :
    (st.update decodeNext params newTokenIds stopTerminated).1.tokenIds =
        st.tokenIds ++ newTokenIds ∧
      (st.update decodeNext params newTokenIds stopTerminated).1.lastOutputTextOffset =
        st.lastOutputTextOffset ∧
      st.outputText.take (st.outputText.length - params.stopBufferLength) <+:
        (st.update decodeNext params newTokenIds stopTerminated).1.outputText ∧
      ((st.update decodeNext params newTokenIds stopTerminated).2 = none →
        st.outputText <+:
          (st.update decodeNext params newTokenIds stopTerminated).1.outputText) := by
  unfold update
  split
  next hnil =>
    rw [hnil, List.append_nil]
    exact ⟨rfl, rfl, List.take_prefix _ _, fun _ => List.prefix_rfl⟩
  next =>
    dsimp only
    generalize (stopTerminated && !params.includeStopStrInOutput) = skips
    have hall : (if skips = true then newTokenIds.dropLast else newTokenIds) ++
        (if skips = true then newTokenIds.drop (newTokenIds.length - 1) else []) = newTokenIds := by
      cases skips with
      | false => exact List.append_nil _
      | true => rw [if_pos rfl, if_pos rfl, List.dropLast_eq_take, List.take_append_drop]
    obtain ⟨htokens, hlast, hprefix, hoffset⟩ := foldl_decode_appends
      (if skips = true then newTokenIds.dropLast else newTokenIds) st st.outputText.length
      le_rfl le_rfl
    generalize List.foldl (decode decodeNext params) (st, st.outputText.length)
      (if skips = true then newTokenIds.dropLast else newTokenIds) = loop at *
    obtain ⟨htokens', hlast', hkept, hnone⟩ := evaluateStop_keeps hstop
      { loop.1 with
        tokenIds := loop.1.tokenIds ++
          (if skips = true then newTokenIds.drop (newTokenIds.length - 1) else []) }
      hprefix hoffset
    exact ⟨by rw [htokens']; dsimp only; rw [htokens, List.append_assoc, hall],
      hlast'.trans hlast, hkept, hnone⟩

/-- What has been returned stays the start of the text. -/
theorem update_sent (decodeNext : Decoder) (hstop : ∀ s ∈ params.stop, s ≠ [])
    {st : IncrementalDetokenizer} (h : st.HoldsBack params) (newTokenIds : List TokenId)
    (stopTerminated : Bool) :
    (st.update decodeNext params newTokenIds stopTerminated).1.sentText = st.sentText ∧
      (st.update decodeNext params newTokenIds stopTerminated).1.lastOutputTextOffset ≤
        (st.update decodeNext params newTokenIds stopTerminated).1.outputText.length ∧
      ((st.update decodeNext params newTokenIds stopTerminated).2 = none →
        (st.update decodeNext params newTokenIds stopTerminated).1.HoldsBack params) := by
  obtain ⟨-, hlast, hkept, hnone⟩ := update_keeps decodeNext hstop st newTokenIds
    stopTerminated
  unfold HoldsBack at h
  have hsent : st.sentText <+:
      (st.update decodeNext params newTokenIds stopTerminated).1.outputText := by
    refine List.IsPrefix.trans ?_ hkept
    exact List.take_prefix_take_left h
  have hlen : st.sentText.length = st.lastOutputTextOffset :=
    List.length_take_of_le (by omega)
  refine ⟨?_, ?_, fun h' => ?_⟩
  · rw [sentText, hlast, List.prefix_iff_eq_take.mp hsent, hlen]
  · rw [hlast, ← hlen]
    exact hsent.length_le
  · have := (hnone h').length_le
    unfold HoldsBack
    omega

/-- What is returned is what comes behind what has been, as far as it is not held back. -/
theorem getNextOutputText_delta {st : IncrementalDetokenizer} (finished : Bool)
    (h : st.lastOutputTextOffset ≤
      st.outputText.length - if finished then 0 else params.stopBufferLength) :
    (st.getNextOutputText params finished true).1.sentText =
        st.sentText ++ (st.getNextOutputText params finished true).2 ∧
      (st.getNextOutputText params finished true).1.tokenIds = st.tokenIds ∧
      (st.getNextOutputText params finished true).1.outputText = st.outputText ∧
      (st.getNextOutputText params finished true).1.lastOutputTextOffset =
        st.outputText.length - if finished then 0 else params.stopBufferLength := by
  unfold getNextOutputText
  dsimp only
  generalize (if finished = true then 0 else params.stopBufferLength) = bufferLength at h ⊢
  rw [if_neg (by decide)]
  by_cases hlt : st.lastOutputTextOffset < st.outputText.length - bufferLength
  · rw [if_pos hlt]
    refine ⟨?_, rfl, rfl, rfl⟩
    have htake : st.outputText.take st.lastOutputTextOffset =
        (st.outputText.take (st.outputText.length - bufferLength)).take
          st.lastOutputTextOffset := by
      rw [List.take_take, Nat.min_eq_left hlt.le]
    unfold sentText
    rw [htake, List.take_append_drop]
  · rw [if_neg hlt]
    exact ⟨(List.append_nil _).symm, rfl, rfl, Nat.le_antisymm h (not_lt.mp hlt)⟩

end IncrementalDetokenizer

end Vllm.Frontend
