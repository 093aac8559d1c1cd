import Vllm.Sample.NgramKernel

/-!
# The n-gram proposers agree

What both proposers should return is stated in terms of occurrences: the tokens behind the
earliest repeat of the longest end of the sequence that is repeated. The search over borders
returns it, and so does the kernel for each row, where its rows are wide enough for the windows.
-/

namespace Vllm.Sample

open Borders Checked Occurrence

/-! ## Repeats -/

/-- The last `n` tokens of a sequence also occur in it earlier, at `start`. -/
structure Repeats (tokens : List Int) (n start : Nat) : Prop where
  before : start + n < tokens.length
  occurs : Occurs (tokens.drop (tokens.length - n)) tokens start

instance (tokens : List Int) (n start : Nat) : Decidable (Repeats tokens n start) :=
  decidable_of_iff
    (start + n < tokens.length ∧ Occurs (tokens.drop (tokens.length - n)) tokens start)
    ⟨fun h => ⟨h.1, h.2⟩, fun h => ⟨h.before, h.occurs⟩⟩

/-- The earliest repeat of the longest end within the bounds. -/
structure FirstRepeat (tokens : List Int) (minNgram maxNgram n start : Nat) : Prop where
  min_le : minNgram ≤ n
  le_max : n ≤ maxNgram
  repeats : Repeats tokens n start
  longest : ∀ n' ≤ maxNgram, n < n' → ∀ start', ¬ Repeats tokens n' start'
  earliest : ∀ start' < start, ¬ Repeats tokens n start'

/-- No end within the bounds is repeated. -/
def NoRepeat (tokens : List Int) (minNgram maxNgram : Nat) : Prop :=
  ∀ n start, minNgram ≤ n → n ≤ maxNgram → ¬ Repeats tokens n start

/-- What should be proposed. -/
def Proposes (tokens : List Int) (minNgram maxNgram : Nat) (count : Int) (drafts : List Int) :
    Prop :=
  (∃ n start, FirstRepeat tokens minNgram maxNgram n start ∧
    drafts = (tokens.drop (start + n)).take count.toNat) ∨
  NoRepeat tokens minNgram maxNgram ∧ drafts = []

variable {tokens drafts drafts' : List Int} {minNgram maxNgram n n' start start' : Nat}
  {count : Int}

/-- A repeat is a border of what is read from behind. -/
theorem repeats_iff : Repeats tokens n start ↔
    IsBorder tokens.reverse n (tokens.length - start) := by
  constructor
  · intro h
    exact (occurs_drop_iff h.before).mp h.occurs
  · intro h
    have hlt := h.lt
    have hbefore : start + n < tokens.length := by omega
    exact ⟨hbefore, (occurs_drop_iff hbefore).mpr h⟩

/-- There is one earliest repeat of the longest end. -/
theorem FirstRepeat.unique (h : FirstRepeat tokens minNgram maxNgram n start)
    (h' : FirstRepeat tokens minNgram maxNgram n' start') : n = n' ∧ start = start' := by
  obtain rfl : n = n' := by
    rcases Nat.lt_trichotomy n n' with hlt | heq | hlt
    · exact absurd h'.repeats (h.longest n' h'.le_max hlt start')
    · exact heq
    · exact absurd h.repeats (h'.longest n h.le_max hlt start)
  refine ⟨rfl, ?_⟩
  rcases Nat.lt_trichotomy start start' with hlt | heq | hlt
  · exact absurd h.repeats (h'.earliest start hlt)
  · exact heq
  · exact absurd h'.repeats (h.earliest start' hlt)

/-- What should be proposed is determined. -/
theorem Proposes.unique (h : Proposes tokens minNgram maxNgram count drafts)
    (h' : Proposes tokens minNgram maxNgram count drafts') : drafts = drafts' := by
  rcases h with ⟨n, start, hfirst, rfl⟩ | ⟨hnone, rfl⟩
  · rcases h' with ⟨n', start', hfirst', rfl⟩ | ⟨hnone', rfl⟩
    · obtain ⟨rfl, rfl⟩ := hfirst.unique hfirst'
      rfl
    · exact absurd hfirst.repeats (hnone' n start hfirst.min_le hfirst.le_max)
  · rcases h' with ⟨n', start', hfirst', rfl⟩ | ⟨-, rfl⟩
    · exact absurd hfirst'.repeats (hnone n' start' hfirst'.min_le hfirst'.le_max)
    · rfl

/-! ## The search -/

/-- The search finds the earliest repeat of the longest end. -/
theorem scan_found (hmin : 1 ≤ minNgram) (hmax : minNgram ≤ maxNgram)
    (hpos : 0 < tokens.length) :
    ∃ s, scan tokens.reverse maxNgram (ScanState.initial maxNgram) = .ok s ∧
      (s.longestNgram < minNgram ∧ NoRepeat tokens minNgram maxNgram ∨
        minNgram ≤ s.longestNgram ∧ s.position < tokens.length ∧
          FirstRepeat tokens minNgram maxNgram s.longestNgram
            (tokens.length - 1 - s.position)) := by
  have hpos' : 0 < tokens.reverse.length := by rwa [List.length_reverse]
  obtain ⟨s, hs, hscanned, hi⟩ :=
    (scanned_initial (show 0 < maxNgram by omega) hpos').run
  rw [List.length_reverse] at hi
  have hbest : ∀ n' start', n' ≠ 0 → n' ≤ maxNgram → Repeats tokens n' start' →
      n' < s.longestNgram ∨ n' = s.longestNgram ∧ tokens.length - start' ≤ s.position + 1 := by
    intro n' start' hne hle hrep
    exact hscanned.best _ (by omega) n' hle (repeats_iff.mp hrep) hne
  refine ⟨s, hs, ?_⟩
  by_cases hlong : s.longestNgram < minNgram
  · refine .inl ⟨hlong, fun n start hn hn' hrep => ?_⟩
    have := hbest n start (by omega) hn' hrep
    omega
  · have hle := not_lt.mp hlong
    obtain ⟨hlt, hborder⟩ := hscanned.found (by omega)
    rw [hi] at hlt
    refine .inr ⟨hle, hlt, ⟨hle, hscanned.longest_le, ?_, fun n' hn' hlt' start' hrep => ?_,
      fun start' hstart' hrep => ?_⟩⟩
    · rw [repeats_iff, show tokens.length - (tokens.length - 1 - s.position) = s.position + 1 by
        omega]
      exact hborder
    · have := hbest n' start' (by omega) hn' hrep
      omega
    · have := hbest _ start' (by omega) hscanned.longest_le hrep
      have hbefore := hrep.before
      omega

/-- The proposer ends, and proposes what it should. -/
theorem findLongestMatchedNgramAndProposeTokens_proposes (hmin : 1 ≤ minNgram)
    (hmax : minNgram ≤ maxNgram) (tokens : List Int) (maxModelLen k : Int) :
    ∃ drafts, findLongestMatchedNgramAndProposeTokens tokens minNgram maxNgram maxModelLen k =
      .ok drafts ∧
      Proposes tokens minNgram maxNgram (min k (maxModelLen - tokens.length)) drafts := by
  unfold findLongestMatchedNgramAndProposeTokens
  dsimp only
  split
  next hshort =>
    refine ⟨[], rfl, .inr ⟨fun n start hn _ hrep => ?_, rfl⟩⟩
    have := hrep.before
    omega
  next hlen =>
    obtain ⟨s, hs, hfound⟩ := scan_found hmin hmax (show 0 < tokens.length by omega)
    split
    next hk =>
      refine ⟨[], rfl, ?_⟩
      rcases hfound with ⟨-, hnone⟩ | ⟨-, -, hfirst⟩
      · exact .inr ⟨hnone, rfl⟩
      · refine .inl ⟨_, _, hfirst, ?_⟩
        rw [Int.toNat_of_nonpos hk, List.take_zero]
    next hk =>
      rcases hfound with ⟨hlong, hnone⟩ | ⟨hlong, hposition, hfirst⟩
      · refine ⟨[], bind_ok_iff.mpr ⟨s, hs, ?_⟩, .inr ⟨hnone, rfl⟩⟩
        rw [if_pos hlong]
        rfl
      · refine ⟨_, bind_ok_iff.mpr ⟨s, hs, ?_⟩, .inl ⟨_, _, hfirst, rfl⟩⟩
        rw [if_neg (not_lt.mpr hlong)]
        have hbefore := hfirst.repeats.before
        refine congrArg Except.ok ?_
        -- The cut to the end of the sequence drops nothing.
        refine List.take_eq_take_iff.mpr ?_
        rw [List.length_drop]
        omega

/-! ## The kernel -/

section

variable {width k seqLength : Nat} {tokenIds : List Int} {mask : List Bool}

/-- A list that is not empty has a maximum. -/
private theorem exists_max (values : List Int) (hne : values ≠ []) :
    ∃ v ∈ values, ∀ w ∈ values, w ≤ v := by
  induction values with
  | nil => exact absurd rfl hne
  | cons a values ih =>
    by_cases hnil : values = []
    · subst hnil
      exact ⟨a, List.mem_cons_self, fun w hw => (List.mem_singleton.mp hw).le⟩
    · obtain ⟨v, hv, hmax⟩ := ih hnil
      by_cases hav : a ≤ v
      · exact ⟨v, List.mem_cons_of_mem _ hv, List.forall_mem_cons.mpr ⟨hav, hmax⟩⟩
      · exact ⟨a, List.mem_cons_self, List.forall_mem_cons.mpr
          ⟨le_rfl, fun w hw => (hmax w hw).trans (not_le.mp hav).le⟩⟩

/-- The first index of the maximum. -/
private theorem argmax_spec {values : List Int} (hne : values ≠ []) :
    ∃ v, values[argmax values]? = some v ∧ (∀ w ∈ values, w ≤ v) ∧
      ∀ j < argmax values, ∀ w, values[j]? = some w → ¬ ∀ w' ∈ values, w' ≤ w := by
  obtain ⟨v, hv, hmax⟩ := exists_max values hne
  have hlt : argmax values < values.length :=
    List.findIdx_lt_length_of_exists ⟨v, hv, by simpa using hmax⟩
  refine ⟨values[argmax values], List.getElem?_eq_getElem hlt, ?_, fun j hj w hw hall => ?_⟩
  · have hat := List.findIdx_getElem (w := hlt)
    simp only [List.all_eq_true, decide_eq_true_eq] at hat
    exact hat
  · obtain ⟨hjlt, rfl⟩ := List.getElem?_eq_some_iff.mp hw
    have hnot := List.not_of_lt_findIdx hj
    rw [List.all_eq_true.mpr fun w' hw' => decide_eq_true (hall w' hw')] at hnot
    cases hnot

/-- The first set entry of a mask, where there is one. -/
theorem argmax_maskInt (hne : mask ≠ []) :
    (mask[argmax (maskInt mask)]? = some true ∧
      ∀ j < argmax (maskInt mask), mask[j]? = some false) ∨
    (mask[argmax (maskInt mask)]? = some false ∧ ∀ b ∈ mask, b = false) := by
  have hne' : maskInt mask ≠ [] := by simpa [maskInt] using hne
  obtain ⟨v, hv, hmax, hfirst⟩ := argmax_spec hne'
  have hle : ∀ b ∈ mask, (if b then 1 else 0 : Int) ≤ v :=
    fun b hb => hmax _ (List.mem_map_of_mem hb)
  obtain ⟨b, hb, rfl⟩ : ∃ b, mask[argmax (maskInt mask)]? = some b ∧ (if b then 1 else 0) = v := by
    simpa [maskInt] using hv
  cases b with
  | true =>
    refine .inl ⟨hb, fun j hj => ?_⟩
    have hjlt : j < mask.length := hj.trans (List.getElem?_eq_some_iff.mp hb).1
    have hj' := List.getElem?_eq_getElem hjlt
    cases hbool : mask[j] with
    | false => rw [hj', hbool]
    | true =>
      rw [hbool] at hj'
      exact absurd hmax (hfirst j hj 1 (by rw [maskInt, List.getElem?_map, hj']; rfl))
  | false =>
    refine .inr ⟨hb, fun b hb => ?_⟩
    have := hle b hb
    cases b with
    | false => rfl
    | true => exact absurd this (by decide)

/-- Gathering at indices in a row. -/
theorem gatherTokens_eq {indices : List Nat} (h : ∀ i ∈ indices, i < tokenIds.length) :
    gatherTokens tokenIds indices = .ok (indices.map fun i => tokenIds.getD i 0) := by
  unfold gatherTokens
  refine mapM_eq_ok_map fun i hi => ?_
  rw [List.getD_eq_getElem?_getD, List.getElem?_eq_getElem (h i hi)]
  rfl

/-- What is compared with the windows is the end of the sequence. -/
theorem suffix_eq (hn : n ≤ seqLength) (hlen : seqLength ≤ tokenIds.length) :
    ((List.range n).map fun j : Nat => ((seqLength : Int) - n + j).toNat).map
        (fun i => tokenIds.getD i 0) =
      (tokenIds.take seqLength).drop ((tokenIds.take seqLength).length - n) := by
  have htake : (tokenIds.take seqLength).length = seqLength := by
    rw [List.length_take]
    omega
  refine List.ext_getElem? fun j => ?_
  rw [htake, List.getElem?_drop, List.getElem?_map, List.getElem?_map]
  by_cases hj : j < n
  · rw [List.getElem?_range hj, List.getElem?_take_of_lt (by omega), Option.map_some,
      Option.map_some, show ((seqLength : Int) - n + j).toNat = seqLength - n + j by omega,
      List.getD_eq_getElem?_getD, List.getElem?_eq_getElem
        (show seqLength - n + j < tokenIds.length by omega), Option.getD_some]
  · rw [List.getElem?_eq_none (by rw [List.length_range]; omega),
      List.getElem?_eq_none (by rw [htake]; omega)]
    rfl

/-- A window that matches the end and begins early enough is a repeat. -/
theorem repeats_iff_window (hn : n ≤ seqLength) (hlen : seqLength ≤ tokenIds.length) {p : Nat} :
    Repeats (tokenIds.take seqLength) n p ↔
      (tokenIds.drop p).take n =
        (tokenIds.take seqLength).drop ((tokenIds.take seqLength).length - n) ∧
      (p : Int) ≤ seqLength - n - 1 := by
  have htake : (tokenIds.take seqLength).length = seqLength := by
    rw [List.length_take]
    omega
  have hsize : ((tokenIds.take seqLength).drop (seqLength - n)).length = n := by
    rw [List.length_drop, htake]
    omega
  have hwindow : p + n < seqLength → (Occurs ((tokenIds.take seqLength).drop (seqLength - n))
      (tokenIds.take seqLength) p ↔
        (tokenIds.drop p).take n = (tokenIds.take seqLength).drop (seqLength - n)) := by
    intro hp
    have hslice : ((tokenIds.take seqLength).drop p).take n = (tokenIds.drop p).take n := by
      rw [List.drop_take, List.take_take, Nat.min_eq_left (show n ≤ seqLength - p by omega)]
    unfold Occurs
    rw [List.prefix_iff_eq_take, hsize, hslice]
    exact eq_comm
  rw [htake]
  constructor
  · rintro ⟨hbefore, hocc⟩
    rw [htake] at hbefore hocc
    exact ⟨(hwindow hbefore).mp hocc, by omega⟩
  · rintro ⟨hmatch, hp⟩
    have hbefore : p + n < seqLength := by omega
    refine ⟨by rwa [htake], ?_⟩
    rw [htake]
    exact (hwindow hbefore).mpr hmatch

/-- The position of the earliest repeat of an end, or `-1`. -/
def EarliestOrNone (tokens : List Int) (n : Nat) (position : Int) : Prop :=
  (position = -1 ∧ ∀ start, ¬ Repeats tokens n start) ∨
  ∃ start : Nat, position = start ∧ Repeats tokens n start ∧
    ∀ start' < start, ¬ Repeats tokens n start'

/-- One length of the n-gram. -/
theorem firstMatchPosition_spec (hwidth : n ≤ tokenIds.length)
    (hlen : seqLength ≤ tokenIds.length) :
    ∃ position, firstMatchPosition tokenIds seqLength n = .ok position ∧
      EarliestOrNone (tokenIds.take seqLength) n position := by
  have hindices : ∀ i ∈ (List.range n).map fun j : Nat => ((seqLength : Int) - n + j).toNat,
      i < tokenIds.length := by
    intro i hi
    obtain ⟨j, hj, rfl⟩ := List.mem_map.mp hi
    have := List.mem_range.mp hj
    omega
  have hgather := gatherTokens_eq hindices
  obtain ⟨suffix, hsuffix⟩ : ∃ suffix, ((List.range n).map fun j : Nat =>
      ((seqLength : Int) - n + j).toNat).map (fun i => tokenIds.getD i 0) = suffix := ⟨_, rfl⟩
  rw [hsuffix] at hgather
  obtain ⟨mask, hmask⟩ : ∃ mask, finalMatches tokenIds suffix seqLength n = mask := ⟨_, rfl⟩
  -- An entry of the mask says whether there is a repeat.
  have hentry : ∀ p, p < tokenIds.length - n + 1 → mask[p]? =
      some (decide (Repeats (tokenIds.take seqLength) n p)) := by
    intro p hp
    rw [← hmask, finalMatches, List.getElem?_map, List.getElem?_zipIdx, unfoldWindows,
      List.getElem?_map,
      List.getElem?_range hp]
    simp only [Option.map_some, Nat.zero_add, Option.some.injEq, decide_eq_decide]
    by_cases hn : n ≤ seqLength
    · rw [repeats_iff_window hn hlen, ← suffix_eq hn hlen, hsuffix]
    · refine iff_of_false (fun h => by omega) fun h => ?_
      have hbefore := h.before
      rw [List.length_take] at hbefore
      omega
  have hlength : mask.length = tokenIds.length - n + 1 := by
    rw [← hmask, finalMatches, List.length_map, List.length_zipIdx, unfoldWindows, List.length_map,
      List.length_range]
  have hrange : ∀ p, Repeats (tokenIds.take seqLength) n p → p < tokenIds.length - n + 1 := by
    intro p h
    have hbefore := h.before
    rw [List.length_take] at hbefore
    omega
  have hne : mask ≠ [] := List.ne_nil_of_length_pos (by omega)
  rcases argmax_maskInt hne with ⟨hset, hfirst⟩ | ⟨hset, hall⟩
  · refine ⟨(argmax (maskInt mask) : Int), bind_ok_iff.mpr ⟨suffix, hgather, ?_⟩,
      .inr ⟨_, rfl, ?_, fun start' hstart' h => ?_⟩⟩
    · dsimp only
      rw [hmask, hset]
      rfl
    · have hlt := (List.getElem?_eq_some_iff.mp hset).1
      rw [hentry _ (by omega)] at hset
      exact of_decide_eq_true (Option.some.inj hset)
    · have hfalse := hfirst start' hstart'
      rw [hentry start' (hrange start' h)] at hfalse
      exact of_decide_eq_false (Option.some.inj hfalse) h
  · refine ⟨-1, bind_ok_iff.mpr ⟨suffix, hgather, ?_⟩, .inl ⟨rfl, fun start h => ?_⟩⟩
    · dsimp only
      rw [hmask, hset]
      rfl
    · have hfalse := hall _ (List.mem_of_getElem? (hentry start (hrange start h)))
      exact of_decide_eq_false hfalse h

/-- The indices of the drafts are cut to the row. -/
theorem gatherDrafts_eq (hpos : 0 < tokenIds.length) (draftStart : Int) :
    gatherTokens tokenIds ((List.range k).map fun j : Nat =>
      (min (draftStart + j) (tokenIds.length - 1)).toNat) =
        .ok (((List.range k).map fun j : Nat =>
          (min (draftStart + j) (tokenIds.length - 1)).toNat).map fun i => tokenIds.getD i 0) := by
  refine gatherTokens_eq fun i hi => ?_
  obtain ⟨j, -, rfl⟩ := List.mem_map.mp hi
  omega

/-- Behind a repeat the tokens of the sequence follow. -/
theorem draftsBehind_of_repeat (hstart : start + n < seqLength)
    (hlen : seqLength ≤ tokenIds.length) :
    draftsBehind tokenIds seqLength k start n =
      .ok (((tokenIds.take seqLength).drop (start + n)).take k ++ List.replicate
        (k - (((tokenIds.take seqLength).drop (start + n)).take k).length) (-1)) := by
  have hsize : (((tokenIds.take seqLength).drop (start + n)).take k).length =
      min k (seqLength - (start + n)) := by
    rw [List.length_take, List.length_drop, List.length_take]
    omega
  have hnonneg : (0 : Int) ≤ start := Int.natCast_nonneg start
  refine bind_ok_iff.mpr ⟨_, gatherDrafts_eq (by omega) _, congrArg Except.ok ?_⟩
  refine List.ext_getElem? fun j => ?_
  rw [if_pos hnonneg, List.getElem?_map, List.getElem?_zipIdx, List.getElem?_map,
    List.getElem?_map, hsize]
  by_cases hj : j < k
  · rw [List.getElem?_range hj]
    simp only [Option.map_some, Nat.zero_add, hnonneg, true_and]
    by_cases havail : j < seqLength - (start + n)
    · rw [if_pos (by omega), List.getElem?_append_left (by rw [hsize]; omega),
        List.getElem?_take_of_lt hj, List.getElem?_drop, List.getElem?_take_of_lt (by omega),
        show (min ((start : Int) + n + j) (tokenIds.length - 1)).toNat = start + n + j by omega,
        List.getD_eq_getElem?_getD,
        List.getElem?_eq_getElem (show start + n + j < tokenIds.length by omega),
        Option.getD_some]
    · rw [if_neg (by omega), List.getElem?_append_right (by rw [hsize]; omega), hsize,
        List.getElem?_replicate_of_lt (by omega)]
  · rw [List.getElem?_eq_none (by rw [List.length_range]; omega), List.getElem?_eq_none]
    · rfl
    · rw [List.length_append, List.length_replicate, hsize]
      omega

/-- Without a repeat there are no drafts. -/
theorem draftsBehind_of_none (hpos : 0 < tokenIds.length) {position : Int}
    (hneg : ¬ 0 ≤ position) :
    draftsBehind tokenIds seqLength k position n = .ok (List.replicate k (-1)) := by
  refine bind_ok_iff.mpr ⟨_, gatherDrafts_eq hpos _, congrArg Except.ok ?_⟩
  refine List.eq_replicate_iff.mpr ⟨?_, fun b hb => ?_⟩
  · rw [List.length_map, List.length_zipIdx, List.length_map, List.length_map, List.length_range]
  · obtain ⟨e, -, rfl⟩ := List.mem_map.mp hb
    exact if_neg fun h => hneg h.1

/-- The longest length that has a match is chosen, if one has. -/
theorem extractDrafts_eq (hmin : 1 ≤ minNgram) (hmax : minNgram ≤ maxNgram)
    (hwidth : maxNgram ≤ tokenIds.length) (hlen : seqLength ≤ tokenIds.length) (k : Nat) :
    ∃ n position, minNgram ≤ n ∧ n ≤ maxNgram ∧
      extractDrafts tokenIds seqLength minNgram maxNgram k =
        draftsBehind tokenIds seqLength k position n ∧
      ((∃ start : Nat, position = start ∧
          FirstRepeat (tokenIds.take seqLength) minNgram maxNgram n start) ∨
        ¬ 0 ≤ position ∧ NoRepeat (tokenIds.take seqLength) minNgram maxNgram) := by
  obtain ⟨lengths, hlengths⟩ : ∃ lengths,
    List.range' minNgram (maxNgram + 1 - minNgram) = lengths := ⟨_, rfl⟩
  have hlength : lengths.length = maxNgram + 1 - minNgram := by
    rw [← hlengths, List.length_range']
  have hat : ∀ i < lengths.length, lengths[i]? = some (minNgram + i) := by
    intro i hi
    rw [← hlengths, List.getElem?_range' (by omega), Nat.one_mul]
  have hone : ∀ n ∈ lengths, ∃ position, firstMatchPosition tokenIds seqLength n = .ok position ∧
      EarliestOrNone (tokenIds.take seqLength) n position := by
    intro n hn
    rw [← hlengths, List.mem_range'_1] at hn
    exact firstMatchPosition_spec (by omega) hlen
  obtain ⟨g, hg, hspec⟩ := exists_mapM_eq_ok hone
  have hspec' : ∀ n, minNgram ≤ n → n ≤ maxNgram →
      EarliestOrNone (tokenIds.take seqLength) n (g n) := by
    intro n hn hn'
    have hmem := List.mem_of_getElem? (hat (n - minNgram) (by omega))
    rw [show minNgram + (n - minNgram) = n by omega] at hmem
    exact hspec n hmem
  -- The mask is read from the longest length on.
  obtain ⟨mask, hmask⟩ : ∃ mask,
    (((lengths.map g).map fun p => decide (0 ≤ p)).reverse) = mask := ⟨_, rfl⟩
  have hmaskLen : mask.length = lengths.length := by
    rw [← hmask, List.length_reverse, List.length_map, List.length_map]
  have hentry : ∀ n, minNgram ≤ n → n ≤ maxNgram → mask[maxNgram - n]? =
      some (decide (0 ≤ g n)) := by
    intro n hn hn'
    rw [← hmask, List.getElem?_reverse (by simp only [List.length_map]; omega),
      List.getElem?_map, List.getElem?_map, List.length_map, List.length_map, hat _ (by omega),
      show minNgram + (lengths.length - 1 - (maxNgram - n)) = n by omega]
    rfl
  obtain ⟨best, hbest⟩ : ∃ best, argmax (maskInt mask) = best := ⟨_, rfl⟩
  have hcases := argmax_maskInt (show mask ≠ [] from List.ne_nil_of_length_pos (by omega))
  rw [hbest] at hcases
  have hlt : best < lengths.length := by
    rw [← hmaskLen]
    rcases hcases with ⟨h, -⟩ | ⟨h, -⟩ <;> exact (List.getElem?_eq_some_iff.mp h).1
  obtain ⟨n, hn⟩ : ∃ n, maxNgram - best = n := ⟨_, rfl⟩
  have hbestEntry := hentry n (by omega) (by omega)
  rw [show maxNgram - n = best by omega] at hbestEntry
  refine ⟨n, g n, by omega, by omega, ?_, ?_⟩
  · have hposition : (lengths.map g)[lengths.length - 1 - best]? = some (g n) := by
      rw [List.getElem?_map, hat _ (by omega),
        show minNgram + (lengths.length - 1 - best) = n by omega]
      rfl
    unfold extractDrafts
    dsimp only
    rw [hlengths, hg]
    dsimp only [bind, Except.bind]
    rw [hmask, hbest, hposition, hat _ (by omega),
      show minNgram + (lengths.length - 1 - best) = n by omega]
  · rcases hcases with ⟨hset, hfirst⟩ | ⟨hset, hall⟩
    · rw [hbestEntry] at hset
      have hnonneg : 0 ≤ g n := of_decide_eq_true (Option.some.inj hset)
      rcases hspec' n (by omega) (by omega) with ⟨hnone, -⟩ | ⟨start, hstart, hrep, hearliest⟩
      · omega
      · refine .inl ⟨start, hstart, ⟨by omega, by omega, hrep, ?_, hearliest⟩⟩
        intro n' hn' hlonger start' hrep'
        have hfalse := hfirst (maxNgram - n') (by omega)
        rw [hentry n' (by omega) hn'] at hfalse
        have hneg := of_decide_eq_false (Option.some.inj hfalse)
        rcases hspec' n' (by omega) hn' with ⟨-, hnone⟩ | ⟨start'', hstart'', -, -⟩
        · exact hnone start' hrep'
        · omega
    · rw [hbestEntry] at hset
      refine .inr ⟨of_decide_eq_false (Option.some.inj hset), fun n' start hn' hle hrep => ?_⟩
      have hneg := of_decide_eq_false (hall _ (List.mem_of_getElem? (hentry n' hn' hle)))
      rcases hspec' n' hn' hle with ⟨-, hnone⟩ | ⟨start', hstart', -, -⟩
      · exact hnone start hrep
      · omega

/-- One row of the kernel. -/
theorem extractDrafts_spec (hmin : 1 ≤ minNgram) (hmax : minNgram ≤ maxNgram)
    (hwidth : maxNgram ≤ tokenIds.length) (hlen : seqLength ≤ tokenIds.length) (k : Nat) :
    ∃ drafts, Proposes (tokenIds.take seqLength) minNgram maxNgram k drafts ∧
      drafts.length ≤ k ∧ extractDrafts tokenIds seqLength minNgram maxNgram k =
        .ok (drafts ++ List.replicate (k - drafts.length) (-1)) := by
  obtain ⟨n, position, hn, hn', heq, ⟨start, rfl, hfirst⟩ | ⟨hneg, hnone⟩⟩ :=
    extractDrafts_eq hmin hmax hwidth hlen k
  · have hbefore := hfirst.repeats.before
    rw [List.length_take] at hbefore
    refine ⟨_, .inl ⟨n, start, hfirst, rfl⟩, List.length_take_le _ _, ?_⟩
    rw [heq, draftsBehind_of_repeat (by omega) hlen, Int.toNat_natCast]
  · refine ⟨[], .inr ⟨hnone, rfl⟩, Nat.zero_le _, ?_⟩
    rw [heq, draftsBehind_of_none (by omega) hneg]
    rfl

/-- Exactly the drafts are counted as valid. -/
theorem numValidDraftTokens_eq (hnonneg : ∀ t ∈ drafts, 0 ≤ t) (m : Nat) :
    numValidDraftTokens (drafts ++ List.replicate m (-1)) = drafts.length := by
  have hvalid : (drafts ++ List.replicate m (-1)).map (fun token => decide (token ≠ -1)) =
      List.replicate drafts.length true ++ List.replicate m false := by
    rw [List.map_append, List.map_replicate]
    congr 1
    refine List.eq_replicate_iff.mpr ⟨List.length_map _, fun b hb => ?_⟩
    obtain ⟨t, ht, rfl⟩ := List.mem_map.mp hb
    have := hnonneg t ht
    exact decide_eq_true (by omega)
  have hcount : ∀ j, ((List.replicate drafts.length true ++ List.replicate m false).take
      (j + 1)).count true = min (j + 1) drafts.length := by
    intro j
    rw [List.take_append, List.count_append, List.take_replicate, List.take_replicate,
      List.count_replicate_self, List.count_replicate]
    simp
  have hpred : (fun j => decide (((List.replicate drafts.length true ++ List.replicate m false).take
      (j + 1)).count true = j + 1)) = fun j => decide (j < drafts.length) := by
    funext j
    rw [hcount]
    exact decide_eq_decide.mpr (by omega)
  unfold numValidDraftTokens
  dsimp only
  rw [hvalid, hpred, List.length_append, List.length_replicate, List.range_add,
    List.countP_append, List.countP_eq_length.mpr, List.countP_eq_zero.mpr, List.length_range,
    Nat.add_zero]
  · intro j hj
    obtain ⟨j', -, rfl⟩ := List.mem_map.mp hj
    simp
  · intro j hj
    exact decide_eq_true (List.mem_range.mp hj)

/-! ## Agreement -/

/-- A row of the kernel's results has the drafts of the proposer and counts them. Rows that are not
valid have none. -/
def RowAgrees (minN maxN k : Nat) (maxModelLen : Int) (row : PaddedRow width)
    (out : List Int × Nat) : Prop :=
  ∃ drafts, (if row.mask = true then
      findLongestMatchedNgramAndProposeTokens row.sequence minN maxN maxModelLen k = .ok drafts
    else drafts = []) ∧
    out = (drafts ++ List.replicate (k - drafts.length) (-1), drafts.length)

/-- Where the rows are as wide as the longest n-gram, the kernel agrees with the proposer. -/
theorem kernelForward_agrees {minN maxN : Nat} (hmin : 1 ≤ minN) (hmax : minN ≤ maxN)
    (hwidth : maxN ≤ width) {maxModelLen : Int} {batch : List (PaddedRow width)}
    (hbatch : ∀ row ∈ batch,
      (∀ t ∈ row.sequence, 0 ≤ t) ∧ (k : Int) ≤ maxModelLen - row.numTokens) :
    ∃ outs, kernelForward minN maxN k batch = .ok outs ∧
      List.Forall₂ (RowAgrees minN maxN k maxModelLen) batch outs := by
  have hone : ∀ row ∈ batch, ∃ out, (do
      let results ← extractDrafts row.tokenIds row.numTokens minN maxN k
      let draftTokens := if row.mask then results else List.replicate k (-1)
      pure (draftTokens, numValidDraftTokens draftTokens)) = Except.ok out ∧
        RowAgrees minN maxN k maxModelLen row out := by
    intro row hrow
    obtain ⟨hnonneg, hk⟩ := hbatch row hrow
    have hlen : row.numTokens ≤ row.tokenIds.length := by
      rw [row.length_eq]
      exact row.numTokens_le
    have hsequence : row.sequence.length = row.numTokens := by
      rw [PaddedRow.sequence, List.length_take]
      omega
    obtain ⟨drafts, hdrafts, hle, hextract⟩ := extractDrafts_spec hmin hmax
      (by rw [row.length_eq]; exact hwidth) hlen k
    obtain ⟨drafts', hfind, hdrafts'⟩ :=
      findLongestMatchedNgramAndProposeTokens_proposes hmin hmax row.sequence maxModelLen k
    rw [hsequence, Int.min_eq_left hk] at hdrafts'
    obtain rfl := hdrafts.unique hdrafts'
    refine ⟨_, bind_ok_iff.mpr ⟨_, hextract, rfl⟩, ?_⟩
    by_cases hmask : row.mask = true
    · have hmem : ∀ t ∈ drafts, 0 ≤ t := by
        intro t ht
        rcases hdrafts with ⟨n, start, -, rfl⟩ | ⟨-, rfl⟩
        · exact hnonneg t (List.mem_of_mem_drop (List.mem_of_mem_take ht))
        · cases ht
      refine ⟨drafts, by rwa [if_pos hmask], ?_⟩
      rw [if_pos hmask, numValidDraftTokens_eq hmem]
    · refine ⟨[], by rw [if_neg hmask], ?_⟩
      have hcount : numValidDraftTokens ([] ++ List.replicate k (-1)) = 0 :=
        numValidDraftTokens_eq (List.forall_mem_nil _) k
      rw [if_neg hmask]
      exact Prod.ext rfl hcount
  obtain ⟨g, hg, hagrees⟩ := exists_mapM_eq_ok hone
  refine ⟨batch.map g, bind_ok_iff.mpr ⟨(), ?_, hg⟩, ?_⟩
  · rw [ensure_eq_ok, List.all_eq_true]
    intro n hn
    rw [List.mem_range'_1] at hn
    exact decide_eq_true (by omega)
  · rw [List.forall₂_map_right_iff, List.forall₂_same]
    exact hagrees

/-- The proposer is correct, and the kernel agrees with it on a batch exactly where its rows are as
wide as the longest n-gram. -/
theorem proposers_agree_iff {minN maxN : Nat} (hmin : 1 ≤ minN) (hmax : minN ≤ maxN)
    {maxModelLen : Int} {batch : List (PaddedRow width)}
    (hbatch : ∀ row ∈ batch,
      (∀ t ∈ row.sequence, 0 ≤ t) ∧ (k : Int) ≤ maxModelLen - row.numTokens) :
    ((∀ (tokens : List Int) (maxModelLen k : Int), ∃ drafts,
        findLongestMatchedNgramAndProposeTokens tokens minN maxN maxModelLen k = .ok drafts ∧
          Proposes tokens minN maxN (min k (maxModelLen - tokens.length)) drafts) ∧
      ∃ outs, kernelForward minN maxN k batch = .ok outs ∧
        List.Forall₂ (RowAgrees minN maxN k maxModelLen) batch outs) ↔ maxN ≤ width := by
  constructor
  · rintro ⟨-, outs, hforward, -⟩
    obtain ⟨u, hensure, -⟩ := bind_ok_iff.mp hforward
    rw [ensure_eq_ok, List.all_eq_true] at hensure
    exact of_decide_eq_true (hensure maxN (List.mem_range'_1.mpr (by omega)))
  · intro hwidth
    exact ⟨findLongestMatchedNgramAndProposeTokens_proposes hmin hmax,
      kernelForward_agrees hmin hmax hwidth hbatch⟩

/-- Five tokens, of which the last two stand at the beginning, in a row of eight. -/
def repeatedRow : PaddedRow 8 where
  tokenIds := [7, 8, 9, 7, 8, -1, -1, -1]
  numTokens := 5
  mask := true
  length_eq := rfl
  numTokens_le := by omega

theorem repeatedRow_agrees : (∀ row ∈ [repeatedRow],
      (∀ t ∈ row.sequence, 0 ≤ t) ∧ ((2 : Nat) : Int) ≤ 16 - row.numTokens) ∧
    ((∀ (tokens : List Int) (maxModelLen k : Int), ∃ drafts,
        findLongestMatchedNgramAndProposeTokens tokens 1 3 maxModelLen k = .ok drafts ∧
          Proposes tokens 1 3 (min k (maxModelLen - tokens.length)) drafts) ∧
      ∃ outs, kernelForward 1 3 2 [repeatedRow] = .ok outs ∧
        List.Forall₂ (RowAgrees 1 3 2 16) [repeatedRow] outs) := by
  have hbatch : ∀ row ∈ [repeatedRow],
      (∀ t ∈ row.sequence, 0 ≤ t) ∧ ((2 : Nat) : Int) ≤ 16 - row.numTokens := by
    intro row hrow
    obtain rfl := List.mem_singleton.mp hrow
    exact ⟨by decide, by decide⟩
  exact ⟨hbatch, (proposers_agree_iff (by omega) (by omega) hbatch).mpr (by omega)⟩

/-- Two equal tokens in a row of two. -/
def narrowRow : PaddedRow 2 where
  tokenIds := [5, 5]
  numTokens := 2
  mask := true
  length_eq := rfl
  numTokens_le := le_rfl

/-- In rows narrower than the longest n-gram the kernel fails. -/
theorem narrowRow_fails :
    ((∀ t ∈ narrowRow.sequence, 0 ≤ t) ∧ ((1 : Nat) : Int) ≤ 8 - narrowRow.numTokens) ∧
    ¬ ∃ outs, kernelForward 1 3 1 [narrowRow] = .ok outs ∧
      List.Forall₂ (RowAgrees 1 3 1 8) [narrowRow] outs := by
  refine ⟨⟨by decide, by decide⟩, ?_⟩
  rintro ⟨outs, hforward, -⟩
  cases hforward

end

end Vllm.Sample
