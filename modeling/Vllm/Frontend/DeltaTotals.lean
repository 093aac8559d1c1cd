import Vllm.Frontend.DeltaStream

/-!
# The deltas add up

What the consumer has got and what waits in the collector are together the tokens, the text and the
logprobs that have been sent. Tokens that are cut at the offset of the sent tokens, text that is cut
at the offset of the returned text and logprobs that are cut by the number of tokens stay in step,
but for an output without tokens, whose logprobs are all there are.
-/

namespace Vllm.Frontend

open IncrementalDetokenizer

/-! ## The detokenizer -/

section

variable {tokenizer : Option Decoder} {params : StopParams} {x : IncrementalDetokenizer}

/-- A detokenizer of a request that goes on. -/
structure Detokenizing (tokenizer : Option Decoder) (params : StopParams)
    (x : IncrementalDetokenizer) : Prop where
  noText : tokenizer = none → x.outputText = []
  holdsBack : x.HoldsBack params

/-- A detokenizer of a request that ends: no more is held back. -/
structure Detokenized (tokenizer : Option Decoder) (x : IncrementalDetokenizer) : Prop where
  noText : tokenizer = none → x.outputText = []
  offset_le : x.lastOutputTextOffset ≤ x.outputText.length

theorem Detokenizing.detokenized (h : Detokenizing tokenizer params x) :
    Detokenized tokenizer x where
  noText := h.noText
  offset_le := h.holdsBack.trans (Nat.sub_le _ _)

/-- An update appends its tokens and leaves the text that has been returned. -/
theorem detokenizer_update (hstop : ∀ s ∈ params.stop, s ≠ []) (h : Detokenizing tokenizer params x)
    (newTokenIds : List TokenId) (stopTerminated : Bool) :
    ∃ x' stopString, (incrementalDetokenizer tokenizer params).update x newTokenIds stopTerminated =
        (x', stopString) ∧
      x'.tokenIds = x.tokenIds ++ newTokenIds ∧ x'.sentText = x.sentText ∧
      Detokenized tokenizer x' ∧ (stopString = none → Detokenizing tokenizer params x') := by
  cases tokenizer with
  | none =>
    have h' : Detokenizing none params { x with tokenIds := x.tokenIds ++ newTokenIds } :=
      ⟨h.noText, h.holdsBack⟩
    exact ⟨_, none, rfl, rfl, rfl, h'.detokenized, fun _ => h'⟩
  | some decodeNext =>
    obtain ⟨htokens, -⟩ := update_keeps decodeNext hstop x newTokenIds stopTerminated
    obtain ⟨hsent, hoffset, hnone⟩ := update_sent decodeNext hstop h.holdsBack newTokenIds
      stopTerminated
    refine ⟨_, _, rfl, htokens, hsent, ⟨fun h => (by cases h), hoffset⟩, fun h' => ⟨fun h =>
      (by cases h), hnone ?_⟩⟩
    simpa using h'

/-- The next text is what has not been returned, and leaves nothing when the request ends. -/
theorem detokenizer_next (finished : Bool) (h : Detokenized tokenizer x)
    (hgoes : finished = false → Detokenizing tokenizer params x) :
    ∃ x' text, (incrementalDetokenizer tokenizer params).getNextOutputText x finished true =
        (x', text) ∧
      x'.tokenIds = x.tokenIds ∧ x'.outputText = x.outputText ∧
      x'.sentText = x.sentText ++ text.toList ∧
      (finished = false → Detokenizing tokenizer params x') ∧
      (finished = true → x'.sentText = x'.outputText) := by
  cases tokenizer with
  | none =>
    refine ⟨x, "", rfl, rfl, rfl, by simp, hgoes, fun _ => ?_⟩
    unfold sentText
    rw [h.noText rfl, List.take_nil]
  | some decodeNext =>
    have hoffset : x.lastOutputTextOffset ≤
        x.outputText.length - if finished then 0 else params.stopBufferLength := by
      cases finished with
      | true => exact h.offset_le
      | false => exact (hgoes rfl).holdsBack
    obtain ⟨hsent, htokens, htext, hlast⟩ := getNextOutputText_delta finished hoffset
    refine ⟨_, _, rfl, htokens, htext, ?_, fun hf => ⟨fun h => (by cases h), ?_⟩, fun hf => ?_⟩
    · rw [String.toList_ofList]
      exact hsent
    · subst hf
      unfold HoldsBack
      rw [hlast, htext]
      rfl
    · subst hf
      unfold sentText
      rw [hlast, htext]
      exact List.take_length

end

/-! ## The collector -/

section

variable {L β : Type}

/-- What the completions with an index have of something. -/
def ofIndex (f : LoggedCompletion L → List β) (index : Nat)
    (completions : List (LoggedCompletion L)) : List β :=
  completions.flatMap fun c => if c.index = index then f c else []

/-- What the outputs have of it, one after the other. -/
def collected (f : LoggedCompletion L → List β) (index : Nat)
    (outputs : List (LoggedRequestOutput L)) : List β :=
  outputs.flatMap fun o => ofIndex f index o.outputs

/-- Something that a completion has more of when another one is appended. -/
def Additive (f : LoggedCompletion L → List β) : Prop :=
  ∀ c next c', c.append next = .ok c' → f c' = f c ++ f next

/-- The tokens of a completion. -/
def LoggedCompletion.tokens (c : LoggedCompletion L) : List TokenId := c.tokenIds

/-- The text of a completion. -/
def LoggedCompletion.characters (c : LoggedCompletion L) : Text := c.text.toList

/-- The logprob entries of a completion. -/
def LoggedCompletion.entries (c : LoggedCompletion L) : List L := c.logprobs.getD []

/-- What `append` gives where both have logprobs or neither has. -/
theorem append_eq {c next : LoggedCompletion L} (h : c.logprobs.isSome = next.logprobs.isSome) :
    ∃ logprobs, c.append next =
        .ok ⟨c.toCompletionOutput.extend next.toCompletionOutput, logprobs⟩ ∧
      logprobs.isSome = c.logprobs.isSome := by
  unfold LoggedCompletion.append
  cases hnext : next.logprobs with
  | none => exact ⟨_, rfl, rfl⟩
  | some entries =>
    cases entries with
    | nil => exact ⟨_, rfl, rfl⟩
    | cons entry entries =>
      obtain ⟨logprobs, hc⟩ := Option.isSome_iff_exists.mp (h.trans (by rw [hnext]; rfl))
      rw [hc]
      exact ⟨_, rfl, rfl⟩

/-- What a completion is to which another one has been appended. -/
theorem append_ok {c next c' : LoggedCompletion L} (h : c.append next = .ok c') :
    c'.toCompletionOutput = c.toCompletionOutput.extend next.toCompletionOutput ∧
      c'.entries = c.entries ++ next.entries := by
  unfold LoggedCompletion.append at h
  split at h
  next hnext =>
    split at h
    next hc =>
      cases h
      exact ⟨rfl, by simp [LoggedCompletion.entries, hnext, hc]⟩
    next => cases h
  next hnext =>
    cases h
    refine ⟨rfl, ?_⟩
    -- There are no entries to append.
    have hnil : next.entries = [] := by
      unfold LoggedCompletion.entries
      cases hn : next.logprobs with
      | none => rfl
      | some entries =>
        cases entries with
        | nil => rfl
        | cons entry entries => exact absurd hn (hnext entry entries)
    rw [hnil, List.append_nil]
    rfl

theorem additive_tokens : Additive (LoggedCompletion.tokens (L := L)) := by
  intro c next c' h
  unfold LoggedCompletion.tokens
  rw [(append_ok h).1]
  rfl

theorem additive_characters : Additive (LoggedCompletion.characters (L := L)) := by
  intro c next c' h
  unfold LoggedCompletion.characters
  rw [(append_ok h).1]
  exact String.toList_append

theorem additive_entries : Additive (LoggedCompletion.entries (L := L)) :=
  fun _ _ _ h => (append_ok h).2

/-- The completions that a collector may hold: one for an index, with logprobs where they are
requested. -/
structure Mergeable (logged : Bool) (completions : List (LoggedCompletion L)) : Prop where
  nodup : (completions.map fun c => c.index).Nodup
  logged : ∀ c ∈ completions, c.logprobs.isSome = logged

/-- A completion with an index that no other has adds nothing to the others. -/
theorem ofIndex_eq_nil (f : LoggedCompletion L → List β) {index : Nat}
    {completions : List (LoggedCompletion L)} (h : index ∉ completions.map fun c => c.index) :
    ofIndex f index completions = [] := by
  refine List.flatMap_eq_nil_iff.mpr fun c hc => if_neg fun hi => ?_
  exact h (List.mem_map.mpr ⟨c, hc, hi⟩)

/-- A collector holds nothing, or completions that can be merged. -/
def Pending (logged : Bool) (collector : Option (LoggedRequestOutput L)) : Prop :=
  ∀ o, collector = some o → Mergeable logged o.outputs

/-- Merging appends what a completion has to what there is for its index. -/
theorem mergeLogged_spec {logged : Bool} {completions : List (LoggedCompletion L)}
    (h : Mergeable logged completions) {next : LoggedCompletion L}
    (hnext : next.logprobs.isSome = logged) :
    ∃ merged, mergeLogged completions next = .ok merged ∧ Mergeable logged merged ∧
      (∀ index, index ∈ merged.map (fun c => c.index) ↔
        index ∈ completions.map (fun c => c.index) ∨ index = next.index) ∧
      ∀ {β : Type} (f : LoggedCompletion L → List β), Additive f → ∀ index,
        ofIndex f index merged =
          ofIndex f index completions ++ if next.index = index then f next else [] := by
  induction completions with
  | nil =>
    refine ⟨[next], rfl, ⟨List.nodup_singleton _, by simpa using hnext⟩, by simp,
      fun f _ index => ?_⟩
    simp [ofIndex]
  | cons c rest ih =>
    have hnodup := List.nodup_cons.mp h.nodup
    have hc := h.logged c (by simp)
    unfold mergeLogged
    split
    next hindex =>
      obtain ⟨logprobs, happend, hsome⟩ := append_eq (hc.trans hnext.symm)
      rw [happend]
      refine ⟨_, rfl, ⟨h.nodup, fun c' hc' => ?_⟩, fun index => ?_, fun f hf index => ?_⟩
      · rcases List.mem_cons.mp hc' with rfl | hc'
        · exact hsome.trans hc
        · exact h.logged c' (List.mem_cons_of_mem _ hc')
      · have hsame : index ∈ (c :: rest).map (fun c => c.index) ∨ index = next.index ↔
            index ∈ (c :: rest).map (fun c => c.index) := by
          refine or_iff_left_of_imp fun h => ?_
          rw [h, ← hindex]
          simp
        rw [hsame]
        rfl
      · have happended := hf _ _ _ happend
        unfold ofIndex
        rw [List.flatMap_cons, List.flatMap_cons]
        by_cases hi : next.index = index
        · -- The completions behind it have other indexes.
          have hrest : ofIndex f index rest = [] :=
            ofIndex_eq_nil f (by rw [← hi, ← hindex]; exact hnodup.1)
          unfold ofIndex at hrest
          rw [hrest, if_pos hi, if_pos (hindex.trans hi), List.append_nil, List.append_nil]
          exact (if_pos (hindex.trans hi)).trans happended
        · rw [if_neg hi, if_neg (fun h => hi (hindex.symm.trans h)), List.append_nil]
          exact congrArg (· ++ _) (if_neg fun h => hi (hindex.symm.trans h))
    next hindex =>
      obtain ⟨merged, hmerged, hmergeable, hmem, hof⟩ :=
        ih ⟨hnodup.2, fun c' hc' => h.logged c' (List.mem_cons_of_mem _ hc')⟩
      rw [hmerged]
      refine ⟨c :: merged, rfl, ⟨?_, fun c' hc' => ?_⟩, fun index => ?_, fun f hf index => ?_⟩
      · refine List.nodup_cons.mpr ⟨fun hm => ?_, hmergeable.nodup⟩
        rcases (hmem c.index).mp hm with hm | hm
        · exact hnodup.1 hm
        · exact hindex hm
      · rcases List.mem_cons.mp hc' with rfl | hc'
        · exact hc
        · exact hmergeable.logged c' hc'
      · rw [List.map_cons, List.mem_cons, hmem, List.map_cons, List.mem_cons, or_assoc]
      · have htail := hof f hf index
        unfold ofIndex at htail ⊢
        rw [List.flatMap_cons, htail, List.flatMap_cons, List.append_assoc]

/-- An output of one completion is appended to what the collector holds. -/
theorem putOutput_spec {logged : Bool} {collector : Option (LoggedRequestOutput L)}
    (h : Pending logged collector) {output : LoggedRequestOutput L} {next : LoggedCompletion L}
    (houtput : output.outputs = [next]) (hnext : next.logprobs.isSome = logged) :
    ∃ o, putOutput collector output = .ok (some o) ∧ Pending logged (some o) ∧
      ∀ {β : Type} (f : LoggedCompletion L → List β), Additive f → ∀ index,
        collected f index [o] =
          collected f index collector.toList ++ if next.index = index then f next else [] := by
  have hone : ∀ {β : Type} (f : LoggedCompletion L → List β) (index : Nat)
      (o : LoggedRequestOutput L), collected f index [o] = ofIndex f index o.outputs :=
    fun f index o => List.flatMap_singleton _ _
  cases collector with
  | none =>
    refine ⟨output, rfl, fun o ho => ?_, fun f _ index => ?_⟩
    · obtain rfl := Option.some.inj ho
      rw [houtput]
      exact ⟨List.nodup_singleton _, by simpa using hnext⟩
    · rw [hone, houtput]
      simp [ofIndex, collected]
  | some old =>
    obtain ⟨merged, hmerged, hmergeable, -, hof⟩ := mergeLogged_spec (h old rfl) hnext
    refine ⟨{ old with outputs := merged, finished := old.finished || output.finished }, ?_,
      fun o ho => ?_, fun f hf index => ?_⟩
    · have hfold : output.outputs.foldlM mergeLogged old.outputs = .ok merged := by
        rw [houtput]
        simp only [List.foldlM, hmerged]
        rfl
      unfold putOutput LoggedRequestOutput.add
      dsimp only
      rw [hfold]
      rfl
    · obtain rfl := Option.some.inj ho
      exact hmergeable
    · rw [hone, Option.toList_some, hone]
      exact hof f hf index

end

end Vllm.Frontend
