import Vllm.Frontend.DeltaTotals

/-!
# Streamed requests

Over a run of a streamed request, the outputs that the consumer gets have the tokens, the text and
the logprobs of each completion that has ended. The logprobs are repeated where a completion is
aborted of which all tokens have been sent.
-/

namespace Vllm.Frontend

open Checked IncrementalDetokenizer

variable {L : Type}

/-- What the outputs have of a completion. -/
@[ext]
structure DeltaSum (L : Type) where
  tokenIds : List TokenId
  text : Text
  logprobs : List L

/-- What an output adds. -/
def DeltaSum.append (sum : DeltaSum L) (c : LoggedCompletion L) : DeltaSum L where
  tokenIds := sum.tokenIds ++ c.tokens
  text := sum.text ++ c.characters
  logprobs := sum.logprobs ++ c.entries

/-- What the consumer has got of a completion, and what waits for it. -/
def DeltaStream.sum (s : DeltaStream L) (index : Nat) : DeltaSum L where
  tokenIds := collected LoggedCompletion.tokens index (s.obtained ++ s.collector.toList)
  text := collected LoggedCompletion.characters index (s.obtained ++ s.collector.toList)
  logprobs := collected LoggedCompletion.entries index (s.obtained ++ s.collector.toList)

/-- The entries of `LogprobsProcessor.logprobs`. -/
def DeltaRequest.entries (r : DeltaRequest L) : List L := r.logprobs.getD []

/-! ## Requests -/

section

variable (cfg : DeltaConfig) (index : Nat) (r : DeltaRequest L) (sum : DeltaSum L)
  (x : IncrementalDetokenizer)

/-- What holds of a completion at all times: the logprobs that have been sent are those of the
tokens that have. -/
structure Logged : Prop where
  detokenizer : r.state.detokenizer = some x
  outputKind : r.state.outputKind = .delta
  index_eq : r.state.requestIndex = index
  offset_le : r.state.sentTokensOffset ≤ x.tokenIds.length
  text : sum.text = x.sentText
  logged : r.logprobs.isSome = cfg.logprobs
  length_entries : cfg.logprobs = true → r.entries.length = x.tokenIds.length
  logprobs : sum.logprobs = r.entries.take sum.tokenIds.length

/-- A completion between two events. -/
structure Running : Prop extends Logged cfg index r sum x where
  detokenizing : Detokenizing cfg.tokenizer cfg.stopParams x
  tokenIds : sum.tokenIds =
    if cfg.streamInterval ≤ 1 then x.tokenIds else x.tokenIds.take r.state.sentTokensOffset

/-- The tokens that have not been sent, of which some have just been returned by the engine. -/
def unsent (newTokenIds : List TokenId) : List TokenId :=
  if cfg.streamInterval ≤ 1 then newTokenIds else x.tokenIds.drop r.state.sentTokensOffset

/-- A completion of which an output is to be made. -/
structure Due (newTokenIds : List TokenId) (finished : Bool) : Prop
    extends Logged cfg index r sum x where
  detokenized : Detokenized cfg.tokenizer x
  detokenizing : finished = false → Detokenizing cfg.tokenizer cfg.stopParams x
  tokenIds : sum.tokenIds ++ unsent cfg r x newTokenIds = x.tokenIds

/-- A completion that has ended. -/
structure Ended (repeated : Prop) : Prop where
  detokenizer : r.state.detokenizer = some x
  tokenIds : sum.tokenIds = x.tokenIds
  text : sum.text = x.outputText
  logprobs : sum.logprobs = r.entries ↔ ¬ repeated

end

variable {cfg : DeltaConfig} {index : Nat} {r : DeltaRequest L} {sum : DeltaSum L}
  {x : IncrementalDetokenizer}

/-- Without logprobs there are no entries. -/
theorem Logged.entries_eq_nil (h : Logged cfg index r sum x) (hl : cfg.logprobs = false) :
    r.entries = [] := by
  have hnone : r.logprobs = none := by
    rw [← Option.not_isSome_iff_eq_none, h.logged, hl]
    decide
  rw [DeltaRequest.entries, hnone]
  rfl

/-- There are no more entries than tokens. -/
theorem Logged.length_entries_le (h : Logged cfg index r sum x) :
    r.entries.length ≤ x.tokenIds.length := by
  cases hl : cfg.logprobs with
  | false =>
    rw [h.entries_eq_nil hl]
    exact Nat.zero_le _
  | true => exact (h.length_entries hl).le

/-- The last entries are those of the tokens that have not been sent; where there are no such
tokens they are all entries. -/
theorem take_append_lastEntries {entries : List L} {k n : Nat} (h : entries.length = k + n) :
    entries.take k ++ DeltaRequest.lastEntries entries n =
      if n = 0 then entries ++ entries else entries := by
  unfold DeltaRequest.lastEntries
  split
  · rw [List.take_of_length_le (by omega)]
  · rw [show entries.length - n = k by omega, List.take_append_drop]

/-- The completion that is made of the tokens that have not been sent. -/
theorem newCompletionOutput_spec {tokenIds : List TokenId} {finishReason : Option FinishReason}
    (h : Logged cfg index r sum x) (hdetokenized : Detokenized cfg.tokenizer x)
    (hgoes : finishReason.isSome = false → Detokenizing cfg.tokenizer cfg.stopParams x)
    (htokens : sum.tokenIds ++ tokenIds = x.tokenIds) (stopReason : Option OutputStopReason) :
    ∃ c x', r.newCompletionOutput cfg tokenIds finishReason stopReason =
        .ok (c, { r with state := { r.state with detokenizer := some x' } }) ∧
      c.index = index ∧ c.logprobs.isSome = cfg.logprobs ∧ c.finished = finishReason.isSome ∧
      x'.tokenIds = x.tokenIds ∧ (sum.append c).tokenIds = x.tokenIds ∧
      (sum.append c).text = x'.sentText ∧
      (sum.append c).logprobs = (if tokenIds = [] then r.entries ++ r.entries else r.entries) ∧
      (finishReason.isSome = false → Detokenizing cfg.tokenizer cfg.stopParams x') ∧
      (finishReason.isSome = true → x'.sentText = x'.outputText) := by
  obtain ⟨x', text, hnext, htokens', htext', hsent, hgoes', hends⟩ :=
    detokenizer_next finishReason.isSome hdetokenized hgoes
  have hmade : r.state.newCompletionOutput cfg.processor tokenIds finishReason stopReason =
      .ok (⟨index, text, tokenIds, finishReason,
          if finishReason.isSome then stopReason else none⟩,
        { r.state with detokenizer := some x' }) := by
    unfold RequestState.newCompletionOutput
    rw [h.detokenizer]
    dsimp only
    rw [h.outputKind, h.index_eq]
    dsimp only [DeltaConfig.processor]
    rw [show decide (RequestOutputKind.delta = RequestOutputKind.delta) = true from rfl, hnext]
    rfl
  refine ⟨⟨⟨index, text, tokenIds, finishReason, if finishReason.isSome then stopReason else none⟩,
      r.logprobs.map fun entries => DeltaRequest.lastEntries entries tokenIds.length⟩, x',
    ?_, rfl, ?_, rfl, htokens', htokens, ?_, ?_, hgoes', hends⟩
  · unfold DeltaRequest.newCompletionOutput
    rw [hmade, h.outputKind]
    rfl
  · rw [Option.isSome_map]
    exact h.logged
  · exact (congrArg (· ++ _) h.text).trans hsent.symm
  · unfold DeltaSum.append LoggedCompletion.entries
    dsimp only
    rw [h.logprobs]
    cases hlogprobs : r.logprobs with
    | none =>
      have hnil : r.entries = [] := by rw [DeltaRequest.entries, hlogprobs]; rfl
      simp [hnil]
    | some entries =>
      have hentries : r.entries = entries := by rw [DeltaRequest.entries, hlogprobs]; rfl
      have hlen := h.length_entries (by rw [← h.logged, hlogprobs]; rfl)
      rw [← htokens, List.length_append, hentries] at hlen
      rw [hentries, Option.map_some, Option.getD_some, take_append_lastEntries hlen]
      simp only [List.length_eq_zero_iff]

/-- A parent with its child taken from the outstanding ones where it is finished. -/
def handed (finished : Bool) (child : ReqId) (p : ParentRequest) : ParentRequest :=
  { p with
    childRequests := if finished then p.childRequests.filter (· ≠ child) else p.childRequests }

/-- A parent hands on the completion of an outstanding child. -/
theorem completionOutputs_spec (r : DeltaRequest L) {parentReq : Option ParentRequest}
    (hparent : ∀ p, parentReq = some p →
      p.samplingParams.outputKind = .delta ∧ r.state.requestId ∈ p.childRequests)
    (c : LoggedCompletion L) :
    ∃ output, r.completionOutputs parentReq c c.finished =
        .ok (some output, parentReq.map (handed c.finished r.state.requestId)) ∧
      output.outputs = [c] := by
  cases parentReq with
  | none => exact ⟨_, rfl, rfl⟩
  | some p =>
    obtain ⟨hkind, hmem⟩ := hparent p rfl
    have houtputs : p.getOutputs r.state.requestId c.toCompletionOutput =
        .ok (([some c.toCompletionOutput],
          decide ((handed c.finished r.state.requestId p).childRequests = [])),
          handed c.finished r.state.requestId p) := by
      unfold ParentRequest.getOutputs
      dsimp only
      rw [if_neg (by rw [hkind]; decide)]
      simp only [hmem, not_true_eq_false, decide_false, Bool.and_false, Bool.false_eq_true,
        if_false]
      rfl
    refine ⟨r.newRequestOutput p.externalReqId [c]
      (decide ((handed c.finished r.state.requestId p).childRequests = [])), ?_, rfl⟩
    unfold DeltaRequest.completionOutputs
    dsimp only
    rw [houtputs]
    rfl

/-- What the stream interval lets pass: nothing, or all tokens that have not been sent. -/
theorem streamed_spec (newTokenIds : List TokenId) (finished : Bool)
    (h : Logged cfg index r sum x) :
    (1 < cfg.streamInterval ∧ finished = false ∧
        r.state.streamed cfg.processor newTokenIds finished = .ok (none, r.state)) ∨
      ∃ offset, r.state.streamed cfg.processor newTokenIds finished =
          .ok (some (unsent cfg r x newTokenIds), { r.state with sentTokensOffset := offset }) ∧
        (cfg.streamInterval ≤ 1 → offset = r.state.sentTokensOffset) ∧
        (1 < cfg.streamInterval → offset = x.tokenIds.length ∧
          (finished = false → r.state.sentTokensOffset = 0 ∨
            r.state.sentTokensOffset < x.tokenIds.length)) := by
  unfold RequestState.streamed unsent
  by_cases hinterval : cfg.streamInterval ≤ 1
  · rw [if_pos hinterval]
    refine .inr ⟨r.state.sentTokensOffset, ?_, fun _ => rfl, fun h => absurd h (by omega)⟩
    rw [if_pos (show cfg.processor.streamInterval ≤ 1 from hinterval)]
  · rw [if_neg hinterval, if_neg (show ¬ cfg.processor.streamInterval ≤ 1 from hinterval)]
    rw [h.detokenizer]
    dsimp only
    split
    next hsends =>
      refine .inr ⟨x.tokenIds.length, ?_, fun h => absurd h hinterval, fun _ => ⟨rfl, fun hf => ?_⟩⟩
      · rw [if_pos h.outputKind, ← h.detokenizer]
        rfl
      · rcases hsends with hsends | hsends | hsends
        · rw [hf] at hsends
          cases hsends
        · exact .inl hsends
        · have hlt : r.state.sentTokensOffset + cfg.streamInterval ≤ x.tokenIds.length := hsends
          exact .inr (by omega)
    next hwaits =>
      exact .inl ⟨by omega, by simpa using fun hf => hwaits (.inl hf), rfl⟩

/-- An output is not made yet, or has all tokens that have not been sent. -/
theorem makeRequestOutput_spec {newTokenIds : List TokenId} {finishReason : Option FinishReason}
    (h : Due cfg index r sum x newTokenIds finishReason.isSome) {parentReq : Option ParentRequest}
    (hparent : ∀ p, parentReq = some p →
      p.samplingParams.outputKind = .delta ∧ r.state.requestId ∈ p.childRequests)
    (hnew : finishReason = none →
      newTokenIds ≠ [] ∧ r.state.sentTokensOffset < x.tokenIds.length)
    (stopReason : Option OutputStopReason) :
    (finishReason = none ∧ r.makeRequestOutput cfg parentReq newTokenIds finishReason stopReason =
        .ok (none, r, parentReq) ∧ Running cfg index r sum x) ∨
      ∃ output c r' x', r.makeRequestOutput cfg parentReq newTokenIds finishReason stopReason =
          .ok (some output, r',
            parentReq.map (handed finishReason.isSome r.state.requestId)) ∧
        output.outputs = [c] ∧ c.index = index ∧ c.logprobs.isSome = cfg.logprobs ∧
        r'.state.requestId = r.state.requestId ∧ r'.entries = r.entries ∧
        (finishReason = none → Running cfg index r' (sum.append c) x') ∧
        (finishReason.isSome = true → Ended r' (sum.append c) x'
          (r.entries ≠ [] ∧ unsent cfg r x newTokenIds = [])) := by
  rcases streamed_spec newTokenIds finishReason.isSome h.toLogged with
    ⟨hinterval, hfinished, hstreamed⟩ | ⟨offset, hstreamed, hsmall, hlarge⟩
  · refine .inl ⟨by simpa using hfinished, ?_, h.toLogged, h.detokenizing hfinished, ?_⟩
    · unfold DeltaRequest.makeRequestOutput
      rw [hstreamed]
      rfl
    · -- What has been sent stays the tokens below the offset.
      have htokens := h.tokenIds
      rw [unsent, if_neg (by omega)] at htokens
      rw [if_neg (by omega)]
      refine List.append_cancel_right (htokens.trans (List.take_append_drop _ _).symm)
  · have hoffset : offset ≤ x.tokenIds.length := by
      by_cases hinterval : cfg.streamInterval ≤ 1
      · rw [hsmall hinterval]
        exact h.offset_le
      · rw [(hlarge (by omega)).1]
    have hsent : Logged cfg index { r with state := { r.state with sentTokensOffset := offset } }
        sum x := { h.toLogged with offset_le := hoffset }
    obtain ⟨c, x', hmade, hindex, hlogged, hfinished, htokens', htokens, htext, hlogprobs, hgoes,
      hends⟩ := newCompletionOutput_spec hsent h.detokenized h.detokenizing h.tokenIds stopReason
    obtain ⟨output, houtput, houtputs⟩ := completionOutputs_spec
      { r with state := { r.state with sentTokensOffset := offset, detokenizer := some x' } }
      hparent c
    rw [hfinished] at houtput
    refine .inr ⟨output, c,
      { r with state := { r.state with sentTokensOffset := offset, detokenizer := some x' } }, x',
      ?_, houtputs, hindex, hlogged, rfl, rfl, fun hnone => ?_, fun hsome => ?_⟩
    · exact bind_ok_iff.mpr ⟨_, hstreamed, bind_ok_iff.mpr ⟨_, hmade,
        bind_ok_iff.mpr ⟨_, houtput, rfl⟩⟩⟩
    · -- Some tokens are sent, with their entries.
      obtain ⟨hne, hlt⟩ := hnew hnone
      have hunsent : unsent cfg r x newTokenIds ≠ [] := by
        unfold unsent
        split
        · exact hne
        · rw [Ne, List.drop_eq_nil_iff]
          omega
      rw [if_neg hunsent] at hlogprobs
      refine ⟨⟨rfl, h.outputKind, h.index_eq, by rw [htokens']; exact hoffset, htext, h.logged,
        fun hl => (h.length_entries hl).trans (congrArg _ htokens'.symm), ?_⟩,
        hgoes (by simp [hnone]), ?_⟩
      · rw [hlogprobs, htokens]
        exact (List.take_of_length_le h.length_entries_le).symm
      · rw [htokens, htokens']
        split
        · rfl
        next hinterval => rw [(hlarge (by omega)).1, List.take_length]
    · refine ⟨rfl, htokens.trans htokens'.symm, htext.trans (hends hsome), ?_⟩
      rw [hlogprobs]
      split
      next hunsent => simp [hunsent, DeltaRequest.entries]
      next hunsent => simp [hunsent, DeltaRequest.entries]

/-! ## Events -/

/-- What has been sent when an output of one completion has been put into the collector. -/
theorem sum_putOutput (s s' : DeltaStream L) {c : LoggedCompletion L} {o : LoggedRequestOutput L}
    (hobtained : s'.obtained = s.obtained) (hcollector : s'.collector = some o)
    (hput : ∀ {β : Type} (f : LoggedCompletion L → List β), Additive f → ∀ index,
      collected f index [o] =
        collected f index s.collector.toList ++ if c.index = index then f c else [])
    (index : Nat) :
    s'.sum index = if c.index = index then (s.sum index).append c else s.sum index := by
  have hof : ∀ {β : Type} (f : LoggedCompletion L → List β), Additive f →
      collected f index (s'.obtained ++ s'.collector.toList) =
        collected f index (s.obtained ++ s.collector.toList) ++
          if c.index = index then f c else [] := by
    intro β f hf
    have happend : ∀ a b, collected f index (a ++ b) = collected f index a ++ collected f index b :=
      fun a b => List.flatMap_append
    rw [hobtained, hcollector, Option.toList_some, happend, happend, hput f hf, List.append_assoc]
  have htokens := hof _ additive_tokens
  have htext := hof _ additive_characters
  have hlogprobs := hof _ additive_entries
  by_cases hindex : c.index = index
  · rw [if_pos hindex] at *
    exact DeltaSum.ext htokens htext hlogprobs
  · rw [if_neg hindex] at *
    rw [List.append_nil] at htokens htext hlogprobs
    exact DeltaSum.ext htokens htext hlogprobs

/-- A completion that is aborted now repeats its logprobs: it has some, and all tokens have been
sent. -/
def Repeats (cfg : DeltaConfig) (r : DeltaRequest L) : Prop :=
  r.entries ≠ [] ∧ ∃ x, r.state.detokenizer = some x ∧ unsent cfg r x [] = []

/-- A completion is aborted when all of its tokens have been sent, with logprobs. -/
def RepeatedAt (cfg : DeltaConfig) (events : List (DeltaEvent L)) (index : Nat) : Prop :=
  ∃ before after s r, events = before ++ .abort index :: after ∧
    DeltaStream.run cfg before = .ok s ∧ s.completions index = .running r ∧ Repeats cfg r

/-- What holds of a completion, whether it has been added, goes on or has ended. -/
def Totals (cfg : DeltaConfig) (repeated : Prop) (index : Nat) (sum : DeltaSum L) :
    Completion L → Prop
  | .waiting => sum = ⟨[], [], []⟩ ∧ ¬ repeated
  | .running r => (∃ x, Running cfg index r sum x) ∧ ¬ repeated
  | .ended r => ∃ x, Ended r sum x repeated

/-- What every event preserves. -/
structure DeltaInvariant (cfg : DeltaConfig) (events : List (DeltaEvent L)) (s : DeltaStream L) :
    Prop where
  pending : Pending cfg.logprobs s.collector
  parent : ∀ p, s.parentReq = some p →
    p.samplingParams.outputKind = .delta ∧ p.requestId = cfg.requestId
  child : ∀ p, s.parentReq = some p → ∀ index r, s.completions index = .running r →
    r.state.requestId = .child index cfg.requestId ∧ r.state.requestId ∈ p.childRequests
  totals : ∀ index, Totals cfg (RepeatedAt cfg events index) index (s.sum index)
    (s.completions index)

/-- One more event repeats logprobs when it is the abort of a completion all of whose tokens have
been sent. -/
theorem repeatedAt_append {events : List (DeltaEvent L)} {s : DeltaStream L}
    (hrun : DeltaStream.run cfg events = .ok s) (e : DeltaEvent L) (index : Nat) :
    RepeatedAt cfg (events ++ [e]) index ↔ RepeatedAt cfg events index ∨
      (e = .abort index ∧ ∃ r, s.completions index = .running r ∧ Repeats cfg r) := by
  constructor
  · rintro ⟨before, after, s', r, heq, hbefore, hrunning, hrepeats⟩
    rcases List.eq_nil_or_concat' after with rfl | ⟨rest, e', rfl⟩
    · obtain ⟨rfl, he⟩ := List.append_inj' heq rfl
      obtain rfl := Except.ok.inj (hrun.symm.trans hbefore)
      exact .inr ⟨(List.cons.inj he).1, r, hrunning, hrepeats⟩
    · rw [← List.cons_append, ← List.append_assoc] at heq
      exact .inl ⟨before, rest, s', r, (List.append_inj' heq rfl).1, hbefore, hrunning, hrepeats⟩
  · rintro (⟨before, after, s', r, rfl, h⟩ | ⟨rfl, r, hrunning, hrepeats⟩)
    · exact ⟨before, after ++ [e], s', r, by simp, h⟩
    · exact ⟨events, [], s, r, rfl, hrun, hrunning, hrepeats⟩

section

variable {s : DeltaStream L} {events events' : List (DeltaEvent L)} {newTokenIds : List TokenId}
  {finishReason : Option FinishReason}

/-- The children of a parent behind an output of one of them. -/
theorem DeltaInvariant.child_update (h : DeltaInvariant cfg events s)
    {r' : DeltaRequest L} (hrunning : s.completions index = .running r)
    (hid : r'.state.requestId = r.state.requestId) (p : ParentRequest)
    (hp : s.parentReq = some p) (finished : Bool) (j : Nat) (rj : DeltaRequest L)
    (hj : Function.update s.completions index
      (if finished then .ended r' else .running r') j = .running rj) :
    rj.state.requestId = .child j cfg.requestId ∧
      rj.state.requestId ∈ (handed finished r.state.requestId p).childRequests := by
  obtain ⟨hchild, -⟩ := h.child p hp index r hrunning
  by_cases hne : j = index
  · subst hne
    rw [Function.update_self] at hj
    cases finished with
    | true => cases hj
    | false =>
      obtain rfl := Completion.running.inj hj
      rw [hid]
      exact h.child p hp j r hrunning
  · rw [Function.update_of_ne hne] at hj
    obtain ⟨hchildj, hmem⟩ := h.child p hp j rj hj
    refine ⟨hchildj, ?_⟩
    unfold handed
    dsimp only
    split
    · refine List.mem_filter.mpr ⟨hmem, ?_⟩
      rw [hchildj, hchild]
      simpa using hne
    · exact hmem

/-- An output of a running completion keeps the invariant. -/
theorem emit_keeps (h : DeltaInvariant cfg events s) {r₀ : DeltaRequest L}
    (hrunning : s.completions index = .running r₀)
    (hid : r.state.requestId = r₀.state.requestId)
    (hdue : Due cfg index r (s.sum index) x newTokenIds finishReason.isSome)
    (hnew : finishReason = none →
      newTokenIds ≠ [] ∧ r.state.sentTokensOffset < x.tokenIds.length)
    (hothers : ∀ j, j ≠ index → (RepeatedAt cfg events' j ↔ RepeatedAt cfg events j))
    (hgoes : finishReason = none → ¬ RepeatedAt cfg events' index)
    (hends : finishReason.isSome = true →
      (RepeatedAt cfg events' index ↔ r.entries ≠ [] ∧ unsent cfg r x newTokenIds = []))
    (stopReason : Option OutputStopReason) :
    ∃ s', s.emit cfg index r newTokenIds finishReason stopReason = .ok s' ∧
      DeltaInvariant cfg events' s' := by
  have hparent : ∀ p, s.parentReq = some p →
      p.samplingParams.outputKind = .delta ∧ r.state.requestId ∈ p.childRequests := by
    intro p hp
    rw [hid]
    exact ⟨(h.parent p hp).1, (h.child p hp index r₀ hrunning).2⟩
  have htotals : ∀ j, j ≠ index → Totals cfg (RepeatedAt cfg events' j) j (s.sum j)
      (s.completions j) := by
    intro j hj
    rw [propext (hothers j hj)]
    exact h.totals j
  rcases makeRequestOutput_spec hdue hparent hnew stopReason with
    ⟨hnone, hmade, hrun⟩ | ⟨output, c, r', x', hmade, houtputs, hindex, hlogged, hid', hentries,
      hrun, hend⟩
  · subst hnone
    refine ⟨{ s with completions := Function.update s.completions index (.running r) },
      bind_ok_iff.mpr ⟨_, hmade, rfl⟩, h.pending, h.parent, fun p hp j rj hj => ?_, fun j => ?_⟩
    · exact h.child_update hrunning hid p hp false j rj hj
    · by_cases hj : j = index
      · subst hj
        dsimp only
        rw [Function.update_self]
        exact ⟨⟨x, hrun⟩, hgoes rfl⟩
      · dsimp only
        rw [Function.update_of_ne hj]
        exact htotals j hj
  · obtain ⟨o, hput, hpending, hsum⟩ := putOutput_spec h.pending houtputs hlogged
    refine ⟨{ s with
        completions := Function.update s.completions index
          (if finishReason.isSome then .ended r' else .running r')
        parentReq := s.parentReq.map (handed finishReason.isSome r.state.requestId)
        collector := some o },
      bind_ok_iff.mpr ⟨_, hmade, bind_ok_iff.mpr ⟨_, hput, rfl⟩⟩, hpending, fun p' hp' => ?_,
      fun p' hp' j rj hj => ?_, fun j => ?_⟩
    · obtain ⟨p, hp, rfl⟩ := Option.map_eq_some_iff.mp hp'
      exact h.parent p hp
    · obtain ⟨p, hp, rfl⟩ := Option.map_eq_some_iff.mp hp'
      have hchild := h.child_update hrunning (hid'.trans hid) p hp finishReason.isSome j rj hj
      rwa [← hid] at hchild
    · have hsumj := sum_putOutput s { s with
        completions := Function.update s.completions index
          (if finishReason.isSome then .ended r' else .running r')
        parentReq := s.parentReq.map (handed finishReason.isSome r.state.requestId)
        collector := some o } rfl rfl hsum j
      rw [hsumj, hindex]
      dsimp only
      by_cases hj : j = index
      · subst hj
        rw [if_pos rfl, Function.update_self]
        cases hfinish : finishReason with
        | none => exact ⟨⟨x', hrun hfinish⟩, hgoes hfinish⟩
        | some reason =>
          have hsome : finishReason.isSome = true := by rw [hfinish]; rfl
          refine ⟨x', ?_⟩
          rw [propext (hends hsome)]
          exact hend hsome
      · rw [if_neg (Ne.symm hj), Function.update_of_ne hj]
        exact htotals j hj

/-- An event that is no abort of a running completion repeats nothing. -/
theorem repeatedAt_of_not_abort (hrun : DeltaStream.run cfg events = .ok s) {e : DeltaEvent L}
    {j : Nat} (h : ∀ r, e = .abort j → s.completions j ≠ .running r) :
    RepeatedAt cfg (events ++ [e]) j ↔ RepeatedAt cfg events j := by
  rw [repeatedAt_append hrun]
  refine or_iff_left_of_imp ?_
  rintro ⟨he, r, hr, -⟩
  exact absurd hr (h r he)

/-- The consumer takes what the collector has, which stays counted. -/
theorem get_keeps (h : DeltaInvariant cfg events s) (hrun : DeltaStream.run cfg events = .ok s) :
    DeltaInvariant cfg (events ++ [.get]) s.get where
  pending o ho := by cases ho
  parent := h.parent
  child := h.child
  totals index := by
    have hsum : s.get.sum index = s.sum index := by
      unfold DeltaStream.sum DeltaStream.get
      dsimp only
      rw [Option.toList_none, List.append_nil]
    have hrepeated : RepeatedAt cfg (events ++ [.get]) index ↔ RepeatedAt cfg events index :=
      repeatedAt_of_not_abort hrun fun r he => by cases he
    rw [hsum, propext hrepeated]
    exact h.totals index

/-- A completion that is added has sent nothing. -/
theorem running_new (cfg : DeltaConfig) (requestId : ReqId) (parentReq : Option ReqId)
    (index : Nat) :
    Running (L := L) cfg index (.fromNewRequest cfg requestId parentReq index) ⟨[], [], []⟩ {} where
  detokenizer := rfl
  outputKind := rfl
  index_eq := rfl
  offset_le := le_rfl
  text := rfl
  logged := by
    unfold DeltaRequest.fromNewRequest
    cases cfg.logprobs <;> rfl
  length_entries h := by
    unfold DeltaRequest.entries DeltaRequest.fromNewRequest
    rw [if_pos h]
    rfl
  logprobs := rfl
  detokenizing := ⟨fun _ => rfl, Nat.zero_le _⟩
  tokenIds := by split <;> rfl

/-- A child that is added is outstanding, with those that were. -/
theorem ParentRequest.mem_getChildInfo (p : ParentRequest) (index : Nat) :
    (p.getChildInfo index).1 ∈ (p.getChildInfo index).2.childRequests ∧
      ∀ child ∈ p.childRequests, child ∈ (p.getChildInfo index).2.childRequests := by
  unfold ParentRequest.getChildInfo
  dsimp only
  split
  next hmem => exact ⟨hmem, fun _ h => h⟩
  next => exact ⟨by simp, fun _ h => List.mem_append_left _ h⟩

/-- A completion is added. -/
theorem add_keeps (h : DeltaInvariant cfg events s) (hrun : DeltaStream.run cfg events = .ok s)
    (index : Nat) : DeltaInvariant cfg (events ++ [.add index]) (s.add cfg index) := by
  have hrepeated : ∀ j, RepeatedAt cfg (events ++ [.add index]) j ↔ RepeatedAt cfg events j :=
    fun j => repeatedAt_of_not_abort hrun fun r he => by cases he
  have htotals : ∀ j, Totals cfg (RepeatedAt cfg (events ++ [.add index]) j) j (s.sum j)
      (s.completions j) := by
    intro j
    rw [propext (hrepeated j)]
    exact h.totals j
  have hadded : s.completions index = .waiting → ∀ requestId parentReq j,
      Totals cfg (RepeatedAt cfg (events ++ [.add index]) j) j (s.sum j)
        (Function.update s.completions index
          (.running (.fromNewRequest cfg requestId parentReq index)) j) := by
    intro hwaiting requestId parentReq j
    by_cases hj : j = index
    · subst hj
      have hwaits := htotals j
      rw [hwaiting] at hwaits
      rw [Function.update_self, hwaits.1]
      exact ⟨⟨{}, running_new cfg requestId parentReq j⟩, hwaits.2⟩
    · rw [Function.update_of_ne hj]
      exact htotals j
  unfold DeltaStream.add
  split
  next hwaiting =>
    split
    next hnone =>
      have hparent : ∀ p, s.parentReq ≠ some p := fun p hp => by rw [hnone] at hp; cases hp
      exact ⟨h.pending, fun p hp => absurd hp (hparent p), fun p hp => absurd hp (hparent p),
        hadded hwaiting _ _⟩
    next p hp =>
      refine ⟨h.pending, fun p' hp' => ?_, fun p' hp' j r hj => ?_, hadded hwaiting _ _⟩
      · obtain rfl := Option.some.inj hp'
        exact h.parent p hp
      · obtain rfl := Option.some.inj hp'
        have hid := (h.parent p hp).2
        obtain ⟨hmem, hsub⟩ := p.mem_getChildInfo index
        by_cases hne : j = index
        · subst hne
          dsimp only at hj
          rw [Function.update_self] at hj
          obtain rfl := Completion.running.inj hj
          exact ⟨congrArg _ hid, hmem⟩
        · dsimp only at hj
          rw [Function.update_of_ne hne] at hj
          obtain ⟨hchild, hin⟩ := h.child p hp j r hj
          exact ⟨hchild, hsub _ hin⟩
  next hother => exact ⟨h.pending, h.parent, h.child, htotals⟩

/-- The tokens that have been sent of a running completion and the others are all of them, also
when some have just been returned. -/
theorem Running.unsent_update {sum : DeltaSum L} (h : Running cfg index r sum x)
    {x' : IncrementalDetokenizer} {newTokenIds : List TokenId}
    (htokens : x'.tokenIds = x.tokenIds ++ newTokenIds) {r' : DeltaRequest L}
    (hoffset : r'.state.sentTokensOffset = r.state.sentTokensOffset) :
    sum.tokenIds ++ unsent cfg r' x' newTokenIds = x'.tokenIds := by
  have hle := h.offset_le
  rw [h.tokenIds, unsent, htokens, hoffset]
  split
  · rfl
  · rw [List.drop_append_of_le_length hle, ← List.append_assoc, List.take_append_drop]

/-- What has been sent of a running completion is no more than all. -/
theorem Running.length_le {sum : DeltaSum L} (h : Running cfg index r sum x) :
    sum.tokenIds.length ≤ x.tokenIds.length := by
  rw [h.tokenIds]
  split
  · exact le_rfl
  · exact List.length_take_le' _ _

/-- A running completion is aborted. -/
theorem abort_keeps (h : DeltaInvariant cfg events s) (hrun : DeltaStream.run cfg events = .ok s)
    (index : Nat) :
    ∃ s', s.abort cfg index = .ok s' ∧ DeltaInvariant cfg (events ++ [.abort index]) s' := by
  have hothers : ∀ j, j ≠ index →
      (RepeatedAt cfg (events ++ [.abort index]) j ↔ RepeatedAt cfg events j) := by
    intro j hj
    refine repeatedAt_of_not_abort hrun fun r he => ?_
    exact absurd (DeltaEvent.abort.inj he).symm hj
  have hother : ∀ c, s.completions index = c → (∀ r, c ≠ .running r) →
      DeltaInvariant cfg (events ++ [.abort index]) s := by
    intro c hc hnot
    refine ⟨h.pending, h.parent, h.child, fun j => ?_⟩
    rw [propext (repeatedAt_of_not_abort hrun fun r he => ?_)]
    · exact h.totals j
    · obtain rfl := DeltaEvent.abort.inj he
      rw [hc]
      exact hnot r
  unfold DeltaStream.abort
  split
  next r hrunning =>
    have htotals := h.totals index
    rw [hrunning] at htotals
    obtain ⟨⟨x, hx⟩, hnot⟩ := htotals
    have hdue : Due cfg index r (s.sum index) x [] (some FinishReason.abort).isSome :=
      ⟨hx.toLogged, hx.detokenizing.detokenized, fun _ => hx.detokenizing,
        hx.unsent_update (List.append_nil _).symm rfl⟩
    refine emit_keeps h hrunning rfl hdue (fun hf => by cases hf) hothers (fun hf => by cases hf)
      (fun _ => ?_) none
    rw [repeatedAt_append hrun, or_iff_right hnot]
    constructor
    · rintro ⟨-, r', hr', hentries, x', hx', hunsent⟩
      obtain rfl := Completion.running.inj (hrunning.symm.trans hr')
      obtain rfl := Option.some.inj (hx.detokenizer.symm.trans hx')
      exact ⟨hentries, hunsent⟩
    · rintro ⟨hentries, hunsent⟩
      exact ⟨rfl, r, hrunning, hentries, x, hx.detokenizer, hunsent⟩
  next hnot =>
    exact ⟨s, rfl, hother _ rfl fun r hr => hnot r hr⟩

/-- The stop checks append the tokens; a request that goes on has no stop string. -/
theorem detokenize_spec {sum : DeltaSum L} (h : Running cfg index r sum x)
    (numCachedTokens : Nat) (newTokenIds : List TokenId) (finishReason : Option FinishReason)
    (stopReason : Option OutputStopReason) :
    ∃ x' finishReason' stopReason',
      RequestState.detokenize cfg.processor { r.state with numCachedTokens }
          { requestId := r.state.requestId, newTokenIds, finishReason, stopReason } =
        .ok ⟨{ r.state with numCachedTokens, detokenizer := some x' }, finishReason',
          stopReason'⟩ ∧
      x'.tokenIds = x.tokenIds ++ newTokenIds ∧ x'.sentText = x.sentText ∧
      Detokenized cfg.tokenizer x' ∧
      (finishReason' = none → Detokenizing cfg.tokenizer cfg.stopParams x') := by
  obtain ⟨x', stopString, hupdate, htokens, hsent, hdetokenized, hgoes⟩ :=
    detokenizer_update cfg.stop_ne_nil h.detokenizing newTokenIds
      (decide (finishReason = some .stop))
  unfold RequestState.detokenize
  dsimp only
  rw [h.detokenizer]
  dsimp only [DeltaConfig.processor]
  rw [hupdate]
  cases stopString with
  | some stop =>
    exact ⟨x', some .stop, some (.string stop), rfl, htokens, hsent, hdetokenized,
      fun hf => by cases hf⟩
  | none =>
    exact ⟨x', finishReason, stopReason, rfl, htokens, hsent, hdetokenized, fun _ => hgoes rfl⟩

/-- The entries of the new tokens are appended where logprobs are requested. -/
private theorem updateFromOutput_spec (r : DeltaRequest L)
    (hlogged : r.logprobs.isSome = cfg.logprobs) (newLogprobs : List L) :
    ∃ r', r.updateFromOutput (if cfg.logprobs then some newLogprobs else none) = .ok r' ∧
      r'.state = r.state ∧ r'.logprobs.isSome = cfg.logprobs ∧
      r'.entries = if cfg.logprobs then r.entries ++ newLogprobs else [] := by
  unfold DeltaRequest.updateFromOutput DeltaRequest.entries
  cases hl : r.logprobs with
  | none =>
    rw [hl] at hlogged
    rw [← hlogged]
    exact ⟨r, rfl, rfl, by rw [hl], by rw [hl]; rfl⟩
  | some logprobs =>
    rw [hl] at hlogged
    rw [← hlogged]
    exact ⟨_, rfl, rfl, rfl, rfl⟩

/-- The engine returns tokens of a completion. -/
theorem processOutput_keeps (h : DeltaInvariant cfg events s)
    (hrun : DeltaStream.run cfg events = .ok s) (index : Nat) {tokens : List (TokenId × L)}
    (hne : tokens ≠ []) (finishReason : Option FinishReason) (stopReason : Option OutputStopReason)
    (numCachedTokens : Nat) :
    ∃ s', s.processOutput cfg index tokens finishReason stopReason numCachedTokens = .ok s' ∧
      DeltaInvariant cfg
        (events ++ [.output index tokens finishReason stopReason numCachedTokens]) s' := by
  have hrepeated : ∀ j, RepeatedAt cfg
      (events ++ [.output index tokens finishReason stopReason numCachedTokens]) j ↔
      RepeatedAt cfg events j :=
    fun j => repeatedAt_of_not_abort hrun fun r he => by cases he
  unfold DeltaStream.processOutput
  split
  next r hrunning =>
    have htotals := h.totals index
    rw [hrunning] at htotals
    obtain ⟨⟨x, hx⟩, hnot⟩ := htotals
    obtain ⟨x', finishReason', stopReason', hdetokenize, htokens, hsent, hdetokenized, hgoes⟩ :=
      detokenize_spec hx numCachedTokens (tokens.map Prod.fst) finishReason stopReason
    obtain ⟨r', hlogprobs, hstate, hlogged, hentries⟩ := updateFromOutput_spec
      { r with state := { r.state with numCachedTokens, detokenizer := some x' } }
      hx.logged (tokens.map Prod.snd)
    have hlen : x'.tokenIds.length = x.tokenIds.length + tokens.length := by
      rw [htokens, List.length_append, List.length_map]
    have hpos := List.length_pos_iff.mpr hne
    have hunsent : (s.sum index).tokenIds ++ unsent cfg r' x' (tokens.map Prod.fst) = x'.tokenIds :=
      hx.unsent_update htokens (by rw [hstate])
    have hdue : Due cfg index r' (s.sum index) x' (tokens.map Prod.fst) finishReason'.isSome := by
      refine ⟨⟨by rw [hstate], by rw [hstate]; exact hx.outputKind,
        by rw [hstate]; exact hx.index_eq, ?_, hx.text.trans hsent.symm, hlogged, fun hl => ?_, ?_⟩,
        hdetokenized, fun hf => hgoes (by simpa using hf), hunsent⟩
      · have := hx.offset_le
        rw [hstate]
        dsimp only
        omega
      · have := hx.length_entries hl
        rw [hentries, if_pos hl, List.length_append, List.length_map]
        unfold DeltaRequest.entries at *
        dsimp only at *
        omega
      · rw [hx.logprobs, hentries]
        split
        next hl =>
          rw [List.take_append_of_le_length]
          · rfl
          · exact hx.length_le.trans (hx.length_entries hl).ge
        next hl => rw [hx.entries_eq_nil (by simpa using hl)]
    -- Some of the tokens have not been sent.
    have hsome : unsent cfg r' x' (tokens.map Prod.fst) ≠ [] := by
      intro hnil
      have hle := hx.length_le
      rw [hnil, List.append_nil] at hunsent
      rw [← hunsent] at hlen
      omega
    obtain ⟨s', hemit, hinv⟩ := emit_keeps h hrunning (by rw [hstate]) hdue
      (fun hf => ⟨by simpa using hne, by rw [hstate]; have := hx.offset_le; dsimp only; omega⟩)
      (fun j _ => hrepeated j) (fun _ hr => hnot ((hrepeated index).mp hr))
      (fun _ => iff_of_false (fun hr => hnot ((hrepeated index).mp hr)) fun hr => hsome hr.2)
      stopReason'
    exact ⟨s', bind_ok_iff.mpr ⟨_, hdetokenize, bind_ok_iff.mpr ⟨r', hlogprobs, hemit⟩⟩, hinv⟩
  next hother =>
    refine ⟨s, rfl, h.pending, h.parent, h.child, fun j => ?_⟩
    rw [propext (hrepeated j)]
    exact h.totals j

end

/-! ## Runs -/

/-- The engine returns one or more tokens with an output. -/
def DeltaEvent.HasTokens : DeltaEvent L → Prop
  | .output _ tokens _ _ _ => tokens ≠ []
  | _ => True

/-- Every event keeps the invariant. -/
private theorem step_keeps {s : DeltaStream L} {events : List (DeltaEvent L)}
    (h : DeltaInvariant cfg events s) (hrun : DeltaStream.run cfg events = .ok s)
    {e : DeltaEvent L} (he : e.HasTokens) :
    ∃ s', s.step cfg e = .ok s' ∧ DeltaInvariant cfg (events ++ [e]) s' := by
  cases e with
  | add index => exact ⟨_, rfl, add_keeps h hrun index⟩
  | output index tokens finishReason stopReason numCachedTokens =>
    exact processOutput_keeps h hrun index he finishReason stopReason numCachedTokens
  | abort index => exact abort_keeps h hrun index
  | get => exact ⟨_, rfl, get_keeps h hrun⟩

/-- The invariant holds before the first event. -/
private theorem init_invariant (cfg : DeltaConfig) :
    DeltaInvariant (L := L) cfg [] (.init cfg) where
  pending o ho := by cases ho
  parent p hp := by
    unfold DeltaStream.init at hp
    dsimp only at hp
    split at hp
    · cases hp
    · obtain rfl := Option.some.inj hp
      exact ⟨rfl, rfl⟩
  child p _ index r hr := by cases hr
  totals index := by
    refine ⟨rfl, ?_⟩
    rintro ⟨before, after, -, -, h, -⟩
    simp at h

/-- Every run keeps the invariant. -/
theorem run_invariant (cfg : DeltaConfig) (events : List (DeltaEvent L))
    (hevents : ∀ e ∈ events, e.HasTokens) :
    ∃ s, DeltaStream.run cfg events = .ok s ∧ DeltaInvariant cfg events s := by
  induction events using List.reverseRecOn with
  | nil => exact ⟨_, rfl, init_invariant cfg⟩
  | append_singleton events e ih =>
    obtain ⟨s, hrun, h⟩ := ih fun e he => hevents e (List.mem_append_left _ he)
    obtain ⟨s', hstep, h'⟩ := step_keeps h hrun (hevents e (by simp))
    refine ⟨s', ?_, h'⟩
    unfold DeltaStream.run at *
    rw [List.foldlM_append]
    refine bind_ok_iff.mpr ⟨s, hrun, ?_⟩
    simp only [List.foldlM, hstep]
    rfl

/-- When a completion has ended and the consumer has got everything, what it has got are the tokens
and the text of the detokenizer. It is the list of the logprobs processor if and only if the
completion was not aborted at a time when all of its tokens had been sent, with logprobs. -/
theorem run_totals (cfg : DeltaConfig) (events : List (DeltaEvent L))
    (hevents : ∀ e ∈ events, e.HasTokens) :
    ∃ s, DeltaStream.run cfg events = .ok s ∧
      ∀ index r, s.completions index = .ended r → s.collector = none →
        ∃ x, r.state.detokenizer = some x ∧
          collected LoggedCompletion.tokens index s.obtained = x.tokenIds ∧
          collected LoggedCompletion.characters index s.obtained = x.outputText ∧
          (collected LoggedCompletion.entries index s.obtained = r.entries ↔
            ¬ RepeatedAt cfg events index) := by
  obtain ⟨s, hrun, h⟩ := run_invariant cfg events hevents
  refine ⟨s, hrun, fun index r hended hcollector => ?_⟩
  have htotals := h.totals index
  rw [hended] at htotals
  obtain ⟨x, hx, htokens, htext, hlogprobs⟩ := htotals
  unfold DeltaStream.sum at htokens htext hlogprobs
  rw [hcollector, Option.toList_none, List.append_nil] at htokens htext hlogprobs
  exact ⟨x, hx, htokens, htext, hlogprobs⟩

/-- A request for one completion with logprobs, without a tokenizer. -/
def loggedConfig : DeltaConfig where
  tokenizer := none
  stopParams := ⟨[], 0, false⟩
  stop_ne_nil := fun _ h => absurd h List.not_mem_nil
  streamInterval := 1
  logprobs := true
  requestId := .request 0
  externalReqId := 0
  prompt := none
  promptTokenIds := [1]
  n := 1

/-- The same with a tokenizer that has a letter for each token. -/
def letteredConfig : DeltaConfig :=
  { loggedConfig with tokenizer := some fun tokenIds => [Char.ofNat (97 + tokenIds.getLastD 0)] }

/-- Outputs of one and of two tokens are merged before the consumer gets them, and a third output
finishes the request. -/
def mergedOutputs : List (DeltaEvent Nat) :=
  [.add 0, .output 0 [(5, 50)] none none 0, .output 0 [(6, 60), (7, 70)] none none 0, .get,
    .output 0 [(8, 80)] (some .length) none 0, .get]

theorem mergedOutputs_totals :
    ∃ s, DeltaStream.run letteredConfig mergedOutputs = .ok s ∧
      (s.collector = none ∧ s.obtained.length = 2 ∧
        collected LoggedCompletion.characters 0 s.obtained = ['f', 'g', 'h', 'i']) ∧
      ∀ index r, s.completions index = .ended r → s.collector = none →
        ∃ x, r.state.detokenizer = some x ∧
          collected LoggedCompletion.tokens index s.obtained = x.tokenIds ∧
          collected LoggedCompletion.characters index s.obtained = x.outputText ∧
          (collected LoggedCompletion.entries index s.obtained = r.entries ↔
            ¬ RepeatedAt letteredConfig mergedOutputs index) := by
  obtain ⟨s, hrun, htotals⟩ := run_totals letteredConfig mergedOutputs
    (by simp [mergedOutputs, DeltaEvent.HasTokens])
  have hobtained : (DeltaStream.run letteredConfig mergedOutputs).map (fun s =>
      (s.collector.isNone, s.obtained.length,
        collected LoggedCompletion.characters 0 s.obtained)) =
        .ok (true, 2, ['f', 'g', 'h', 'i']) := by decide
  rw [hrun] at hobtained
  obtain ⟨hnone, hlength, htext⟩ : _ ∧ _ ∧ _ := by simpa [Except.map] using hobtained
  exact ⟨s, hrun, ⟨hnone, hlength, htext⟩, htotals⟩

/-- A request that is aborted when its one token has been sent gets the logprobs twice. -/
theorem loggedConfig_repeats :
    ¬ ∀ s, DeltaStream.run loggedConfig [.add 0, .output 0 [(5, 50)] none none 0, .get,
        .abort 0, .get] = .ok s →
      ∀ r, s.completions 0 = .ended r → s.collector = none →
        collected LoggedCompletion.entries 0 s.obtained = r.entries := by
  intro h
  have hrepeats := h _ rfl _ rfl rfl
  revert hrepeats
  decide

end Vllm.Frontend
