import Vllm.Core.StructuredOutput
import Mathlib.Data.List.Perm.Basic
import Mathlib.Algebra.Order.BigOperators.Group.List
import Mathlib.Algebra.Group.Action.Defs
import Mathlib.Algebra.GroupWithZero.Nat

/-!
# The bitmask of a step

The manager writes one row for each position that a structured request samples: it walks a
grammar over the drafts of its request and takes it back afterwards. The worker has the
requests in another order, recomputes where their logits begin from the numbers of drafts,
and applies each row there. A draft is `none` where the source pads with -1.
-/

namespace Vllm

open Checked

variable {H G Row L : Type}

/-- Errors of the bitmask code. -/
inductive BitmaskError where
  /-- An index into the bitmask or the logits is out of range. -/
  | indexError
  /-- `assert accepted`. -/
  | draftNotAccepted
  deriving DecidableEq, Repr

/-- What the manager works with. -/
structure BitmaskEnv (G Row : Type) where
  backend : GrammarBackend G Row
  manager : StructuredOutputManager
  /-- `_full_mask`, in every word of a row. -/
  fullMask : Row
  maxNumSeqs : Nat
  numSpeculativeTokens : Nat

/-- The requests and the tensor that a call of `grammar_bitmask` works on. -/
structure BitmaskState (G Row : Type) where
  structured : RequestId → StructuredOutputRequest G
  bitmask : List Row

/-- `fill_bitmask_parallel_threshold`. -/
def fillBitmaskParallelThreshold : Nat := 128

/-- Assign a row of a tensor. -/
def writeRow (rows : List Row) (index : Nat) (row : Row) : Except BitmaskError (List Row) := do
  ensure (index < rows.length) .indexError
  pure (rows.set index row)

namespace BitmaskEnv

variable (env : BitmaskEnv G Row)

/-- The row that `_fill_bitmasks` writes for one entry. -/
def fillRow (grammar : G) (applyBitmask : Bool) : Row × G :=
  if applyBitmask then
    let (terminated, grammar) := env.backend.isTerminated grammar
    if terminated then (env.fullMask, grammar) else (env.backend.fillBitmask grammar, grammar)
  else (env.fullMask, grammar)

/-! ## The serial fill -/

/-- The local variables of the loop over the drafts of a request. -/
structure DraftLoop (G Row : Type) where
  grammar : G
  rows : List Row
  cumulativeIndex : Nat
  applyBitmask : Bool
  stateAdvancements : Nat := 0

/-- The grammar advances by a draft, unless the mask is off or the grammar terminated. -/
def acceptDraft (d : DraftLoop G Row) (token : TokenId) : Except BitmaskError (DraftLoop G Row) :=
  if d.applyBitmask then
    let (terminated, grammar) := env.backend.isTerminated d.grammar
    if terminated then .ok { d with grammar }
    else do
      let (accepted, grammar) := env.backend.acceptTokens grammar [token]
      ensure (accepted = true) .draftNotAccepted
      pure { d with grammar, stateAdvancements := d.stateAdvancements + 1 }
  else .ok d

/-- What follows a row: behind a padding token the mask stays off. -/
def takeDraft (d : DraftLoop G Row) : Option TokenId → Except BitmaskError (DraftLoop G Row)
  | none => .ok { d with applyBitmask := false }
  | some token => env.acceptDraft d token

/-- One round of the loop: a row is written, then the draft behind it is taken. -/
def draftStep (d : DraftLoop G Row) (token : Option TokenId) :
    Except BitmaskError (DraftLoop G Row) := do
  let filled := env.fillRow d.grammar d.applyBitmask
  let rows ← writeRow d.rows d.cumulativeIndex filled.1
  let d ← env.takeDraft { d with grammar := filled.2, rows } token
  pure { d with cumulativeIndex := d.cumulativeIndex + 1 }

/-- The serial fill of one request, from row `cumulativeIndex` on. -/
def fillRequest (request : Request H) (drafts : List (Option TokenId)) (requestId : RequestId)
    (s : BitmaskState G Row) (cumulativeIndex : Nat) :
    Except BitmaskError (BitmaskState G Row × Nat) := do
  let decided := env.manager.shouldFillBitmask request (s.structured requestId)
  let d ← (drafts ++ [none]).foldlM env.draftStep
    { grammar := decided.2.grammar, rows := s.bitmask, cumulativeIndex, applyBitmask := decided.1 }
  let grammar :=
    if 0 < d.stateAdvancements then env.backend.rollback d.grammar d.stateAdvancements
    else d.grammar
  pure ({ structured := Function.update s.structured requestId { decided.2 with grammar }
          bitmask := d.rows }, d.cumulativeIndex)

/-- The serial fill. -/
def serialFill (requests : RequestId → Request H) (drafts : RequestId → List (Option TokenId)) :
    List RequestId → BitmaskState G Row → Nat → Except BitmaskError (BitmaskState G Row × Nat)
  | [], s, cumulativeIndex => .ok (s, cumulativeIndex)
  | requestId :: rest, s, cumulativeIndex => do
    let filled ← env.fillRequest (requests requestId) (drafts requestId) requestId s cumulativeIndex
    serialFill requests drafts rest filled.1 filled.2

/-! ## The parallel fill -/

/-- An entry of a batch of `_fill_bitmasks`. -/
structure FillTask where
  requestId : RequestId
  index : Nat
  applyBitmask : Bool
  deriving DecidableEq, Repr

/-- The loop that puts the entries together, from row `cumulativeIndex` on. -/
def fillTasks (requests : RequestId → Request H) :
    List RequestId → BitmaskState G Row → Nat → List FillTask × BitmaskState G Row
  | [], s, _ => ([], s)
  | requestId :: rest, s, cumulativeIndex =>
    let decided := env.manager.shouldFillBitmask (requests requestId) (s.structured requestId)
    let s := { s with structured := Function.update s.structured requestId decided.2 }
    let (tasks, s) := fillTasks requests rest s (cumulativeIndex + 1)
    (⟨requestId, cumulativeIndex, decided.1⟩ :: tasks, s)

/-- One entry of `_fill_bitmasks`. -/
def fillTask (s : BitmaskState G Row) (task : FillTask) :
    Except BitmaskError (BitmaskState G Row) := do
  let structured := s.structured task.requestId
  let filled := env.fillRow structured.grammar task.applyBitmask
  let bitmask ← writeRow s.bitmask task.index filled.1
  pure {
    structured :=
      Function.update s.structured task.requestId { structured with grammar := filled.2 }
    bitmask }

/-- The parallel fill; the threads work the entries off in some order. -/
def parallelFill (threads : List FillTask → List FillTask) (requests : RequestId → Request H)
    (requestIds : List RequestId) (s : BitmaskState G Row) :
    Except BitmaskError (BitmaskState G Row × Nat) := do
  let (tasks, s) := env.fillTasks requests requestIds s 0
  let s ← (threads tasks).foldlM env.fillTask s
  pure (s, requestIds.length)

/-- The fill that `grammar_bitmask` chooses. -/
def fill (threads : List FillTask → List FillTask) (requests : RequestId → Request H)
    (drafts : RequestId → List (Option TokenId)) (requestIds : List RequestId)
    (s : BitmaskState G Row) : Except BitmaskError (BitmaskState G Row × Nat) :=
  if fillBitmaskParallelThreshold < requestIds.length ∧ env.numSpeculativeTokens = 0 then
    env.parallelFill threads requests requestIds s
  else env.serialFill requests drafts requestIds s 0

/-- `grammar_bitmask`, with the tensor allocated. -/
def grammarBitmask (threads : List FillTask → List FillTask) (requests : RequestId → Request H)
    (drafts : RequestId → List (Option TokenId)) (requestIds : List RequestId)
    (s : BitmaskState G Row) : Except BitmaskError (Option (List Row) × BitmaskState G Row) :=
  if requestIds = [] then .ok (none, s)
  else do
    let (s, cumulativeIndex) ← env.fill threads requests drafts requestIds s
    pure (some (s.bitmask.take cumulativeIndex), s)

end BitmaskEnv

/-! ## The worker -/

/-- The loop over `input_batch.req_ids`: where the logits of the structured requests begin.
The dictionary has each request of the batch once. -/
def logitIndices (numDrafts : RequestId → Nat) (structuredIds : List RequestId) :
    List RequestId → Nat → Nat → List (RequestId × Nat)
  | [], _, _ => []
  | requestId :: rest, batchIndex, cumulativeOffset =>
    let logitIndex := batchIndex + cumulativeOffset
    let others := logitIndices numDrafts structuredIds rest (batchIndex + 1)
      (cumulativeOffset + numDrafts requestId)
    if requestId ∈ structuredIds then (requestId, logitIndex) :: others else others

/-- The local variables of the loop that sorts the bitmask. -/
structure SortLoop (Row : Type) where
  sortedBitmask : List Row
  outIndices : List Nat := []
  cumulativeIndex : Nat := 0

/-- Rows of one request, those with the given offsets, copied to where its logits are. -/
def copyRows (grammarBitmask : List Row) (logitIndex : Nat) (l : SortLoop Row) :
    List Nat → Except BitmaskError (SortLoop Row)
  | [] => .ok l
  | i :: rest =>
    match grammarBitmask[l.cumulativeIndex + i]? with
    | none => .error .indexError
    | some row => do
      let sortedBitmask ← writeRow l.sortedBitmask (logitIndex + i) row
      copyRows grammarBitmask logitIndex
        { l with sortedBitmask, outIndices := l.outIndices ++ [logitIndex + i] } rest

/-- The rows of a request that is in the batch. -/
def copyRequest (numDrafts : RequestId → Nat) (indices : List (RequestId × Nat))
    (grammarBitmask : List Row) (l : SortLoop Row) (requestId : RequestId) :
    Except BitmaskError (SortLoop Row) :=
  match indices.lookup requestId with
  | none => .ok l
  | some logitIndex => copyRows grammarBitmask logitIndex l (List.range (1 + numDrafts requestId))

/-- The loop over the structured requests. -/
def sortStep (numDrafts : RequestId → Nat) (indices : List (RequestId × Nat))
    (grammarBitmask : List Row) (l : SortLoop Row) (requestId : RequestId) :
    Except BitmaskError (SortLoop Row) := do
  let l ← copyRequest numDrafts indices grammarBitmask l requestId
  pure { l with cumulativeIndex := l.cumulativeIndex + (1 + numDrafts requestId) }

/-- `apply_grammar_bitmask`; `mask` is what the kernel does to a row of logits. Without
indices the kernel masks every row. -/
def applyGrammarBitmask (mask : Row → L → L) (fullMask : Row) (numDrafts : RequestId → Nat)
    (structuredIds : List RequestId) (grammarBitmask : List Row) (batch : List RequestId)
    (logits : List L) : Except BitmaskError (List L) := do
  let indices := logitIndices numDrafts structuredIds batch 0 0
  let l ← structuredIds.foldlM (sortStep numDrafts indices grammarBitmask)
    { sortedBitmask := List.replicate logits.length fullMask }
  let skipOutIndices := l.outIndices.length = logits.length
  pure ((l.sortedBitmask.zip logits).zipIdx.map fun entry =>
    if skipOutIndices ∨ entry.2 ∈ l.outIndices then mask entry.1.1 entry.1.2 else entry.1.2)

/-- The mask in `sample_tokens`, if the scheduler sent one. -/
def maskLogits (mask : Row → L → L) (fullMask : Row) (numDrafts : RequestId → Nat)
    (structuredIds : List RequestId) (grammarBitmask : Option (List Row))
    (batch : List RequestId) (logits : List L) : Except BitmaskError (List L) :=
  match grammarBitmask with
  | none => .ok logits
  | some rows => applyGrammarBitmask mask fullMask numDrafts structuredIds rows batch logits

/-! ## What a backend promises -/

namespace GrammarBackend

variable (backend : GrammarBackend G Row)

/-- The grammar takes tokens one by one and does not terminate before the last. -/
inductive Advances : G → List TokenId → G → Prop
  | nil (g : G) : Advances g [] g
  | cons {g g' g'' : G} {token : TokenId} {rest : List TokenId} :
    (backend.isTerminated g).1 = false → backend.acceptTokens g [token] = (true, g') →
      Advances g' rest g'' → Advances g (token :: rest) g''

/-- From a state on, a rollback undoes the last tokens, validated tokens are accepted one after
the other, and asking whether the grammar terminated has no effect. -/
structure Lawful (g : G) : Prop where
  rollback_undoes : ∀ taken g', taken ≠ [] → backend.Advances g taken g' →
    backend.rollback g' taken.length = g
  validated : ∀ tokens front token rest g',
    (backend.validateTokens g tokens).1 = front ++ token :: rest → backend.Advances g front g' →
      (backend.isTerminated g').1 = false → (backend.acceptTokens g' [token]).1 = true
  isTerminated_pure : ∀ taken g', backend.Advances g taken g' → (backend.isTerminated g').2 = g'

/-- Validated drafts, cut by the scheduler or padded. -/
def Trimmed (g : G) (drafts : List (Option TokenId)) : Prop :=
  ∃ tokens kept rest padding, (backend.validateTokens g tokens).1 = kept ++ rest ∧
    drafts = kept.map some ++ List.replicate padding none

variable {backend}

/-- Tokens taken behind tokens. -/
theorem Advances.append {g g' g'' : G} {front back : List TokenId}
    (h : backend.Advances g front g') (h' : backend.Advances g' back g'') :
    backend.Advances g (front ++ back) g'' := by
  induction h with
  | nil g => exact h'
  | cons hterm haccept _ ih => exact .cons hterm haccept (ih h')

end GrammarBackend

/-! ## The matcher of xgrammar keeps the promises -/

namespace XgrammarGrammar

variable (m : TokenMatcher Row)

/-- A grammar that takes a token. -/
private theorem acceptTokens_singleton {g g' : XgrammarGrammar} {token : TokenId}
    (hgoes : g.terminated = false) (h : (backend m).acceptTokens g [token] = (true, g')) :
    g' = { matcher := g.matcher ++ [token]
           numProcessedTokens := g.numProcessedTokens + 1
           terminated := m.isTerminated (g.matcher ++ [token]) } := by
  have hloop : (backend m).acceptTokens g [token] = acceptLoop m [token] g :=
    if_neg (by simp [hgoes])
  rw [hloop] at h
  unfold acceptLoop at h
  split at h
  · exact (Prod.mk.inj h).2.symm
  · cases (Prod.mk.inj h).1

/-- The matcher has taken the tokens that the grammar took. -/
theorem eq_of_advances {g g' : XgrammarGrammar} {taken : List TokenId}
    (h : (backend m).Advances g taken g') (hflag : g.terminated = m.isTerminated g.matcher) :
    g' = { matcher := g.matcher ++ taken
           numProcessedTokens := g.numProcessedTokens + taken.length
           terminated := m.isTerminated (g.matcher ++ taken) } := by
  induction h with
  | nil g => simp [← hflag]
  | cons hgoes haccept _ ih =>
    have hnext := acceptTokens_singleton m hgoes haccept
    rw [ih (by rw [hnext]), hnext]
    simp only [List.append_assoc, List.singleton_append, List.length_cons, Nat.cast_add,
      Nat.cast_one, XgrammarGrammar.mk.injEq, true_and, and_true]
    omega

/-- A validated token is accepted behind those in front of it. -/
private theorem acceptToken_of_validateLoop {tokens matcher front rest : List TokenId}
    {token : TokenId} (h : (validateLoop m tokens matcher).1 = front ++ token :: rest) :
    m.acceptToken (matcher ++ front) token = true := by
  induction tokens generalizing matcher front with
  | nil => simp [validateLoop] at h
  | cons first tokens ih =>
    unfold validateLoop at h
    split at h
    · rename_i haccept
      cases front with
      | nil =>
        rw [List.nil_append, List.cons.injEq] at h
        rw [List.append_nil, ← h.1]
        exact haccept
      | cons t front =>
        rw [List.cons_append, List.cons.injEq] at h
        have hback := ih h.2
        rwa [List.append_assoc, List.singleton_append, h.1] at hback
    · simp at h

/-- The backend of xgrammar is lawful wherever the flag is that of the matcher. -/
theorem lawful {g : XgrammarGrammar} (hflag : g.terminated = m.isTerminated g.matcher) :
    (backend m).Lawful g where
  rollback_undoes taken g' hne h := by
    have hgoes : g.terminated = false := by
      cases h with
      | nil => exact absurd rfl hne
      | cons hgoes _ _ => exact hgoes
    rw [eq_of_advances m h hflag]
    simp only [backend, rollbackMatcher_append, ← hflag, add_sub_cancel_right]
  validated tokens front token rest g' h hfront hgoes := by
    have haccept : m.acceptToken g'.matcher token = true := by
      rw [eq_of_advances m hfront hflag]
      exact acceptToken_of_validateLoop m h
    have hloop : (backend m).acceptTokens g' [token] = acceptLoop m [token] g' :=
      if_neg (by simpa [backend] using hgoes)
    rw [hloop, acceptLoop, if_pos haccept]
    rfl
  isTerminated_pure _ _ _ := rfl

end XgrammarGrammar

/-- `update_draft_token_ids` once the grammar is in charge. -/
def syncDrafts (backend : GrammarBackend G Row) (g : G) (specTokenIds : List TokenId) :
    List (Option TokenId) :=
  (backend.validateTokens g specTokenIds).1.map some

/-- `update_draft_token_ids_in_output` once the grammar is in charge: the drafts of a request
with `origNumSpecTokens` placeholders. -/
def paddedDrafts (backend : GrammarBackend G Row) (g : G) (origNumSpecTokens : Nat)
    (specTokenIds : List TokenId) : List (Option TokenId) :=
  let valid := (backend.validateTokens g (specTokenIds.take origNumSpecTokens)).1
  valid.map some ++ List.replicate (origNumSpecTokens - valid.length) none

/-- Drafts that the scheduler cut further after the validation. -/
theorem trimmed_syncDrafts (backend : GrammarBackend G Row) (g : G) (specTokenIds : List TokenId)
    (n : Nat) : backend.Trimmed g ((syncDrafts backend g specTokenIds).take n) := by
  refine ⟨specTokenIds, _, _, 0, (List.take_append_drop n _).symm, ?_⟩
  simp [syncDrafts, List.map_take]

/-- Padded drafts are validated ones with padding. -/
theorem trimmed_paddedDrafts (backend : GrammarBackend G Row) (g : G) (n : Nat)
    (specTokenIds : List TokenId) : backend.Trimmed g (paddedDrafts backend g n specTokenIds) :=
  ⟨specTokenIds.take n, _, [], _, (List.append_nil _).symm, rfl⟩

/-! ## The rows of one request -/

/-- Assigning the row behind those that are done. -/
theorem take_set_succ {rows : List Row} {k : Nat} (h : k < rows.length) (row : Row) :
    (rows.set k row).take (k + 1) = rows.take k ++ [row] := by
  rw [List.take_succ_eq_append_getElem (by simpa using h), List.take_set, List.getElem_set_self,
    List.set_eq_of_length_le (by simp)]

namespace BitmaskEnv

variable {env : BitmaskEnv G Row}

/-- The grammar behind a draft. -/
def advanceDraft (env : BitmaskEnv G Row) (applyBitmask : Bool) (g : G) : Option TokenId → G
  | none => g
  | some token =>
    if applyBitmask && !(env.backend.isTerminated g).1 then (env.backend.acceptTokens g [token]).2
    else g

/-- The rows of a request: one before each draft and one behind the last. -/
def draftRows (env : BitmaskEnv G Row) (applyBitmask : Bool) (g : G) :
    List (Option TokenId) → List Row
  | [] => [(env.fillRow g applyBitmask).1]
  | token :: rest => (env.fillRow g applyBitmask).1 ::
      draftRows env (applyBitmask && token.isSome) (env.advanceDraft applyBitmask g token) rest

@[simp] theorem length_draftRows (applyBitmask : Bool) (g : G) (drafts : List (Option TokenId)) :
    (env.draftRows applyBitmask g drafts).length = 1 + drafts.length := by
  induction drafts generalizing applyBitmask g with
  | nil => rfl
  | cons token rest ih => simp [draftRows, ih, Nat.add_comm]

/-- Without mask every row is full. -/
theorem getElem?_draftRows_off (env : BitmaskEnv G Row) (g : G)
    (drafts : List (Option TokenId)) {i : Nat} (hi : i < 1 + drafts.length) :
    (env.draftRows false g drafts)[i]? = some env.fullMask := by
  induction drafts generalizing g i with
  | nil =>
    obtain rfl : i = 0 := by simpa using hi
    rfl
  | cons token rest ih =>
    cases i with
    | zero => rfl
    | succ i =>
      rw [List.length_cons] at hi
      exact ih _ (by omega)

/-- Behind drafts that advance the grammar, the row is what the grammar allows next. -/
theorem getElem?_draftRows {g g' : G} {valid : List TokenId} (rest : List (Option TokenId))
    (hvalid : env.backend.Advances g valid g') (hgoes : (env.backend.isTerminated g').1 = false)
    (hpure : (env.backend.isTerminated g').2 = g') :
    (env.draftRows true g (valid.map some ++ rest))[valid.length]? =
      some (env.backend.fillBitmask g') := by
  induction hvalid with
  | nil g =>
    have hrow : (env.fillRow g true).1 = env.backend.fillBitmask g := by
      simp [fillRow, hgoes, hpure]
    cases rest <;> simp [draftRows, hrow]
  | cons hterm haccept _ ih =>
    simp only [List.map_cons, List.cons_append, draftRows, List.length_cons,
      List.getElem?_cons_succ]
    simpa [advanceDraft, hterm, haccept] using ih hgoes hpure

/-- Every draft at which the mask is on and the grammar goes on is accepted. -/
def Accepts (env : BitmaskEnv G Row) (applyBitmask : Bool) (g : G) : List (Option TokenId) → Prop
  | [] => True
  | none :: rest => Accepts env false g rest
  | some token :: rest =>
    (applyBitmask = true → (env.backend.isTerminated g).1 = false →
      (env.backend.acceptTokens g [token]).1 = true) ∧
    Accepts env applyBitmask (env.advanceDraft applyBitmask g (some token)) rest

/-- Without mask nothing has to be accepted. -/
theorem accepts_of_off (g : G) (drafts : List (Option TokenId)) : env.Accepts false g drafts := by
  induction drafts with
  | nil => trivial
  | cons token rest ih =>
    cases token with
    | none => exact ih
    | some token => exact ⟨fun h => absurd h Bool.false_ne_true, ih⟩

/-- Nor behind the end of the grammar. -/
private theorem accepts_of_terminated {g : G} (hterm : (env.backend.isTerminated g).1 = true)
    (applyBitmask : Bool) (drafts : List (Option TokenId)) : env.Accepts applyBitmask g drafts := by
  induction drafts with
  | nil => trivial
  | cons token rest ih =>
    cases token with
    | none => exact accepts_of_off g rest
    | some token =>
      have hstay : env.advanceDraft applyBitmask g (some token) = g := by
        simp [advanceDraft, hterm]
      refine ⟨fun _ hgoes => absurd (hgoes.symm.trans hterm) Bool.false_ne_true, ?_⟩
      rw [hstay]
      exact ih

/-- Drafts that were trimmed against the state of the grammar are accepted. -/
theorem accepts_of_trimmed {g : G} (hlaw : env.backend.Lawful g)
    {drafts : List (Option TokenId)} (h : env.backend.Trimmed g drafts) (applyBitmask : Bool) :
    env.Accepts applyBitmask g drafts := by
  cases applyBitmask with
  | false => exact accepts_of_off g drafts
  | true =>
    obtain ⟨tokens, kept, rest, padding, hvalid, rfl⟩ := h
    -- the drafts in front of the current one have been taken
    suffices hsuffix : ∀ front kept g', (env.backend.validateTokens g tokens).1 =
        front ++ (kept ++ rest) → env.backend.Advances g front g' →
        env.Accepts true g' (kept.map some ++ List.replicate padding none) from
      hsuffix [] kept g hvalid (.nil g)
    intro front kept
    induction kept generalizing front with
    | nil =>
      intro g' _ _
      cases padding with
      | zero => trivial
      | succ padding => exact accepts_of_off g' _
    | cons token kept ih =>
      intro g' hvalid hfront
      by_cases hterm : (env.backend.isTerminated g').1 = true
      · exact accepts_of_terminated hterm true _
      · rw [Bool.not_eq_true] at hterm
        have haccepted := hlaw.validated tokens front token (kept ++ rest) g' hvalid hfront hterm
        have haccept : env.backend.acceptTokens g' [token] =
            (true, (env.backend.acceptTokens g' [token]).2) := Prod.ext haccepted rfl
        refine ⟨fun _ _ => haccepted, ?_⟩
        have hnext := ih (front ++ [token]) (env.backend.acceptTokens g' [token]).2
          (by simpa using hvalid) (hfront.append (.cons hterm haccept (.nil _)))
        simpa [advanceDraft, hterm] using hnext

/-- A row is the same whichever state asking leaves, and asking leaves the state. -/
theorem fillRow_snd {g : G} (hpure : (env.backend.isTerminated g).2 = g) (applyBitmask : Bool) :
    (env.fillRow g applyBitmask).2 = g := by
  unfold fillRow
  split
  · simp only
    split <;> exact hpure
  · rfl

/-- Writing a row that is in range. -/
theorem writeRow_eq_ok {rows : List Row} {index : Nat} (h : index < rows.length) (row : Row) :
    writeRow rows index row = .ok (rows.set index row) :=
  bind_ok_iff.mpr ⟨(), ensure_eq_ok.mpr h, rfl⟩

/-- What follows a row, for a draft that is accepted where the mask is on. -/
theorem takeDraft_eq_ok (d : DraftLoop G Row)
    (hpure : (env.backend.isTerminated d.grammar).2 = d.grammar) (token : Option TokenId)
    (haccept : ∀ t, token = some t → d.applyBitmask = true →
      (env.backend.isTerminated d.grammar).1 = false →
      (env.backend.acceptTokens d.grammar [t]).1 = true) :
    ∃ taken, env.takeDraft d token = .ok { d with
        grammar := env.advanceDraft d.applyBitmask d.grammar token
        applyBitmask := d.applyBitmask && token.isSome
        stateAdvancements := d.stateAdvancements + taken.length } ∧
      env.backend.Advances d.grammar taken (env.advanceDraft d.applyBitmask d.grammar token) := by
  obtain ⟨g, rows, index, applyBitmask, advancements⟩ := d
  simp only at haccept hpure ⊢
  cases token with
  | none => exact ⟨[], by simp [takeDraft, advanceDraft], .nil _⟩
  | some token =>
    cases applyBitmask with
    | false => exact ⟨[], by simp [takeDraft, acceptDraft, advanceDraft], .nil _⟩
    | true =>
      cases hterm : (env.backend.isTerminated g).1 with
      | true =>
        have hstay : env.advanceDraft true g (some token) = g := by simp [advanceDraft, hterm]
        rw [hstay]
        exact ⟨[], by simp [takeDraft, acceptDraft, hterm, hpure], .nil g⟩
      | false =>
        have haccepted := haccept token rfl rfl hterm
        have hmove : env.advanceDraft true g (some token) =
            (env.backend.acceptTokens g [token]).2 := by simp [advanceDraft, hterm]
        rw [hmove]
        refine ⟨[token], ?_, .cons hterm (Prod.ext haccepted rfl) (.nil _)⟩
        simp only [takeDraft, acceptDraft, hterm, hpure, if_true, Bool.false_eq_true, if_false]
        exact bind_ok_iff.mpr ⟨(), ensure_eq_ok.mpr haccepted, rfl⟩

/-- The loop over the drafts of a request writes its rows, and remembers how far it has taken
the grammar. -/
theorem foldlM_draftStep (drafts : List (Option TokenId)) (d : DraftLoop G Row)
    (hpure : ∀ taken g, env.backend.Advances d.grammar taken g → (env.backend.isTerminated g).2 = g)
    (haccept : env.Accepts d.applyBitmask d.grammar drafts)
    (hspace : d.cumulativeIndex + (1 + drafts.length) ≤ d.rows.length) :
    ∃ d' taken, (drafts ++ [none]).foldlM env.draftStep d = .ok d' ∧
      d'.rows.take d'.cumulativeIndex = d.rows.take d.cumulativeIndex ++
        env.draftRows d.applyBitmask d.grammar drafts ∧
      d'.rows.length = d.rows.length ∧
      d'.cumulativeIndex = d.cumulativeIndex + (1 + drafts.length) ∧
      env.backend.Advances d.grammar taken d'.grammar ∧
      d'.stateAdvancements = d.stateAdvancements + taken.length := by
  have hstep (d : DraftLoop G Row) (token : Option TokenId)
      (hpure : (env.backend.isTerminated d.grammar).2 = d.grammar)
      (hlt : d.cumulativeIndex < d.rows.length)
      (haccept : ∀ t, token = some t → d.applyBitmask = true →
        (env.backend.isTerminated d.grammar).1 = false →
        (env.backend.acceptTokens d.grammar [t]).1 = true) :
      ∃ taken, env.draftStep d token = .ok {
          grammar := env.advanceDraft d.applyBitmask d.grammar token
          rows := d.rows.set d.cumulativeIndex (env.fillRow d.grammar d.applyBitmask).1
          cumulativeIndex := d.cumulativeIndex + 1
          applyBitmask := d.applyBitmask && token.isSome
          stateAdvancements := d.stateAdvancements + taken.length } ∧
        env.backend.Advances d.grammar taken
          (env.advanceDraft d.applyBitmask d.grammar token) := by
    obtain ⟨taken, hrun, hadvances⟩ := takeDraft_eq_ok { d with
      rows := d.rows.set d.cumulativeIndex (env.fillRow d.grammar d.applyBitmask).1 } hpure token
      haccept
    refine ⟨taken, ?_, hadvances⟩
    simp only [draftStep, fillRow_snd hpure]
    exact bind_ok_iff.mpr ⟨_, writeRow_eq_ok hlt _, bind_ok_iff.mpr ⟨_, hrun, rfl⟩⟩
  induction drafts generalizing d with
  | nil =>
    rw [List.length_nil] at hspace
    obtain ⟨taken, hrun, hadvances⟩ := hstep d none (hpure [] _ (.nil _)) (by omega) (by simp)
    have hall : ([] ++ [none]).foldlM env.draftStep d = _ := bind_ok_iff.mpr ⟨_, hrun, rfl⟩
    refine ⟨_, taken, hall, ?_, ?_, ?_, hadvances, rfl⟩
    · exact take_set_succ (by omega) _
    · simp
    · simp
  | cons token rest ih =>
    rw [List.length_cons] at hspace
    have hhead : ∀ t, token = some t → d.applyBitmask = true →
        (env.backend.isTerminated d.grammar).1 = false →
        (env.backend.acceptTokens d.grammar [t]).1 = true := by
      rintro t rfl
      exact haccept.1
    have htail : env.Accepts (d.applyBitmask && token.isSome)
        (env.advanceDraft d.applyBitmask d.grammar token) rest := by
      cases token with
      | none => simpa [advanceDraft] using accepts_of_off d.grammar rest
      | some t => simpa using haccept.2
    obtain ⟨taken, hrun, hadvances⟩ := hstep d token (hpure [] _ (.nil _)) (by omega) hhead
    obtain ⟨d', taken', hrest, hrows, hlength, hindex, hadvances', hcount⟩ := ih {
        grammar := env.advanceDraft d.applyBitmask d.grammar token
        rows := d.rows.set d.cumulativeIndex (env.fillRow d.grammar d.applyBitmask).1
        cumulativeIndex := d.cumulativeIndex + 1
        applyBitmask := d.applyBitmask && token.isSome
        stateAdvancements := d.stateAdvancements + taken.length }
      (fun taken' g h => hpure _ g (hadvances.append h)) htail
      (by simp only [List.length_set]; omega)
    refine ⟨d', taken ++ taken', ?_, ?_, ?_, ?_, ?_, ?_⟩
    · simp only [List.cons_append, List.foldlM_cons]
      exact bind_ok_iff.mpr ⟨_, hrun, hrest⟩
    · rw [hrows]
      simp only [draftRows]
      rw [take_set_succ (by omega), List.append_assoc]
      rfl
    · simpa using hlength
    · simp only [List.length_cons] at hindex ⊢
      omega
    · exact hadvances.append hadvances'
    · simp only [List.length_append] at hcount ⊢
      omega

/-! ## Both fills -/

/-- Deciding about the mask leaves the grammar alone. -/
@[simp] theorem grammar_shouldFillBitmask (manager : StructuredOutputManager) (request : Request H)
    (structured : StructuredOutputRequest G) :
    (manager.shouldFillBitmask request structured).2.grammar = structured.grammar := by
  unfold StructuredOutputManager.shouldFillBitmask
  repeat' split
  all_goals rfl

/-- The decision about the mask of a request. -/
def decision (env : BitmaskEnv G Row) (requests : RequestId → Request H) (s : BitmaskState G Row)
    (requestId : RequestId) : Bool × StructuredOutputRequest G :=
  env.manager.shouldFillBitmask (requests requestId) (s.structured requestId)

/-- The rows that belong to a request. -/
def requestRows (env : BitmaskEnv G Row) (requests : RequestId → Request H)
    (drafts : RequestId → List (Option TokenId)) (s : BitmaskState G Row) (requestId : RequestId) :
    List Row :=
  env.draftRows (env.decision requests s requestId).1 (s.structured requestId).grammar
    (drafts requestId)

/-- The requests behind the decisions about the masks. -/
def decideAll (env : BitmaskEnv G Row) (requests : RequestId → Request H) (s : BitmaskState G Row)
    (requestIds : List RequestId) : RequestId → StructuredOutputRequest G := fun requestId =>
  if requestId ∈ requestIds then (env.decision requests s requestId).2 else s.structured requestId

variable {requests : RequestId → Request H} {drafts : RequestId → List (Option TokenId)}
  {s : BitmaskState G Row}

/-- Filling the rows of one request takes its grammar back to where it was. -/
theorem fillRequest_eq_ok (requests : RequestId → Request H) {requestId : RequestId} {index : Nat}
    (hlaw : env.backend.Lawful (s.structured requestId).grammar)
    (haccept : env.Accepts (env.decision requests s requestId).1 (s.structured requestId).grammar
      (drafts requestId))
    (hspace : index + (1 + (drafts requestId).length) ≤ s.bitmask.length) :
    ∃ rows, env.fillRequest (requests requestId) (drafts requestId) requestId s index = .ok
        ({ structured := Function.update s.structured requestId
            (env.decision requests s requestId).2
           bitmask := rows }, index + (1 + (drafts requestId).length)) ∧
      rows.length = s.bitmask.length ∧
      rows.take (index + (1 + (drafts requestId).length)) =
        s.bitmask.take index ++ env.requestRows requests drafts s requestId := by
  have hgrammar : (env.decision requests s requestId).2.grammar =
      (s.structured requestId).grammar :=
    grammar_shouldFillBitmask _ _ _
  obtain ⟨d, taken, hrun, hrows, hlength, hindex, hadvances, hcount⟩ :=
    foldlM_draftStep (drafts requestId) {
      grammar := (env.decision requests s requestId).2.grammar
      rows := s.bitmask
      cumulativeIndex := index
      applyBitmask := (env.decision requests s requestId).1 }
      (by simpa only [hgrammar] using hlaw.isTerminated_pure) (by rwa [hgrammar]) hspace
  simp only [Nat.zero_add] at hcount hindex hadvances hrows
  have hback : (if 0 < d.stateAdvancements then
      env.backend.rollback d.grammar d.stateAdvancements else d.grammar) =
      (env.decision requests s requestId).2.grammar := by
    rw [hcount]
    generalize d.grammar = g at hadvances ⊢
    cases hadvances with
    | nil => rfl
    | cons hterm haccept hrest =>
      rw [if_pos (by simp)]
      rw [← hgrammar] at hlaw
      exact hlaw.rollback_undoes _ _ (by simp) (.cons hterm haccept hrest)
  refine ⟨d.rows, ?_, hlength, ?_⟩
  · simp only [fillRequest]
    refine bind_ok_iff.mpr ⟨d, hrun, ?_⟩
    rw [hback, hindex]
    rfl
  · rw [← hindex, hrows, requestRows, hgrammar]

/-- The serial fill writes the rows of the requests one after the other. -/
theorem serialFill_eq_ok {requestIds : List RequestId} (hnodup : requestIds.Nodup) (index : Nat)
    (hlaw : ∀ requestId ∈ requestIds, env.backend.Lawful (s.structured requestId).grammar)
    (haccept : ∀ requestId ∈ requestIds, env.Accepts (env.decision requests s requestId).1
      (s.structured requestId).grammar (drafts requestId))
    (hspace : index + (requestIds.map fun r => 1 + (drafts r).length).sum ≤ s.bitmask.length) :
    ∃ rows, env.serialFill requests drafts requestIds s index = .ok
        ({ structured := env.decideAll requests s requestIds, bitmask := rows },
          index + (requestIds.map fun r => 1 + (drafts r).length).sum) ∧
      rows.take (index + (requestIds.map fun r => 1 + (drafts r).length).sum) =
        s.bitmask.take index ++ requestIds.flatMap (env.requestRows requests drafts s) := by
  induction requestIds generalizing s index with
  | nil =>
    have hall : env.decideAll requests s [] = s.structured := by
      funext r
      simp [decideAll]
    exact ⟨s.bitmask, by simp [serialFill, hall], by simp⟩
  | cons requestId rest ih =>
    obtain ⟨hnot, hnodup'⟩ := List.nodup_cons.mp hnodup
    rw [List.map_cons, List.sum_cons, ← Nat.add_assoc] at hspace
    obtain ⟨rows, hrun, hlength, hrows⟩ := fillRequest_eq_ok requests
      (hlaw requestId (by simp)) (haccept requestId (by simp))
      (le_trans (Nat.le_add_right _ _) hspace)
    obtain ⟨next, hnext⟩ : ∃ next : BitmaskState G Row, next = {
        structured := Function.update s.structured requestId (env.decision requests s requestId).2
        bitmask := rows } := ⟨_, rfl⟩
    -- the other requests do not notice
    have hother (r : RequestId) (hr : r ∈ rest) : next.structured r = s.structured r := by
      have hne : r ≠ requestId := fun he => hnot (he ▸ hr)
      rw [hnext]
      exact Function.update_of_ne hne _ _
    have hdecision (r : RequestId) (hr : r ∈ rest) :
        env.decision requests next r = env.decision requests s r := by
      rw [decision, hother r hr, decision]
    have haccept' (r : RequestId) (hr : r ∈ rest) : env.Accepts (env.decision requests next r).1
        (next.structured r).grammar (drafts r) := by
      rw [hdecision r hr, hother r hr]
      exact haccept r (List.mem_cons_of_mem _ hr)
    have hlaw' (r : RequestId) (hr : r ∈ rest) : env.backend.Lawful (next.structured r).grammar :=
      hother r hr ▸ hlaw r (List.mem_cons_of_mem _ hr)
    have hspace' : index + (1 + (drafts requestId).length) +
        (rest.map fun r => 1 + (drafts r).length).sum ≤ next.bitmask.length := by
      rw [hnext, hlength]
      exact hspace
    obtain ⟨rows', hrest, hrows'⟩ := ih hnodup' _ hlaw' haccept' hspace'
    refine ⟨rows', ?_, ?_⟩
    · simp only [serialFill, List.map_cons, List.sum_cons]
      rw [← Nat.add_assoc]
      refine bind_ok_iff.mpr ⟨_, hrun, ?_⟩
      rw [← hnext, hrest]
      congr 3
      funext r
      by_cases hr : r ∈ rest
      · simp [decideAll, hr, hdecision r hr]
      · by_cases he : r = requestId
        · subst he
          simp [decideAll, hr, hnext]
        · simp [decideAll, hr, he, hnext]
    · rw [List.map_cons, List.sum_cons, ← Nat.add_assoc, List.flatMap_cons, hrows', hnext, hrows,
        List.append_assoc]
      congr 2
      refine List.flatMap_congr fun r hr => ?_
      rw [← hnext, requestRows, hdecision r hr, hother r hr, requestRows]

/-- The entries of the parallel fill, one row each. -/
theorem fillTasks_eq (env : BitmaskEnv G Row) (requests : RequestId → Request H)
    {requestIds : List RequestId} (hnodup : requestIds.Nodup) (s : BitmaskState G Row)
    (index : Nat) : env.fillTasks requests requestIds s index =
      ((requestIds.zipIdx index).map fun e => ⟨e.1, e.2, (env.decision requests s e.1).1⟩,
        { s with structured := env.decideAll requests s requestIds }) := by
  induction requestIds generalizing s index with
  | nil =>
    have hall : env.decideAll requests s [] = s.structured := by
      funext r
      simp [decideAll]
    simp [fillTasks, hall]
  | cons requestId rest ih =>
    obtain ⟨hnot, hnodup'⟩ := List.nodup_cons.mp hnodup
    obtain ⟨next, hnext⟩ : ∃ next : BitmaskState G Row, next = { s with
        structured := Function.update s.structured requestId
          (env.decision requests s requestId).2 } := ⟨_, rfl⟩
    have hdecision (r : RequestId) (hr : r ∈ rest) :
        env.decision requests next r = env.decision requests s r := by
      have hne : r ≠ requestId := fun he => hnot (he ▸ hr)
      have hother : next.structured r = s.structured r := by
        rw [hnext]
        exact Function.update_of_ne hne _ _
      rw [decision, hother, decision]
    have hrest := ih hnodup' next (index + 1)
    have hstart : env.fillTasks requests (requestId :: rest) s index =
        (⟨requestId, index, (env.decision requests s requestId).1⟩ ::
          (env.fillTasks requests rest next (index + 1)).1,
          (env.fillTasks requests rest next (index + 1)).2) := by
      rw [hnext]
      rfl
    rw [hstart, hrest, List.zipIdx_cons, List.map_cons]
    refine Prod.ext ?_ ?_
    · refine List.cons_eq_cons.mpr ⟨rfl, List.map_congr_left fun e he => ?_⟩
      rw [hdecision e.1 (List.fst_mem_of_mem_zipIdx he)]
    · have hbitmask : next.bitmask = s.bitmask := by rw [hnext]
      simp only [hbitmask]
      congr 1
      funext r
      by_cases hr : r ∈ rest
      · simp [decideAll, hr, hdecision r hr]
      · by_cases he : r = requestId
        · subst he
          simp [decideAll, hr, hnext]
        · simp [decideAll, hr, he, hnext]

/-- Entries with different rows, worked off in any order. -/
theorem foldlM_fillTask {tasks : List FillTask}
    (hpure : ∀ task ∈ tasks, (env.backend.isTerminated (s.structured task.requestId).grammar).2 =
      (s.structured task.requestId).grammar)
    (hnodup : (tasks.map FillTask.index).Nodup)
    (hspace : ∀ task ∈ tasks, task.index < s.bitmask.length) :
    ∃ rows, tasks.foldlM env.fillTask s = .ok { s with bitmask := rows } ∧
      (∀ task ∈ tasks, rows[task.index]? =
        some (env.fillRow (s.structured task.requestId).grammar task.applyBitmask).1) ∧
      ∀ i, i ∉ tasks.map FillTask.index → rows[i]? = s.bitmask[i]? := by
  induction tasks generalizing s with
  | nil => exact ⟨s.bitmask, rfl, by simp, by simp⟩
  | cons task rest ih =>
    rw [List.map_cons, List.nodup_cons] at hnodup
    obtain ⟨hnot, hnodup'⟩ := hnodup
    obtain ⟨row, hrow⟩ : ∃ row, row =
        (env.fillRow (s.structured task.requestId).grammar task.applyBitmask).1 := ⟨_, rfl⟩
    have hstep : env.fillTask s task = .ok { s with bitmask := s.bitmask.set task.index row } := by
      refine bind_ok_iff.mpr ⟨_, writeRow_eq_ok (hspace task (by simp)) _, ?_⟩
      rw [fillRow_snd (hpure task (by simp)), Function.update_eq_self, ← hrow]
      rfl
    obtain ⟨rows, hrun, hwritten, hkept⟩ := ih
      (s := { s with bitmask := s.bitmask.set task.index row })
      (fun t ht => hpure t (List.mem_cons_of_mem _ ht)) hnodup'
      fun t ht => by simpa using hspace t (List.mem_cons_of_mem _ ht)
    refine ⟨rows, ?_, ?_, ?_⟩
    · rw [List.foldlM_cons]
      exact bind_ok_iff.mpr ⟨_, hstep, hrun⟩
    · intro t ht
      rcases List.mem_cons.mp ht with rfl | ht
      · rw [hkept t.index hnot, List.getElem?_set_self (hspace t (by simp)), hrow]
      · exact hwritten t ht
    · intro i hi
      rw [List.map_cons, List.mem_cons, not_or] at hi
      rw [hkept i hi.2, List.getElem?_set_ne (Ne.symm hi.1)]

/-- In whatever order the threads work, the parallel fill writes one row for each request. -/
theorem parallelFill_eq_ok (requests : RequestId → Request H)
    {threads : List FillTask → List FillTask} (hthreads : ∀ tasks, (threads tasks).Perm tasks)
    {requestIds : List RequestId} (hnodup : requestIds.Nodup)
    (hlaw : ∀ r ∈ requestIds, env.backend.Lawful (s.structured r).grammar)
    (hspace : requestIds.length ≤ s.bitmask.length) :
    ∃ rows, env.parallelFill threads requests requestIds s = .ok
        ({ structured := env.decideAll requests s requestIds, bitmask := rows },
          requestIds.length) ∧
      rows.take requestIds.length =
        requestIds.flatMap (env.requestRows requests (fun _ => []) s) := by
  obtain ⟨tasks, htasks⟩ : ∃ tasks : List FillTask, tasks = (requestIds.zipIdx 0).map fun e =>
      ⟨e.1, e.2, (env.decision requests s e.1).1⟩ := ⟨_, rfl⟩
  obtain ⟨start, hstart⟩ : ∃ start : BitmaskState G Row, start =
      { s with structured := env.decideAll requests s requestIds } := ⟨_, rfl⟩
  have hindices : tasks.map FillTask.index = List.range requestIds.length := by
    rw [htasks, List.map_map]
    exact List.zipIdx_map_snd 0 requestIds |>.trans (List.range_eq_range'.symm)
  have hperm := hthreads tasks
  have hgrammar (r : RequestId) : (start.structured r).grammar = (s.structured r).grammar := by
    rw [hstart]
    simp only [decideAll]
    split
    · exact grammar_shouldFillBitmask _ _ _
    · rfl
  have hdistinct : ((threads tasks).map FillTask.index).Nodup :=
    (hperm.map FillTask.index).nodup_iff.mpr (hindices ▸ List.nodup_range)
  have hpure (task : FillTask) (htask : task ∈ threads tasks) :
      (env.backend.isTerminated (start.structured task.requestId).grammar).2 =
        (start.structured task.requestId).grammar := by
    rw [hperm.mem_iff, htasks] at htask
    obtain ⟨e, he, rfl⟩ := List.mem_map.mp htask
    rw [hgrammar]
    exact (hlaw e.1 (List.fst_mem_of_mem_zipIdx he)).isTerminated_pure [] _ (.nil _)
  obtain ⟨rows, hrun, hwritten, -⟩ := foldlM_fillTask (s := start) hpure hdistinct
    fun task htask => by
      have hmem : task.index ∈ tasks.map FillTask.index :=
        List.mem_map_of_mem (hperm.mem_iff.mp htask)
      rw [hindices, List.mem_range] at hmem
      rw [hstart]
      exact lt_of_lt_of_le hmem hspace
  refine ⟨rows, ?_, ?_⟩
  · simp only [parallelFill, fillTasks_eq env requests hnodup]
    rw [← htasks, ← hstart]
    refine bind_ok_iff.mpr ⟨_, hrun, ?_⟩
    rw [hstart]
    rfl
  · have hrow (i : Nat) (hi : i < requestIds.length) : rows[i]? =
        (requestIds.map fun r =>
          (env.fillRow (s.structured r).grammar (env.decision requests s r).1).1)[i]? := by
      have hmem : (⟨requestIds[i], i, (env.decision requests s requestIds[i]).1⟩ : FillTask) ∈
          threads tasks := by
        rw [hperm.mem_iff, htasks]
        exact List.mem_map.mpr ⟨(requestIds[i], i), by simp [List.mk_mem_zipIdx_iff_getElem?], rfl⟩
      have hentry := hwritten _ hmem
      simp only [hgrammar] at hentry
      rw [hentry, List.getElem?_map, List.getElem?_eq_getElem hi]
      rfl
    have hflat : requestIds.flatMap (env.requestRows requests (fun _ => []) s) =
        requestIds.map fun r =>
          (env.fillRow (s.structured r).grammar (env.decision requests s r).1).1 := by
      rw [List.map_eq_flatMap]
      rfl
    rw [hflat]
    refine List.ext_getElem? fun i => ?_
    by_cases hi : i < requestIds.length
    · rw [List.getElem?_take_of_lt hi, hrow i hi]
    · rw [List.getElem?_take_eq_none (by omega), List.getElem?_eq_none (by simpa using hi)]

/-- Whichever fill is chosen, the bitmask has the rows of the requests in their order, and
every grammar is where it was. -/
theorem fill_eq_ok (requests : RequestId → Request H)
    {threads : List FillTask → List FillTask} (hthreads : ∀ tasks, (threads tasks).Perm tasks)
    {requestIds : List RequestId} (hnodup : requestIds.Nodup)
    (hlaw : ∀ r ∈ requestIds, env.backend.Lawful (s.structured r).grammar)
    (hseqs : requestIds.length ≤ env.maxNumSeqs)
    (hdrafts : ∀ r ∈ requestIds, (drafts r).length ≤ env.numSpeculativeTokens)
    (halloc : s.bitmask.length = env.maxNumSeqs * (1 + env.numSpeculativeTokens))
    (haccept : ∀ r ∈ requestIds, env.Accepts (env.decision requests s r).1
      (s.structured r).grammar (drafts r)) :
    ∃ rows, env.fill threads requests drafts requestIds s = .ok
        ({ structured := env.decideAll requests s requestIds, bitmask := rows },
          (requestIds.map fun r => 1 + (drafts r).length).sum) ∧
      rows.take (requestIds.map fun r => 1 + (drafts r).length).sum =
        requestIds.flatMap (env.requestRows requests drafts s) := by
  have hsum : (requestIds.map fun r => 1 + (drafts r).length).sum ≤ s.bitmask.length := by
    have hbound := List.sum_le_card_nsmul (requestIds.map fun r => 1 + (drafts r).length)
      (1 + env.numSpeculativeTokens) (by simpa using hdrafts)
    rw [List.length_map, smul_eq_mul] at hbound
    rw [halloc]
    exact hbound.trans (Nat.mul_le_mul_right _ hseqs)
  unfold fill
  split
  · rename_i hparallel
    have hempty (r : RequestId) (hr : r ∈ requestIds) : drafts r = [] := by
      have hle := hdrafts r hr
      rw [hparallel.2] at hle
      exact List.length_eq_zero_iff.mp (Nat.le_zero.mp hle)
    have htotal : (requestIds.map fun r => 1 + (drafts r).length).sum = requestIds.length := by
      rw [List.map_congr_left fun r hr => by rw [hempty r hr]]
      simp
    obtain ⟨rows, hrun, hrows⟩ :=
      parallelFill_eq_ok requests hthreads hnodup hlaw (htotal ▸ hsum)
    refine ⟨rows, htotal ▸ hrun, ?_⟩
    rw [htotal, hrows]
    exact List.flatMap_congr fun r hr => by rw [requestRows, requestRows, hempty r hr]
  · obtain ⟨rows, hrun, hrows⟩ := serialFill_eq_ok hnodup 0 hlaw haccept
      (by rwa [Nat.zero_add])
    rw [Nat.zero_add] at hrun hrows
    exact ⟨rows, hrun, by simpa using hrows⟩

end BitmaskEnv

end Vllm
