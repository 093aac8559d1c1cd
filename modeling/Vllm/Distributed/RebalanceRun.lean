import Vllm.Distributed.RebalanceInvariant

/-!
# Runs of asynchronous rebalancing

Two races break the hand-over. The background thread may test the flags of a model whose last
layer was just moved, and then wait for the lock with nothing left to do. And the main thread may
set the event of the next rearrangement while the background thread is about to clear it, or has
passed a model. In a run without these, no assertion fails, every rearrangement moves every
layer once and in order, and the background thread is never left waiting.
-/

namespace Vllm.Distributed

open Checked EplbModelState

variable {R : Type}

/-! ## What is asked of a state -/

/-- The main thread is in `rearrange` and has not set the event. -/
def MainPc.rearranging : MainPc → Bool
  | .rearrange _ _ | .setEvent => true
  | _ => false

/-- The main thread has moved the last layer of a model, or is just counting it. -/
def MainPc.finishing (i : Nat) : MainPc → Bool
  | .move i' .resetReady | .move i' .lastLayerTest | .move i' .postEplb
  | .move i' .resetRebalanced => i' = i
  | _ => false

/-- The statement is the test of the flags. -/
def LoopStmt.testsFlags : LoopStmt R → Bool
  | .flagTest => true
  | _ => false

/-- The background thread waits for the event. -/
def WorkerPc.waits : WorkerPc R → Bool
  | .wait => true
  | _ => false

/-- The background thread has ended. -/
def WorkerPc.hasFailed : WorkerPc R → Bool
  | .failed => true
  | _ => false

/-- The background thread is in front of a model, or at it. -/
def WorkerPc.reaches (i : Nat) : WorkerPc R → Bool
  | .nextModel j => j ≤ i
  | .loop l => l.model ≤ i
  | _ => false

namespace EplbState

variable (config : EplbConfig R) (s : EplbState R)

/-- The background thread waits for an event that is not set, though a model is still marked. The
main thread is not about to set the event, nor about to unmark the model. -/
def Stalled : Prop :=
  s.worker.waits = true ∧ s.rearrangeEvent = false ∧ s.main.rearranging = false ∧
    ∃ i < config.numModels, (s.models i).rebalanced = true ∧ s.main.finishing i = false

/-- What is asked of every state: no assertion of the background thread fails, a layer is
transferred with the maps of the rearrangement in progress, every rearrangement moves every layer
from the buffer once and in order, and the background thread is not left waiting. -/
structure Sound : Prop where
  alive : s.worker.hasFailed = false
  transfer : ∀ l layer old new, s.worker = .loop l → l.stmt = .transferLayer layer old new →
    let m := s.models l.model
    m.rebalanced = true ∧ layer = m.layerToTransfer ∧ layer < config.numMoeLayers l.model ∧
      old = m.physicalToLogicalMap layer ∧ new = m.newMapOf config l.model m.generation layer
  past : ∀ i < config.numModels, ∀ g, 0 < g → g < (s.models i).generation →
    (s.models i).moves g = (s.models i).firstMoves config i g (config.numMoeLayers i)
  present : ∀ i < config.numModels, 0 < (s.models i).generation →
    ∃ k ≤ config.numMoeLayers i, (s.models i).moves (s.models i).generation =
        (s.models i).firstMoves config i (s.models i).generation k ∧
      ((s.models i).rebalanced = false → s.main.rearranging = false →
        k = config.numMoeLayers i)
  awake : ¬ s.Stalled config

/-- The steps without a race: the event is set while the background thread waits or is still at
the first model, and a test of the flags passes only while a layer is left. -/
def InTime : EplbThread → Prop
  | .main => s.main = .setEvent → s.worker.waits = true ∨ s.worker.reaches 0 = true
  | .worker => ∀ l, s.worker = .loop l → l.stmt = .flagTest →
    (s.models l.model).epBufferReady = false → (s.models l.model).rebalanced = true →
      (s.models l.model).layerToTransfer < config.numMoeLayers l.model

end EplbState

/-- Whether a step is without a race can be computed. -/
instance (config : EplbConfig R) (s : EplbState R) (thread : EplbThread) :
    Decidable (s.InTime config thread) :=
  match thread with
  | .main => inferInstanceAs (Decidable (_ → _))
  | .worker =>
    match hworker : s.worker with
    | .loop l =>
      decidable_of_iff (l.stmt.testsFlags = true → (s.models l.model).epBufferReady = false →
        (s.models l.model).rebalanced = true →
          (s.models l.model).layerToTransfer < config.numMoeLayers l.model) <| by
        have htests : l.stmt.testsFlags = true ↔ l.stmt = .flagTest := by
          cases l.stmt <;> simp [LoopStmt.testsFlags]
        simp [EplbState.InTime, hworker, htests]
    | .wait | .nextModel _ | .clear | .failed =>
      isTrue fun l hl => by rw [hworker] at hl; cases hl

/-! ## The invariant -/

/-- The model of a place of the main thread. -/
def MainPc.model : MainPc → Option Nat
  | .readyTest i _ | .move i _ | .rearrange i _ => some i
  | _ => none

/-- What holds in every state of a run without a race. -/
structure Running (config : EplbConfig R) (s : EplbState R) : Prop where
  alive : s.worker.hasFailed = false
  stage : ∀ i < config.numModels,
    (s.models i).Stage config i (s.main.view i) (s.worker.looping i)
  locks : ∀ i < config.numModels, Locks (s.main.view i) (s.worker.looping i) (s.models i)
  history : ∀ i < config.numModels, (s.models i).History config i
  place : ∀ i, s.main.model = some i → i < config.numModels
  loopPlace : ∀ l, s.worker = .loop l → l.model < config.numModels
  unmarked : ∀ i stmt, s.main = .rearrange i stmt →
    ∀ j < config.numModels, i < j → (s.models j).rebalanced = false
  awake : ∀ i < config.numModels, (s.models i).rebalanced = true →
    (s.models i).layerToTransfer < config.numMoeLayers i →
      s.main.rearranging = true ∨ s.worker.waits = true ∧ s.rearrangeEvent = true ∨
        s.worker.reaches i = true

variable {config : EplbConfig R} {s s' : EplbState R}

private theorem init_running (config : EplbConfig R) (maps : Nat → Nat → R) :
    Running config (EplbState.init maps) where
  alive := rfl
  stage i _ := .idle (by simp [EplbState.init, MainPc.view]) (fun _ h => by cases h)
    ⟨rfl, rfl, rfl, rfl⟩ (Or.inl rfl)
  locks i _ := ⟨by simp [EplbState.init, MainPc.view, MainView.holdsLock],
    by simp [EplbState.init, WorkerPc.looping]⟩
  history i _ := ⟨fun g _ hlt => absurd hlt (Nat.not_lt_zero g), fun g _ => rfl⟩
  place i h := by cases h
  loopPlace l h := by cases h
  unmarked i stmt h := by cases h
  awake i _ h := by cases h

/-! ## Steps of the background thread -/

/-- A step of the background thread between two loops. -/
theorem Running.workerPlace (h : Running config s) {worker : WorkerPc R} {rearrangeEvent : Bool}
    (hfrom : ∀ i, s.worker.looping i = none) (hto : ∀ i, worker.looping i = none)
    (halive : worker.hasFailed = false) (hloop : ∀ l, worker ≠ .loop l)
    (hawake : ∀ i < config.numModels, s.main.rearranging = true ∨
      s.worker.waits = true ∧ s.rearrangeEvent = true ∨ s.worker.reaches i = true →
        s.main.rearranging = true ∨ worker.waits = true ∧ rearrangeEvent = true ∨
          worker.reaches i = true) :
    Running config { s with worker, rearrangeEvent } where
  alive := halive
  stage i hi := by
    have hstage := h.stage i hi
    rw [hfrom] at hstage
    simpa only [hto] using hstage
  locks i hi := by
    have hlocks := h.locks i hi
    rw [hfrom] at hlocks
    simpa only [hto] using hlocks
  history := h.history
  place := h.place
  loopPlace l hl := absurd hl (hloop l)
  unmarked := h.unmarked
  awake i hi hmarked hlayer := hawake i hi (h.awake i hi hmarked hlayer)

/-- A statement of the loop over the layers of a model. -/
theorem Running.loop (hlayers : ∀ i < config.numModels, 0 < config.numMoeLayers i)
    (h : Running config s) (htime : s.InTime config .worker) {l : LayerLoop R}
    (hworker : s.worker = .loop l) {m' : EplbModelState R} {worker : WorkerPc R}
    (hstep : l.step config (s.models l.model) = some (m', worker)) :
    Running config { s with worker, models := Function.update s.models l.model m' } := by
  have hi := h.loopPlace l hworker
  have hlooping : s.worker.looping l.model = some l := by simp [hworker, WorkerPc.looping]
  have hother {i : Nat} (hne : i ≠ l.model) : s.worker.looping i = none := by
    simp [hworker, WorkerPc.looping, Ne.symm hne]
  have hstage := h.stage l.model hi
  have hlocks := h.locks l.model hi
  rw [hlooping] at hstage hlocks
  obtain ⟨hmarked', hlayer', hgeneration, hstart, hmoves⟩ := LayerLoop.step_frame hstep
  have hresult := hstage.loop (hlayers _ hi) rfl hlocks (htime l hworker) hstep
  -- The loop's model is at a stage again, and the others do not see the step.
  have hplaces : worker.hasFailed = false ∧ (∀ i ≠ l.model, worker.looping i = none) ∧
      (∀ l', worker = .loop l' → l'.model = l.model) ∧
      m'.Stage config l.model (s.main.view l.model) (worker.looping l.model) ∧
      Locks (s.main.view l.model) (worker.looping l.model) m' ∧
      ∀ i, (s.models l.model).rebalanced = true ∧
        (s.models l.model).layerToTransfer < config.numMoeLayers l.model ∨ i ≠ l.model →
          l.model ≤ i → worker.reaches i = true := by
    cases hresult with
    | next l' hl' hmodel hstage' hlocks' =>
      subst hl'
      have hown : WorkerPc.looping l.model (.loop l') = some l' := by
        simp [WorkerPc.looping, hmodel]
      refine ⟨rfl, fun i hne => by simp [WorkerPc.looping, hmodel, Ne.symm hne],
        fun l'' hl'' => by cases hl''; exact hmodel, by rwa [hown], by rwa [hown],
        fun i _ hle => ?_⟩
      simpa [WorkerPc.reaches, hmodel] using hle
    | left hl' hdone hstage' hlocks' =>
      subst hl'
      refine ⟨rfl, fun _ _ => rfl, fun l'' hl'' => (by cases hl''), hstage', hlocks',
        fun i hcase hle => ?_⟩
      have hne : i ≠ l.model := hcase.resolve_left hdone
      simp only [WorkerPc.reaches, decide_eq_true_eq]
      omega
  obtain ⟨halive, hnone, hmodel, hstage', hlocks', hreaches⟩ := hplaces
  refine ⟨halive, fun i hi' => ?_, fun i hi' => ?_, fun i hi' => ?_, h.place,
    fun l' hl' => hmodel l' hl' ▸ hi, fun i stmt hmain j hj hlt => ?_,
    fun i hi' hmarked hlayer => ?_⟩
  · by_cases hne : i = l.model
    · subst hne
      simpa using hstage'
    · have hstage := h.stage i hi'
      rw [hother hne] at hstage
      simpa [Function.update_of_ne hne, hnone i hne] using hstage
  · by_cases hne : i = l.model
    · subst hne
      simpa using hlocks'
    · have hlocks := h.locks i hi'
      rw [hother hne] at hlocks
      simpa [Function.update_of_ne hne, hnone i hne] using hlocks
  · by_cases hne : i = l.model
    · subst hne
      have hhistory := h.history l.model hi
      simp only [Function.update_self]
      refine ⟨fun g hpos hlt => ?_, fun g hlt => ?_⟩
      · rw [hgeneration] at hlt
        rw [hmoves]
        unfold firstMoves newMapOf
        rw [hstart]
        exact hhistory.past g hpos hlt
      · rw [hgeneration] at hlt
        rw [hmoves]
        exact hhistory.future g hlt
    · simpa [Function.update_of_ne hne] using h.history i hi'
  · by_cases hne : j = l.model
    · subst hne
      simpa [hmarked'] using h.unmarked i stmt hmain l.model hj hlt
    · simpa [Function.update_of_ne hne] using h.unmarked i stmt hmain j hj hlt
  · have hbefore : (s.models i).rebalanced = true ∧
        (s.models i).layerToTransfer < config.numMoeLayers i := by
      by_cases hne : i = l.model
      · subst hne
        simpa [hmarked', hlayer'] using And.intro hmarked hlayer
      · simpa [Function.update_of_ne hne] using And.intro hmarked hlayer
    rcases h.awake i hi' hbefore.1 hbefore.2 with hmain | ⟨hwaits, -⟩ | hreach
    · exact Or.inl hmain
    · simp [hworker, WorkerPc.waits] at hwaits
    · rw [hworker] at hreach
      refine Or.inr (Or.inr (hreaches i ?_ (by simpa [WorkerPc.reaches] using hreach)))
      by_cases hne : i = l.model
      · subst hne
        exact Or.inl hbefore
      · exact Or.inr hne

/-- A statement of the background thread. -/
theorem Running.workerStep (hlayers : ∀ i < config.numModels, 0 < config.numMoeLayers i)
    (h : Running config s) (htime : s.InTime config .worker)
    (hstep : s.workerStep config = .ok s') : Running config s' := by
  unfold EplbState.workerStep at hstep
  cases hworker : s.worker with
  | wait =>
    simp only [hworker] at hstep
    split at hstep
    · obtain rfl := Except.ok.inj hstep
      exact h.workerPlace (fun i => by rw [hworker]; rfl) (fun _ => rfl) rfl
        (fun l hl => by cases hl) fun i _ _ => Or.inr (Or.inr (by simp [WorkerPc.reaches]))
    · cases hstep
  | nextModel j =>
    simp only [hworker] at hstep
    obtain rfl := Except.ok.inj hstep
    have hfrom (i : Nat) : s.worker.looping i = none := by rw [hworker]; rfl
    split
    · next hj =>
      refine ⟨rfl, fun i hi => ?_, fun i hi => ?_, h.history, h.place,
        fun l hl => by cases hl; exact hj, h.unmarked, fun i hi hmarked hlayer => ?_⟩
      · have hstage := h.stage i hi
        rw [hfrom] at hstage
        by_cases hne : j = i
        · subst hne
          simpa [WorkerPc.looping] using hstage.enter
        · simpa [WorkerPc.looping, hne] using hstage
      · have hlocks := h.locks i hi
        rw [hfrom] at hlocks
        by_cases hne : j = i
        · subst hne
          refine ⟨hlocks.main, ?_⟩
          rw [← hlocks.worker]
          simp [WorkerPc.looping, LoopStmt.holdsLock]
        · simpa [WorkerPc.looping, hne] using hlocks
      · have hawake := h.awake i hi hmarked hlayer
        rw [hworker] at hawake
        simpa [WorkerPc.waits, WorkerPc.reaches] using hawake
    · next hj =>
      refine h.workerPlace hfrom (fun _ => rfl) rfl (fun l hl => by cases hl) fun i hi hawake => ?_
      rw [hworker] at hawake
      rcases hawake with hmain | ⟨hwaits, -⟩ | hreach
      · exact Or.inl hmain
      · cases hwaits
      · have hle : j ≤ i := by simpa [WorkerPc.reaches] using hreach
        omega
  | loop l =>
    simp only [hworker] at hstep
    cases hloop : l.step config (s.models l.model) with
    | none =>
      rw [hloop] at hstep
      cases hstep
    | some result =>
      rw [hloop] at hstep
      obtain rfl := Except.ok.inj hstep
      exact h.loop hlayers htime hworker hloop
  | clear =>
    simp only [hworker] at hstep
    obtain rfl := Except.ok.inj hstep
    refine h.workerPlace (fun i => by rw [hworker]; rfl) (fun _ => rfl) rfl
      (fun l hl => by cases hl) fun i _ hawake => ?_
    rw [hworker] at hawake
    simpa [WorkerPc.waits, WorkerPc.reaches] using hawake
  | failed => simp [hworker] at hstep

/-! ## Steps of the main thread -/

/-- A step of the main thread between two models. -/
theorem Running.mainPlace (h : Running config s) {main : MainPc} {rearrangeEvent : Bool}
    {expertRearrangementStep : Nat}
    (hstage : ∀ i < config.numModels,
      (s.models i).Stage config i (main.view i) (s.worker.looping i))
    (hlock : ∀ i, (main.view i).holdsLock = (s.main.view i).holdsLock)
    (hplace : ∀ i, main.model = some i → i < config.numModels)
    (hunmarked : ∀ i stmt, main = .rearrange i stmt →
      ∀ j < config.numModels, i < j → (s.models j).rebalanced = false)
    (hawake : ∀ i < config.numModels, s.main.rearranging = true ∨
      s.worker.waits = true ∧ s.rearrangeEvent = true ∨ s.worker.reaches i = true →
        main.rearranging = true ∨ s.worker.waits = true ∧ rearrangeEvent = true ∨
          s.worker.reaches i = true) :
    Running config { s with main, rearrangeEvent, expertRearrangementStep } where
  alive := h.alive
  stage := hstage
  locks i hi := ⟨(hlock i).symm ▸ (h.locks i hi).main, (h.locks i hi).worker⟩
  history := h.history
  place := hplace
  loopPlace := h.loopPlace
  unmarked := hunmarked
  awake i hi hmarked hlayer := hawake i hi (h.awake i hi hmarked hlayer)

/-- A statement of the main thread about a model. -/
theorem Running.mainModel (h : Running config s) {i : Nat} (hi : i < config.numModels)
    {main : MainPc} {m' : EplbModelState R}
    (hstage : m'.Stage config i (main.view i) (s.worker.looping i))
    (hlocks : Locks (main.view i) (s.worker.looping i) m') (hhistory : m'.History config i)
    (hothers : ∀ j < config.numModels, j ≠ i →
      (s.models j).Stage config j (main.view j) (s.worker.looping j) ∧
        (main.view j).holdsLock = (s.main.view j).holdsLock)
    (hplace : ∀ j, main.model = some j → j < config.numModels)
    (hunmarked : ∀ k stmt, main = .rearrange k stmt →
      ∀ j < config.numModels, k < j → j ≠ i ∧ (s.models j).rebalanced = false)
    (hawake : main.rearranging = true ∨ s.main.rearranging = false ∧
      (m'.rebalanced = true → m'.layerToTransfer < config.numMoeLayers i →
        (s.models i).rebalanced = true ∧
          (s.models i).layerToTransfer < config.numMoeLayers i)) :
    Running config { s with main, models := Function.update s.models i m' } := by
  refine ⟨h.alive, fun j hj => ?_, fun j hj => ?_, fun j hj => ?_, hplace, h.loopPlace,
    fun k stmt hmain j hj hlt => ?_, fun j hj hmarked hlayer => ?_⟩
  · by_cases hne : j = i
    · subst hne
      simpa using hstage
    · simpa [Function.update_of_ne hne] using (hothers j hj hne).1
  · by_cases hne : j = i
    · subst hne
      simpa using hlocks
    · simp only [Function.update_of_ne hne]
      exact ⟨(hothers j hj hne).2 ▸ (h.locks j hj).main, (h.locks j hj).worker⟩
  · by_cases hne : j = i
    · subst hne
      simpa using hhistory
    · simpa [Function.update_of_ne hne] using h.history j hj
  · obtain ⟨hne, hfalse⟩ := hunmarked k stmt hmain j hj hlt
    simpa [Function.update_of_ne hne] using hfalse
  · rcases hawake with hmain | ⟨hnot, hbefore⟩
    · exact Or.inl hmain
    · have hmarked' : (s.models j).rebalanced = true ∧
          (s.models j).layerToTransfer < config.numMoeLayers j := by
        by_cases hne : j = i
        · subst hne
          exact hbefore (by simpa using hmarked) (by simpa using hlayer)
        · simpa [Function.update_of_ne hne] using And.intro hmarked hlayer
      rcases h.awake j hj hmarked'.1 hmarked'.2 with hmain | hworker
      · rw [hnot] at hmain
        cases hmain
      · exact Or.inr hworker

/-- A statement of `move_to_workspace`. -/
theorem Running.moveStep (h : Running config s) {i : Nat} {stmt : MoveStmt}
    (hmain : s.main = .move i stmt) (hstep : s.moveStep config i stmt = .ok s') :
    Running config s' := by
  have hi : i < config.numModels := h.place i (by rw [hmain]; rfl)
  have hview : s.main.view i = .moving stmt := by simp [hmain, MainPc.view]
  have hother {j : Nat} (hne : j ≠ i) : s.main.view j = .elsewhere := by
    simp [hmain, MainPc.view, Ne.symm hne]
  have hstage := h.stage i hi
  have hlocks := h.locks i hi
  rw [hview] at hstage hlocks
  unfold EplbState.moveStep at hstep
  dsimp only at hstep
  split at hstep
  · cases hstep
  · next hfree =>
    split at hstep
    · next hraises =>
      have hsome := hstage.newMap_isSome hraises.1
      simp [hraises.2] at hsome
    · obtain rfl := Except.ok.inj hstep
      have hacquire : stmt = .acquire → (s.models i).bufferLock = none := by
        intro hstmt
        by_contra hheld
        exact hfree ⟨hstmt, hheld⟩
      have hstage' := hstage.move hlocks hacquire
      have hlocks' := hlocks.move config i hacquire
      have hothers (main : MainPc) (hmain' : ∀ j ≠ i, main.view j = .elsewhere) (j : Nat)
          (hj : j < config.numModels) (hne : j ≠ i) :
          (s.models j).Stage config j (main.view j) (s.worker.looping j) ∧
            (main.view j).holdsLock = (s.main.view j).holdsLock := by
        have hstage := h.stage j hj
        rw [hother hne] at hstage
        rw [hmain' j hne, hother hne]
        exact ⟨hstage, rfl⟩
      have hawake := fun h₁ h₂ => hstage.move_marked h₁ h₂
      have hnot : s.main.rearranging = false := by rw [hmain]; rfl
      cases hnext : stmt.next (config.numMoeLayers i) (s.models i) with
      | some stmt' =>
        rw [hnext] at hstage' hlocks'
        have hview' : (MainPc.move i stmt').view i = .moving stmt' := by simp [MainPc.view]
        exact h.mainModel hi (hview'.symm ▸ hstage') (hview'.symm ▸ hlocks')
          ((h.history i hi).move stmt)
          (hothers _ fun j hne => by simp [MainPc.view, Ne.symm hne])
          (fun j hj => by obtain rfl := Option.some.inj hj; exact hi)
          (fun k stmt hk => by cases hk) (Or.inr ⟨hnot, hawake⟩)
      | none =>
        rw [hnext] at hstage' hlocks'
        exact h.mainModel hi hstage' hlocks' ((h.history i hi).move stmt) (hothers _ fun _ _ => rfl)
          (fun j hj => by cases hj) (fun k stmt hk => by cases hk) (Or.inr ⟨hnot, hawake⟩)

/-- A statement of `rearrange`. -/
theorem Running.rearrangeStep (h : Running config s) {i : Nat} {stmt : RearrangeStmt}
    (hmain : s.main = .rearrange i stmt) : Running config (s.rearrangeStep config i stmt) := by
  have hi : i < config.numModels := h.place i (by rw [hmain]; rfl)
  have hview : s.main.view i = .starting stmt := by simp [hmain, MainPc.view]
  have hother {j : Nat} (hne : j ≠ i) : s.main.view j = .elsewhere := by
    simp [hmain, MainPc.view, Ne.symm hne]
  have hstage := h.stage i hi
  have hlocks := h.locks i hi
  rw [hview] at hstage hlocks
  have hstage' := hstage.rearrange (h.history i hi)
  have hhistory := (h.history i hi).rearrange hstage
  have hlock : (s.models i |>.rearrangeStmt stmt).bufferLock = (s.models i).bufferLock := by
    cases stmt <;> rfl
  have hlocks' {main : MainView} (hmain : main.holdsLock = false) :
      Locks main (s.worker.looping i) ((s.models i).rearrangeStmt stmt) := by
    refine ⟨?_, by rw [hlock]; exact hlocks.worker⟩
    rw [hlock, ← hlocks.main, hmain]
    rfl
  have hrest {j : Nat} (hj : j < config.numModels) (hne : j ≠ i) :
      (s.models j).Stage config j .elsewhere (s.worker.looping j) :=
    hother hne ▸ h.stage j hj
  unfold EplbState.rearrangeStep
  cases hnext : stmt.next with
  | some stmt' =>
    rw [hnext] at hstage'
    have hview' : (MainPc.rearrange i stmt').view i = .starting stmt' := by simp [MainPc.view]
    refine h.mainModel hi (hview'.symm ▸ hstage') (hlocks' (by rw [hview']; rfl)) hhistory
      (fun j hj hne => ?_) (fun j hj => by obtain rfl := Option.some.inj hj; exact hi)
      (fun k stmt'' hk j hj hlt => ?_) (Or.inl rfl)
    · have hview' : (MainPc.rearrange i stmt').view j = .elsewhere := by
        simp [MainPc.view, Ne.symm hne]
      rw [hview', hother hne]
      exact ⟨hrest hj hne, rfl⟩
    · obtain ⟨rfl, rfl⟩ := MainPc.rearrange.inj hk
      exact ⟨Nat.ne_of_gt hlt, h.unmarked i stmt hmain j hj hlt⟩
  | none =>
    rw [hnext] at hstage'
    dsimp only
    split
    · next hlt =>
      -- The next model begins; it is not marked.
      have hview' : (MainPc.rearrange (i + 1) .setStats).view i = .elsewhere := by
        simp [MainPc.view]
      refine h.mainModel hi (hview'.symm ▸ hstage') (hlocks' (by rw [hview']; rfl)) hhistory
        (fun j hj hne => ?_) (fun j hj => by obtain rfl := Option.some.inj hj; exact hlt)
        (fun k stmt'' hk j hj hlt' => ?_) (Or.inl rfl)
      · by_cases hnext : i + 1 = j
        · subst hnext
          rw [hother hne]
          simp only [MainPc.view, if_true]
          exact ⟨(hrest hj hne).start (h.unmarked i stmt hmain _ hj (Nat.lt_succ_self i)), rfl⟩
        · rw [hother hne]
          simp only [MainPc.view, if_neg hnext]
          exact ⟨hrest hj hne, trivial⟩
      · obtain ⟨rfl, rfl⟩ := MainPc.rearrange.inj hk
        exact ⟨by omega, h.unmarked i stmt hmain j hj (by omega)⟩
    · refine h.mainModel hi hstage' (hlocks' rfl) hhistory (fun j hj hne => ?_)
        (fun j hj => by cases hj) (fun k stmt'' hk => by cases hk) (Or.inl rfl)
      rw [hother hne]
      exact ⟨hrest hj hne, rfl⟩

/-- No model is marked when the next rearrangement may start. -/
theorem not_anyRebalanced (h : s.anyRebalanced config = false) {i : Nat}
    (hi : i < config.numModels) : (s.models i).rebalanced = false := by
  simpa using List.any_eq_false.mp h i (List.mem_range.mpr hi)

/-- A statement of the main thread. -/
theorem Running.mainStep (h : Running config s) (htime : s.InTime config .main)
    (hstep : s.mainStep config = .ok s') : Running config s' := by
  unfold EplbState.mainStep at hstep
  -- A step between two models at which the main thread stays outside of them.
  have houtside {main : MainPc} {expertRearrangementStep : Nat}
      (hfrom : ∀ i, s.main.view i = .elsewhere) (hto : ∀ i, main.view i = .elsewhere)
      (hplace : ∀ i, main.model = some i → i < config.numModels)
      (hnot : ∀ i stmt, main ≠ .rearrange i stmt) (hrearranging : s.main.rearranging = false) :
      Running config { s with main, expertRearrangementStep } :=
    h.mainPlace (fun i hi => by rw [hto, ← hfrom i]; exact h.stage i hi)
      (fun i => by rw [hto, hfrom]) hplace (fun i stmt hmain => absurd hmain (hnot i stmt))
      fun i _ hawake => Or.inr (hawake.resolve_left (by rw [hrearranging]; simp))
  cases hmain : s.main with
  | between =>
    simp only [hmain] at hstep
    obtain rfl := Except.ok.inj hstep
    exact houtside (fun i => by rw [hmain]; rfl) (fun _ => rfl) (fun i hi => by cases hi)
      (fun i stmt hi => by cases hi) (by rw [hmain]; rfl)
  | readyCheck i =>
    simp only [hmain] at hstep
    obtain rfl := Except.ok.inj hstep
    split
    · next hi =>
      exact houtside (fun i => by rw [hmain]; rfl) (fun _ => rfl)
        (fun j hj => by obtain rfl := Option.some.inj hj; exact hi)
        (fun i stmt hi => by cases hi) (by rw [hmain]; rfl)
    · exact houtside (fun i => by rw [hmain]; rfl) (fun _ => rfl) (fun i hi => by cases hi)
        (fun i stmt hi => by cases hi) (by rw [hmain]; rfl)
  | readyTest i allRanksBufferReady =>
    simp only [hmain] at hstep
    obtain rfl := Except.ok.inj hstep
    have hi : i < config.numModels := h.place i (by rw [hmain]; rfl)
    have hview (j : Nat) : s.main.view j = .elsewhere := by rw [hmain]; rfl
    split
    · next hready =>
      refine h.mainPlace (fun j hj => ?_) (fun j => ?_)
        (fun j hj => by obtain rfl := Option.some.inj hj; exact hi) (fun k stmt hk => by cases hk)
        fun j _ hawake => Or.inr (hawake.resolve_left (by rw [hmain]; simp [MainPc.rearranging]))
      · have hstage := h.stage j hj
        rw [hview] at hstage
        by_cases hne : i = j
        · subst hne
          simpa [MainPc.view] using hstage.consume hready.1
        · simpa [MainPc.view, hne] using hstage
      · rw [hview]
        simp only [MainPc.view]
        split <;> rfl
    · exact houtside hview (fun _ => rfl) (fun i hi => by cases hi)
        (fun i stmt hi => by cases hi) (by rw [hmain]; rfl)
  | move i stmt =>
    simp only [hmain] at hstep
    exact h.moveStep hmain hstep
  | stepTest =>
    simp only [hmain] at hstep
    have hview (j : Nat) : s.main.view j = .elsewhere := by rw [hmain]; rfl
    split at hstep
    · next hdue =>
      obtain rfl := Except.ok.inj hstep
      have hunmarked {i : Nat} (hi : i < config.numModels) : (s.models i).rebalanced = false :=
        not_anyRebalanced (by simpa using hdue.2) hi
      split
      · exact houtside hview (fun _ => rfl) (fun i hi => by cases hi)
          (fun i stmt hi => by cases hi) (by rw [hmain]; rfl)
      · next hmodels =>
        refine h.mainPlace (fun j hj => ?_) (fun j => ?_) (fun j hj => ?_)
          (fun k stmt hk j hj _ => hunmarked hj) fun j _ _ => Or.inl rfl
        · have hstage := h.stage j hj
          rw [hview] at hstage
          by_cases hne : 0 = j
          · subst hne
            simpa [MainPc.view] using hstage.start (hunmarked hj)
          · simpa [MainPc.view, hne] using hstage
        · rw [hview]
          simp only [MainPc.view]
          split <;> rfl
        · obtain rfl := Option.some.inj hj
          exact Nat.pos_of_ne_zero hmodels
    · obtain rfl := Except.ok.inj hstep
      exact houtside hview (fun _ => rfl) (fun i hi => by cases hi)
        (fun i stmt hi => by cases hi) (by rw [hmain]; rfl)
  | rearrange i stmt =>
    simp only [hmain] at hstep
    obtain rfl := Except.ok.inj hstep
    exact h.rearrangeStep hmain
  | setEvent =>
    simp only [hmain] at hstep
    obtain rfl := Except.ok.inj hstep
    have hview (j : Nat) : s.main.view j = .elsewhere := by rw [hmain]; rfl
    refine h.mainPlace (fun j hj => ?_) (fun j => by rw [hview]; rfl) (fun i hi => by cases hi)
      (fun k stmt hk => by cases hk) fun i hi _ => Or.inr ?_
    · have hstage := h.stage j hj
      rw [hview] at hstage
      exact hstage
    · rcases htime hmain with hwaits | hreach
      · exact Or.inl ⟨hwaits, rfl⟩
      · refine Or.inr ?_
        cases hworker : s.worker <;> rw [hworker] at hreach <;>
          simp_all [WorkerPc.reaches]
  | raised => simp [hmain] at hstep

/-- A step without a race. -/
theorem Running.step (hlayers : ∀ i < config.numModels, 0 < config.numMoeLayers i)
    (h : Running config s) {thread : EplbThread} (htime : s.InTime config thread)
    (hstep : s.step config thread = .ok s') : Running config s' := by
  cases thread with
  | main => exact h.mainStep htime hstep
  | worker => exact h.workerStep hlayers htime hstep

/-! ## What follows -/

/-- A model that sees the start of its rearrangement sees `rearrange`. -/
theorem rearranging_of_view {main : MainPc} {i : Nat} {stmt : RearrangeStmt}
    (h : main.view i = .starting stmt) : main.rearranging = true := by
  cases main with
  | move i' stmt' =>
    simp only [MainPc.view] at h
    split at h <;> cases h
  | rearrange i' stmt' => rfl
  | _ => cases h

/-- A marked model of which the last layer is not being finished has a layer left. -/
theorem Running.layer_lt (h : Running config s) {i : Nat} (hi : i < config.numModels)
    (hmarked : (s.models i).rebalanced = true) (hfinishing : s.main.finishing i = false)
    (hlayers : 0 < config.numMoeLayers i) :
    (s.models i).layerToTransfer < config.numMoeLayers i := by
  have hview {stmt : MoveStmt} (hstmt : s.main.view i = .moving stmt) : s.main = .move i stmt := by
    unfold MainPc.view at hstmt
    split at hstmt <;> grind
  cases h.stage i hi with
  | idle hmain hloop hflags => simp [hflags.1] at hmarked
  | announced hmain hloop hflags => simp [hflags.1] at hmarked
  | unmapped hmain hloop hwindow hflags => rwa [hflags.2.2.1]
  | mapped k hk hmain l hl hcomputed hloop hflags => rwa [hflags.2.2.1]
  | ready k hk hmain l hl hcomputed hloop hbuffer hflags => rwa [hflags.2.2.1]
  | consuming k hk hmain l hl hcomputed hloop hbuffer hflags => rwa [hflags.2.2.1]
  | moved k hk hmain l hl hcomputed hloop hflags => rwa [hflags.2.2.1]
  | advanced k hk hmain => simp [hview hmain, MainPc.finishing] at hfinishing
  | emptied hmain =>
    simp only [List.mem_cons, List.not_mem_nil, or_false] at hmain
    rcases hmain with hmain | hmain <;> simp [hview hmain, MainPc.finishing] at hfinishing
  | unmapping hmain => simp [hview hmain, MainPc.finishing] at hfinishing
  | unmarked hmain hloop hflags => simp [hflags.1] at hmarked

theorem Running.sound (hlayers : ∀ i < config.numModels, 0 < config.numMoeLayers i)
    (h : Running config s) : s.Sound config where
  alive := h.alive
  transfer l layer old new hworker hstmt := by
    have hi := h.loopPlace l hworker
    have hlooping : s.worker.looping l.model = some l := by simp [hworker, WorkerPc.looping]
    have hstage := h.stage l.model hi
    rw [hlooping] at hstage
    have hlookout (hloop : Lookout (some l)) : False := by
      have := hloop l rfl
      simp [hstmt, LoopStmt.lookout] at this
    cases hstage with
    | mapped k hk hmain l' hl hcomputed hloop hflags hgen hmoved =>
      obtain rfl := Option.some.inj hl
      unfold MappedLoop at hloop
      simp only [hstmt] at hloop
      obtain ⟨rfl, rfl, rfl⟩ := hloop
      exact ⟨hflags.1, hflags.2.2.1.symm, hk, (hmoved.2 layer le_rfl).symm, rfl⟩
    | unmapped hmain hloop =>
      have := hloop l rfl
      simp [UnmappedLoop, hstmt] at this
    | ready k hk hmain l' hl hcomputed hloop =>
      obtain rfl := Option.some.inj hl
      simp [hstmt, LoopStmt.lookout] at hloop
    | consuming k hk hmain l' hl hcomputed hloop =>
      obtain rfl := Option.some.inj hl
      simp [hstmt, LoopStmt.lookout] at hloop
    | moved k hk hmain l' hl hcomputed hloop =>
      obtain rfl := Option.some.inj hl
      simp [hstmt, LoopStmt.lookout] at hloop
    | idle hmain hloop => exact (hlookout hloop).elim
    | announced hmain hloop => exact (hlookout hloop).elim
    | advanced k hk hmain hloop => exact (hlookout hloop).elim
    | emptied hmain hloop => exact (hlookout hloop).elim
    | unmapping hmain hloop => exact (hlookout hloop).elim
    | unmarked hmain hloop => exact (hlookout hloop).elim
  past i hi := (h.history i hi).past
  present i hi hgen := by
    cases h.stage i hi with
    | idle hmain hloop hflags hmoved =>
      exact ⟨_, le_rfl, (hmoved.resolve_left (Nat.ne_of_gt hgen)).1, fun _ _ => rfl⟩
    | announced hmain hloop hflags hgen' hstats hmoved =>
      refine ⟨0, Nat.zero_le _, hmoved.1, fun _ hnot => ?_⟩
      simp only [List.mem_cons, List.not_mem_nil, or_false] at hmain
      have hrearranging : s.main.rearranging = true := by
        rcases hmain with hmain | hmain <;> exact rearranging_of_view hmain
      rw [hnot] at hrearranging
      cases hrearranging
    | unmapped hmain hloop hwindow hflags hgen' hstats hmoved =>
      exact ⟨0, Nat.zero_le _, hmoved.1, fun hfalse => by simp [hflags.1] at hfalse⟩
    | mapped k hk hmain l hl hcomputed hloop hflags hgen' hmoved =>
      exact ⟨k, hk.le, hmoved.1, fun hfalse => by simp [hflags.1] at hfalse⟩
    | ready k hk hmain l hl hcomputed hloop hbuffer hflags hgen' hmoved =>
      exact ⟨k, hk.le, hmoved.1, fun hfalse => by simp [hflags.1] at hfalse⟩
    | consuming k hk hmain l hl hcomputed hloop hbuffer hflags hgen' hmoved =>
      exact ⟨k, hk.le, hmoved.1, fun hfalse => by simp [hflags.1] at hfalse⟩
    | moved k hk hmain l hl hcomputed hloop hflags hgen' hmoved =>
      exact ⟨k + 1, hk, hmoved.1, fun hfalse => by simp [hflags.1] at hfalse⟩
    | advanced k hk hmain hloop hcomputed hflags hgen' hmoved =>
      exact ⟨k, hk, hmoved.1, fun hfalse => by simp [hflags.1] at hfalse⟩
    | emptied hmain hloop hflags hgen' hmoved => exact ⟨_, le_rfl, hmoved.1, fun _ _ => rfl⟩
    | unmapping hmain hloop hflags hgen' hmoved => exact ⟨_, le_rfl, hmoved.1, fun _ _ => rfl⟩
    | unmarked hmain hloop hflags hgen' hmoved => exact ⟨_, le_rfl, hmoved.1, fun _ _ => rfl⟩
  awake := by
    rintro ⟨hwaits, hclear, hnot, i, hi, hmarked, hfinishing⟩
    rcases h.awake i hi hmarked (h.layer_lt hi hmarked hfinishing (hlayers i hi)) with
      hmain | ⟨-, hset⟩ | hreach
    · rw [hnot] at hmain
      cases hmain
    · rw [hclear] at hset
      cases hset
    · cases hworker : s.worker <;> rw [hworker] at hwaits hreach <;>
        simp_all [WorkerPc.waits, WorkerPc.reaches]

/-- In every run without a race, of models with layers, every state is sound. -/
theorem EplbState.rebalance_sound (config : EplbConfig R) (maps : Nat → Nat → R)
    (hlayers : ∀ i < config.numModels, 0 < config.numMoeLayers i) (threads : List EplbThread)
    (htime : Along (EplbState.step config) (EplbState.InTime config) (EplbState.init maps) threads)
    (s : EplbState R) (hrun : run (EplbState.step config) (EplbState.init maps) threads = .ok s) :
    s.Sound config :=
  (run_invariant (fun _ _ _ h htime hstep => h.step hlayers htime hstep)
    (init_running config maps) htime hrun).sound hlayers

/-! ## The races -/

/-- One model of one layer, which is rearranged whenever it can be. -/
def oneLayer : EplbConfig Nat where
  numModels := 1
  numMoeLayers := fun _ => 1
  expertRearrangementStepInterval := 1
  rebalanceExperts := fun _ g _ _ => g

/-- Statements of a thread, one after the other. -/
def EplbThread.times (thread : EplbThread) (n : Nat) : List EplbThread := List.replicate n thread

/-- A whole rearrangement: it is started, its layer transferred and moved, and both threads are
back where they began. -/
def wholeRearrangement : List EplbThread :=
  EplbThread.main.times 11 ++ EplbThread.worker.times 18 ++ EplbThread.main.times 13 ++
    EplbThread.worker.times 4

/-- The next rearrangement is started, by the call of `step` that moved the last layer, while the
background thread is about to clear the event. -/
def lostWakeup : List EplbThread :=
  EplbThread.main.times 11 ++ EplbThread.worker.times 18 ++ EplbThread.main.times 18 ++
    EplbThread.worker.times 3 ++ EplbThread.main.times 4 ++ EplbThread.worker.times 1

/-- The background thread tests the flags between the reset of the buffer's flag and the end of
the rearrangement. -/
def staleTest : List EplbThread :=
  EplbThread.main.times 11 ++ EplbThread.worker.times 18 ++ EplbThread.main.times 8 ++
    EplbThread.worker.times 1 ++ EplbThread.main.times 6 ++ EplbThread.worker.times 6

theorem wholeRearrangement_sound : ∃ s,
    run (EplbState.step oneLayer) (EplbState.init fun _ _ => 0) wholeRearrangement = .ok s ∧
      s.Sound oneLayer :=
  ⟨_, rfl, EplbState.rebalance_sound oneLayer (fun _ _ => 0) (by decide) wholeRearrangement
    (by decide) _ rfl⟩

theorem lostWakeup_stalls : ∃ s,
    run (EplbState.step oneLayer) (EplbState.init fun _ _ => 0) lostWakeup = .ok s ∧
      ¬ s.Sound oneLayer :=
  ⟨_, rfl, fun h => h.awake ⟨rfl, rfl, rfl, 0, by decide, rfl, rfl⟩⟩

theorem staleTest_fails : ∃ s,
    run (EplbState.step oneLayer) (EplbState.init fun _ _ => 0) staleTest = .ok s ∧
      ¬ s.Sound oneLayer :=
  ⟨_, rfl, fun h => Bool.noConfusion h.alive⟩

end Vllm.Distributed
